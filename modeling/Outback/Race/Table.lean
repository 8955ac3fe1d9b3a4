import Outback.Hash
import Mathlib.Logic.Function.Basic
import Mathlib.Data.List.FinRange

/-!
# `Race.Table` — the RACE hash table (`race/race_table.hh`)

A table of `nsize` buckets of 64 bytes in registered memory. Two thirds of the buckets, `msize` of them, are
candidates of keys; the others are the spare bucket `3j + 1` between the candidates `3j` and `3j + 2`. A key
is inserted at its first candidate, its second, or the spare bucket of either; it is read back with one
one-sided read that `remote_lookup` derives from the first candidate alone.

`insert` and `remote_lookup` compute on `uint64_t`, with the spare bucket in an `int64_t` that is compared
once signed and once unsigned. `% msize` is undefined when `msize = 0`, and so is an access beyond the table:
both are a `Fault`.
-/

namespace Outback.Race

/-- Why an operation of the table does not return. -/
inductive Fault where
  /-- a remainder modulo `msize = 0` -/
  | divisionByZero
  /-- a bucket at or beyond `nsize` -/
  | bucketBounds
  deriving DecidableEq, Repr

/-! ## Hashing -/

/-- `MurmurHash64` on the eight bytes of one key: a single block and no tail. -/
def murmurHash64 (key : U64) (seed : U32) : U64 :=
  let m := 0xc6a4a7935bd1e995#64
  let k := key * m
  let k := k ^^^ (k >>> 47)
  let k := k * m
  let h := seed.setWidth 64 ^^^ (8#64 * m)
  let h := (h ^^^ k) * m
  let h := h ^^^ (h >>> 47)
  let h := h * m
  h ^^^ (h >>> 47)

def fingerprint (key : U64) : U8 := (murmurHash64 key 0x87654321#32 &&& 0xFF#64).setWidth 8

/-- The candidates of a table of `nsize` buckets are numbered below `msize = nsize * 2 / 3`. -/
def msize (nsize : U64) : U64 := nsize * 2 / 3

def hashToCuckooIndex (nsize hashindex : U64) : U64 :=
  if hashindex &&& 1#64 ≠ 0 then
    if 3 * (hashindex / 2 + 1) - 1 > 0 then 3 * (hashindex / 2 + 1) - 1 else 0
  else
    if 3 * (hashindex / 2) < nsize - 1 then 3 * (hashindex / 2) else nsize - 1

/-- The two candidate numbers of a key, before they are scaled to the table. -/
def cuckooSeeds (key : U64) : U64 × U64 :=
  let seed := murmurHash64 key 0x1234#32
  (seed, seed ^^^ (0x9e3779b9#64 + (seed <<< 6) + (seed >>> 2)))

/-- The candidates of a key where `msize` is not zero. -/
def candidates (nsize key : U64) : U64 × U64 :=
  (hashToCuckooIndex nsize ((cuckooSeeds key).1 % msize nsize),
    hashToCuckooIndex nsize ((cuckooSeeds key).2 % msize nsize))

/-- The `int64_t spare_bucket` of a bucket. -/
def spareBucket (bucket : U64) : U64 :=
  if bucket % 3 = 0 then bucket + 1
  else if bucket % 3 = 2 then bucket - 1
  -- "mod impossible"
  else -1

/-- `spare_bucket > 0 && spare_bucket < nsize`: the first comparison is signed, the second is not. -/
def spareInside (nsize spare : U64) : Bool := (0#64).slt spare && decide (spare < nsize)

/-- What `spare_buckets_num` makes of one of the two buckets. -/
def spareOf (nsize bucket : U64) : U64 :=
  if spareInside nsize (spareBucket bucket) then spareBucket bucket else bucket

/-! ## Buckets -/

structure CuckooBucket where
  occupied : U8 := 0
  fps : Slot → U8 := fun _ => 0
  lens : Slot → U16 := fun _ => 0
  addrs : Slot → U64 := fun _ => 0

/-- What an insertion writes into a slot. -/
structure Entry where
  key : U64
  addr : U64
  /-- the default of `insert` is `sizeof(KeyType) + sizeof(ValType)` -/
  len : U16 := 16

namespace CuckooBucket

/-- `bucket.occupied & (1U << slot)` -/
def taken (b : CuckooBucket) (slot : Slot) : Bool := b.occupied &&& (1#8 <<< slot.val) != 0#8

/-- The slot the inner loop of `insert` stops at. -/
def freeSlot (b : CuckooBucket) : Option Slot := (List.finRange 4).find? fun slot => !b.taken slot

def put (b : CuckooBucket) (slot : Slot) (e : Entry) : CuckooBucket where
  fps := Function.update b.fps slot (fingerprint e.key)
  addrs := Function.update b.addrs slot e.addr
  lens := Function.update b.lens slot e.len
  occupied := b.occupied ||| (1#8 <<< slot.val)

/-- Every slot is occupied. -/
def Full (b : CuckooBucket) : Prop := ∀ slot, b.taken slot = true

instance (b : CuckooBucket) : Decidable b.Full := inferInstanceAs (Decidable (∀ _, _))

theorem freeSlot_eq_none {b : CuckooBucket} : b.freeSlot = none ↔ b.Full := by
  simp [freeSlot, Full]

theorem taken_freeSlot {b : CuckooBucket} {slot : Slot} (h : b.freeSlot = some slot) : b.taken slot = false := by
  simpa using List.find?_some h

/-- Occupied is a bit of the first byte. -/
theorem taken_eq (b : CuckooBucket) (slot : Slot) : b.taken slot = b.occupied.getLsbD slot.val := by
  have hbit (w : U8) (s : Slot) : (w &&& (1#8 <<< s.val) != 0#8) = w.getLsbD s.val := by
    revert w s
    decide +kernel
  exact hbit b.occupied slot

end CuckooBucket

/-! ## The table -/

/-- A table in registered memory, in whatever state its bytes are. -/
structure RaceHashTable where
  nsize : U64
  cuckooBuckets : Array CuckooBucket
  size_eq : cuckooBuckets.size = nsize.toNat
  /-- the bytes of a table in memory have 64-bit addresses -/
  bytes_le : nsize.toNat * 64 ≤ 2 ^ 64

namespace RaceHashTable

variable (t : RaceHashTable)

/-- The bucket at an index. -/
def bucket (b : Nat) : CuckooBucket := t.cuckooBuckets.getD b {}

/-- The stores of `insert` into one slot. -/
def store (b : Nat) (slot : Slot) (e : Entry) : RaceHashTable where
  nsize := t.nsize
  cuckooBuckets := t.cuckooBuckets.setIfInBounds b ((t.bucket b).put slot e)
  size_eq := by rw [Array.size_setIfInBounds, t.size_eq]
  bytes_le := t.bytes_le

def cuckooHash (key : U64) : Except Fault (U64 × U64) :=
  if msize t.nsize = 0 then .error .divisionByZero else .ok (candidates t.nsize key)

/-- One of the two `for ibucket` loops of `insert`: the entry goes to the first free slot of the first of the
    buckets that has one. -/
def tryBuckets (e : Entry) : List U64 → Except Fault (Option RaceHashTable)
  | [] => .ok none
  | b :: buckets =>
      if b.toNat < t.cuckooBuckets.size then
        match (t.bucket b.toNat).freeSlot with
        | some slot => .ok (some (t.store b.toNat slot e))
        | none => tryBuckets e buckets
      else .error .bucketBounds

/-- `insert(key, addr, len)`: the table afterwards and the value returned. -/
def insert (e : Entry) : Except Fault (RaceHashTable × Bool) := do
  let buckets ← t.cuckooHash e.key
  match ← t.tryBuckets e [buckets.1, buckets.2] with
  | some u => return (u, true)
  | none =>
    match ← t.tryBuckets e [spareOf t.nsize buckets.1, spareOf t.nsize buckets.2] with
    | some u => return (u, true)
    | none => return (t, false)

/-- A sequence of inserts, as `bulkload` makes them: what they return is dropped. -/
def inserts (es : List Entry) : Except Fault RaceHashTable :=
  es.foldlM (fun t e => Prod.fst <$> t.insert e) t

/-- `remote_lookup(key, read_size)`: the byte offset returned and the `read_size` set. -/
def remoteLookup (key : U64) : Except Fault (U64 × U32) := do
  let nbuckets ← t.cuckooHash key
  let acAddr := nbuckets.1
  let spare := spareBucket acAddr
  let readSize : U64 := if spareInside t.nsize spare then 2 * 64 else 64
  let first := if acAddr < spare then acAddr else spare
  return (first * 64, readSize.setWidth 32)

@[simp] theorem store_nsize (b : Nat) (slot : Slot) (e : Entry) : (t.store b slot e).nsize = t.nsize := rfl

theorem bucket_store_self {b : Nat} (hb : b < t.cuckooBuckets.size) (slot : Slot) (e : Entry) :
    (t.store b slot e).bucket b = (t.bucket b).put slot e := by
  simp [bucket, store, hb]

theorem bucket_store_ne {b b' : Nat} (hne : b' ≠ b) (slot : Slot) (e : Entry) :
    (t.store b slot e).bucket b' = t.bucket b' := by
  simp [bucket, store, Array.getElem?_setIfInBounds_ne (Ne.symm hne)]

end RaceHashTable

end Outback.Race
