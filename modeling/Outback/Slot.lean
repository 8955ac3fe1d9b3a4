import Outback.Hash
import Mathlib.Logic.Function.Basic
import Mathlib.Data.List.FinRange
import Mathlib.Tactic.IntervalCases

/-!
# `Slot` — slot words and the bucket array (`outback/ludo_slot.hh`)

A slot is one 64-bit word, `flag(1) | finger(7) | length(16) | addr(40)`. It is **occupied** when its length
field is non-zero; the address is an index into the packed array. A cleared slot is the zero word, whose
address field reads as index `0` — the code has no other mark for "no address".

Accesses outside an array are undefined in the source; the model makes them a `Fault`, together with the
`exit(0)` calls of the server.
-/

namespace Outback

/-- Why an operation does not return. -/
inductive Fault where
  /-- a row at or beyond the number of buckets -/
  | bucketBounds
  /-- an index at or beyond the number of packed entries -/
  | packedBounds
  /-- the process called `exit(0)` -/
  | exited
  /-- an `ASSERT` failed -/
  | assertFailed
  /-- an access through a deleted wrapper or an unmapped region -/
  | danglingPointer
  deriving DecidableEq, Repr

abbrev Exec := Except Fault

/-- A step that returned hands its result on. -/
@[simp] theorem Exec.ok_bind {α β : Type} (a : α) (f : α → Exec β) : (Except.ok a >>= f) = f a := rfl

/-! ## The slot word -/

/-- The low 40 bits. -/
def addrMask : U64 := (1#64 <<< 40) - 1#64

def combine (finger : U8) (length : U16) (addr : U64) : U64 :=
  (1#64 <<< 63) + ((finger &&& 0x7F#8).setWidth 64 <<< 56) + (length.setWidth 64 <<< 40)
    + (addr &&& addrMask)

def toFinger (num : U64) : U8 := ((num >>> 56) &&& 0x7F#64).setWidth 8
def toLength (num : U64) : U16 := ((num >>> 40) &&& 0xFFFF#64).setWidth 16
def toAddr (num : U64) : U64 := num &&& addrMask

/-- The word the bulk loader stores for a value (`values[slot] + (64UL << 48)`). -/
def bulkWord (value : U64) : U64 := value + (64#64 <<< 48)

/-- The index a slot word refers to. -/
def addrOf (num : U64) : Nat := (toAddr num).toNat

/-- A slot is occupied when its length field is non-zero. -/
def occ (num : U64) : Bool := toLength num != 0

/-! ## The fields of a word -/

theorem addrOf_eq (w : U64) : addrOf w = w.toNat % 2 ^ 40 := by
  unfold addrOf toAddr
  rw [BitVec.toNat_and, show addrMask.toNat = 2 ^ 40 - 1 from by decide, Nat.and_two_pow_sub_one_eq_mod]

theorem toLength_toNat (w : U64) : (toLength w).toNat = w.toNat / 2 ^ 40 % 2 ^ 16 := by
  unfold toLength
  rw [BitVec.toNat_setWidth, BitVec.toNat_and, BitVec.toNat_ushiftRight, Nat.shiftRight_eq_div_pow,
    show (0xFFFF#64).toNat = 2 ^ 16 - 1 from by decide, Nat.and_two_pow_sub_one_eq_mod]
  omega

theorem occ_iff {w : U64} : occ w = true ↔ w.toNat / 2 ^ 40 % 2 ^ 16 ≠ 0 := by
  rw [← toLength_toNat]
  simp [occ, BitVec.toNat_eq]

/-- The fields of `combine` do not carry into each other. -/
theorem combine_toNat (finger : U8) (length : U16) (addr : U64) :
    (combine finger length addr).toNat
      = 2 ^ 63 + (finger.toNat % 2 ^ 7) * 2 ^ 56 + length.toNat * 2 ^ 40 + addr.toNat % 2 ^ 40 := by
  have hf : (finger &&& 0x7F#8).toNat = finger.toNat % 2 ^ 7 := by
    rw [BitVec.toNat_and, show (0x7F#8).toNat = 2 ^ 7 - 1 from by decide, Nat.and_two_pow_sub_one_eq_mod]
  have ha : (addr &&& addrMask).toNat = addr.toNat % 2 ^ 40 := addrOf_eq addr
  have hl : length.toNat < 2 ^ 16 := length.isLt
  unfold combine
  simp only [BitVec.toNat_add, BitVec.toNat_shiftLeft, BitVec.toNat_setWidth, hf, ha,
    Nat.shiftLeft_eq, BitVec.toNat_ofNat]
  omega

theorem addrOf_combine (finger : U8) (length : U16) (addr : U64) :
    addrOf (combine finger length addr) = addr.toNat % 2 ^ 40 := by
  have hl : length.toNat < 2 ^ 16 := length.isLt
  rw [addrOf_eq, combine_toNat]
  omega

/-- An index of `alloc_remote_data_slot` in a slot word: its lower 40 bits. -/
theorem addrOf_insertWord (finger : U8) (idx : Nat) :
    addrOf (combine finger 64 (BitVec.ofNat 64 idx)) = idx % 2 ^ 40 := by
  rw [addrOf_combine, BitVec.toNat_ofNat]
  omega

/-- An index of `bulk_load_data` in a slot word: the counter through a `uint32_t`. -/
theorem addrOf_newIndex (finger : U8) (length : U16) (n : Nat) :
    addrOf (combine finger length ((BitVec.ofNat 32 n).setWidth 64)) = n % 2 ^ 32 := by
  have hlt : n % 2 ^ 32 < 2 ^ 32 := Nat.mod_lt _ (by decide)
  rw [addrOf_combine, BitVec.toNat_setWidth, BitVec.toNat_ofNat]
  omega

theorem toLength_combine (finger : U8) (length : U16) (addr : U64) :
    toLength (combine finger length addr) = length := by
  have hl : length.toNat < 2 ^ 16 := length.isLt
  apply BitVec.eq_of_toNat_eq
  rw [toLength_toNat, combine_toNat]
  omega

theorem toFinger_toNat (w : U64) : (toFinger w).toNat = w.toNat / 2 ^ 56 % 2 ^ 7 := by
  unfold toFinger
  rw [BitVec.toNat_setWidth, BitVec.toNat_and, BitVec.toNat_ushiftRight, Nat.shiftRight_eq_div_pow,
    show (0x7F#64).toNat = 2 ^ 7 - 1 from by decide, Nat.and_two_pow_sub_one_eq_mod]
  omega

theorem toFinger_combine (finger : U8) (length : U16) (addr : U64) :
    (toFinger (combine finger length addr)).toNat = finger.toNat % 2 ^ 7 := by
  have hl : length.toNat < 2 ^ 16 := length.isLt
  rw [toFinger_toNat, combine_toNat]
  omega

theorem occ_combine {finger : U8} {length : U16} {addr : U64} (h : length ≠ 0) :
    occ (combine finger length addr) = true := by
  simpa [occ, toLength_combine] using h

theorem setBit63_toNat (w : U64) : (w ||| 1#64 <<< 63).toNat = w.toNat ||| 2 ^ 63 := by
  rw [BitVec.toNat_or, show (1#64 <<< 63).toNat = 2 ^ 63 from by decide]

/-- Setting the cache bit touches neither the length nor the address. -/
theorem setBit63_fields (w : U64) :
    addrOf (w ||| 1#64 <<< 63) = addrOf w ∧ occ (w ||| 1#64 <<< 63) = occ w := by
  constructor
  · rw [addrOf_eq, addrOf_eq, setBit63_toNat, Nat.or_mod_two_pow,
      show (2 ^ 63 : Nat) % 2 ^ 40 = 0 from by decide, Nat.or_zero]
  · rw [Bool.eq_iff_iff, occ_iff, occ_iff, setBit63_toNat, Nat.or_div_two_pow, Nat.or_mod_two_pow,
      show (2 ^ 63 : Nat) / 2 ^ 40 % 2 ^ 16 = 0 from by decide, Nat.or_zero]

theorem bulkWord_toNat {v : U64} (h : v.toNat < 2 ^ 40) : (bulkWord v).toNat = v.toNat + 2 ^ 54 := by
  unfold bulkWord
  rw [BitVec.toNat_add, show (64#64 <<< 48).toNat = 2 ^ 54 from by decide]
  exact Nat.mod_eq_of_lt (by omega)

theorem addrOf_bulkWord {v : U64} (h : v.toNat < 2 ^ 40) : addrOf (bulkWord v) = v.toNat := by
  rw [addrOf_eq, bulkWord_toNat h]
  omega

theorem occ_bulkWord {v : U64} (h : v.toNat < 2 ^ 40) : occ (bulkWord v) = true := by
  rw [occ_iff, bulkWord_toNat h]
  omega

theorem addrOf_zero : addrOf 0 = 0 := by decide

/-! ## `LudoBucket` and `LudoBuckets` -/

structure LudoBucket where
  slots : Slot → U64

/-- `check_slots` answers `0`, `1`, `2` or `3`. -/
inductive SlotStatus where
  /-- `0`: good position, the slot is empty -/
  | good
  /-- `1`: maybe update, the fingerprint matches -/
  | maybeUpdate
  /-- `2`: empty slots exist in the row -/
  | emptyExists
  /-- `3`: the row is full -/
  | full
  deriving DecidableEq, Repr

/-- The seed of `LudoBuckets::hp`. -/
def fingerSeed : U64 := 0x93ea45

def fingerprint (H : HashFn) (key : U64) : U8 := (H fingerSeed key &&& 0x7F#64).setWidth 8

namespace LudoBucket

/-- `check_slots` on the row it reads. -/
def checkSlots (H : HashFn) (b : LudoBucket) (key : U64) (slot : Slot) : SlotStatus :=
  if occ (b.slots slot) = false then .good
  else if toFinger (b.slots slot) = fingerprint H key then .maybeUpdate
  else if (List.finRange 4).any (fun idx => !occ (b.slots idx)) then .emptyExists
  else .full

/-- One slot replaced. -/
def write (b : LudoBucket) (slot : Slot) (word : U64) : LudoBucket :=
  ⟨Function.update b.slots slot word⟩

theorem checkSlots_good_iff {H : HashFn} {b : LudoBucket} {key : U64} {s : Slot} :
    b.checkSlots H key s = .good ↔ occ (b.slots s) = false := by
  unfold checkSlots
  constructor
  · intro h
    by_contra hocc
    rw [if_neg hocc] at h
    split at h
    · cases h
    · split at h <;> cases h
  · intro h
    rw [if_pos h]

theorem checkSlots_maybeUpdate_iff {H : HashFn} {b : LudoBucket} {key : U64} {s : Slot} :
    b.checkSlots H key s = .maybeUpdate ↔ occ (b.slots s) = true ∧ toFinger (b.slots s) = fingerprint H key := by
  unfold checkSlots
  constructor
  · intro h
    split at h
    · cases h
    · rename_i hocc
      split at h
      · rename_i hfinger
        exact ⟨by simpa using hocc, hfinger⟩
      · split at h <;> cases h
  · rintro ⟨hocc, hfinger⟩
    rw [if_neg (by simp [hocc]), if_pos hfinger]

/-- A full row has no empty slot. -/
theorem occ_of_full {H : HashFn} {b : LudoBucket} {key : U64} {s : Slot} (h : b.checkSlots H key s = .full) (t : Slot) :
    occ (b.slots t) = true := by
  unfold checkSlots at h
  split at h
  · cases h
  · split at h
    · cases h
    · split at h
      · cases h
      · rename_i hany
        by_contra hocc
        exact hany (List.any_eq_true.mpr ⟨t, List.mem_finRange t, by simp [hocc]⟩)

/-- Answer `2` promises an empty slot beside an occupied one. -/
theorem exists_empty_of_emptyExists {H : HashFn} {b : LudoBucket} {key : U64} {s : Slot}
    (h : b.checkSlots H key s = .emptyExists) : occ (b.slots s) = true ∧ ∃ t, occ (b.slots t) = false := by
  unfold checkSlots at h
  split at h
  · cases h
  · rename_i hocc
    split at h
    · cases h
    · split at h
      · rename_i hany
        obtain ⟨t, -, ht⟩ := List.any_eq_true.mp hany
        exact ⟨by simpa using hocc, t, (Bool.not_eq_true' _).mp ht⟩
      · cases h

@[simp] theorem write_slots (b : LudoBucket) (slot : Slot) (word : U64) :
    (b.write slot word).slots = Function.update b.slots slot word := rfl

end LudoBucket

/-! ## The array of buckets -/

/-- The typed view of a bucket array: the memory and the number of buckets. -/
structure LudoBuckets where
  bucketsArray : Nat → LudoBucket
  numElements : Nat

namespace LudoBuckets

/-- `bucketsArray[row]`. -/
def row (lbs : LudoBuckets) (r : Nat) : Exec LudoBucket :=
  if r < lbs.numElements then .ok (lbs.bucketsArray r) else .error .bucketBounds

/-- `bucketsArray[row] = b`. -/
def setRow (lbs : LudoBuckets) (r : Nat) (b : LudoBucket) : LudoBuckets :=
  { lbs with bucketsArray := Function.update lbs.bucketsArray r b }

/-- The word of a slot. -/
def word (lbs : LudoBuckets) (r : Nat) (s : Slot) : U64 := (lbs.bucketsArray r).slots s

theorem row_ok {lbs : LudoBuckets} {r : Nat} (h : r < lbs.numElements) :
    lbs.row r = .ok (lbs.bucketsArray r) := if_pos h

/-- A row that was read lies in the array. -/
theorem row_eq_ok {lbs : LudoBuckets} {r : Nat} {b : LudoBucket} (h : lbs.row r = .ok b) :
    r < lbs.numElements ∧ b = lbs.bucketsArray r := by
  unfold row at h
  split at h
  · rename_i hr
    exact ⟨hr, (Except.ok.inj h).symm⟩
  · cases h

/-- `write_addr` with its default `length = 64`. -/
def writeAddr (H : HashFn) (lbs : LudoBuckets) (key : U64) (r : Nat) (s : Slot) (addr : U64) : LudoBuckets :=
  lbs.setRow r ((lbs.bucketsArray r).write s (combine (fingerprint H key) 64 addr))

def removeAddr (lbs : LudoBuckets) (r : Nat) (s : Slot) : LudoBuckets :=
  lbs.setRow r ((lbs.bucketsArray r).write s 0)

def setCachebit (lbs : LudoBuckets) (r : Nat) (s : Slot) : LudoBuckets :=
  lbs.setRow r ((lbs.bucketsArray r).write s (lbs.word r s ||| 1#64 <<< 63))

/-- The words after one row is replaced. -/
theorem setRow_word (lbs : LudoBuckets) (r r' : Nat) (b : LudoBucket) (s : Slot) :
    (lbs.setRow r b).word r' s = if r' = r then b.slots s else lbs.word r' s := by
  unfold setRow word
  by_cases h : r' = r
  · subst h; simp
  · simp [h]

/-- The words after one slot is written. -/
theorem write_word (lbs : LudoBuckets) (r r' : Nat) (s s' : Slot) (w : U64) :
    (lbs.setRow r ((lbs.bucketsArray r).write s w)).word r' s'
      = if r' = r ∧ s' = s then w else lbs.word r' s' := by
  rw [setRow_word]
  by_cases hr : r' = r
  · subst hr
    by_cases hs : s' = s
    · subst hs; simp
    · simp [hs, word]
  · simp [hr]

end LudoBuckets

end Outback
