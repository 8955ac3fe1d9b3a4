import Mathlib.Data.Nat.Bitwise
import Mathlib.Data.Fin.Basic

/-!
# `Hash` — machine words and the seeded hash functions

`KeyType` and `ValType` are both `u64`. Every placement decision of the table goes through
`FastHasher64<K>`, a seeded 64-bit hash: the model takes it as a parameter `H : HashFn` (seed, then key),
so that each general result holds for every hash function, and `fastHasher64` below is the one the program
runs (`HashUtil::BobHash` on the eight bytes of the key). Concrete inputs are evaluated with `fastHasher64`.
-/

namespace Outback

abbrev U8 := BitVec 8
abbrev U16 := BitVec 16
abbrev U32 := BitVec 32
abbrev U64 := BitVec 64

/-- `SLOTS_NUM_BUCKET`: a bucket has four slots. -/
abbrev Slot := Fin 4

/-- A seeded hash: `H s k` is `FastHasher64<K>(s)(k)`. -/
abbrev HashFn := U64 → U64 → U64

/-! ## `HashUtil::BobHash` on one 64-bit key -/

/-- `rot(x, k)` of `hashutil.cc`. -/
def rot (x : U32) (k : Nat) : U32 := (x <<< k) ||| (x >>> (32 - k))

/-- `final(a, b, c)` of `hashutil.cc`. -/
def final (a b c : U32) : U32 × U32 × U32 :=
  let c := (c ^^^ b) - rot b 14
  let a := (a ^^^ c) - rot c 11
  let b := (b ^^^ a) - rot a 25
  let c := (c ^^^ b) - rot b 16
  let a := (a ^^^ c) - rot c 4
  let b := (b ^^^ a) - rot a 14
  let c := (c ^^^ b) - rot b 24
  (a, b, c)

/-- `BobHash(buf, 8, idx1, idx2)`: eight bytes are the two 32-bit chunks `k0` and `k1`; there is no full
    12-byte block, so `mix` is not run. Returns the new `(idx1, idx2)`. -/
def bobHash (k0 k1 idx1 idx2 : U32) : U32 × U32 :=
  let a := 0xdeadbeef#32 + 8#32 + idx1
  let r := final (a + k0) (a + k1) (a + idx2)
  (r.2.2, r.2.1)

/-- `FastHasher64<uint64_t>::operator()`: the seed is the pair of initial indices, little endian. -/
def fastHasher64 : HashFn := fun s k =>
  let r := bobHash (k.setWidth 32) ((k >>> 32).setWidth 32) (s.setWidth 32) ((s >>> 32).setWidth 32)
  r.1.setWidth 64 ||| (r.2.setWidth 64 <<< 32)

/-! ## The slot of a hash value -/

/-- `uint8_t(hash >> 62)`: the top two bits select one of the four slots. -/
def slotOf (hash : U64) : Slot := ⟨(hash >>> 62).toNat, by
  have h : hash.toNat < 2 ^ 64 := hash.isLt
  rw [BitVec.toNat_ushiftRight, Nat.shiftRight_eq_div_pow]
  omega⟩

/-- The seeds are bytes: `h.setSeed(seed)` widens them. -/
def seedSlot (H : HashFn) (seed : U8) (key : U64) : Slot := slotOf (H (seed.setWidth 64) key)

end Outback
