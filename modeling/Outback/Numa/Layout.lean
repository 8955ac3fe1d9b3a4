import Outback.Numa.Resize

/-!
# `Numa.Layout` — region layout in `size_t`, and the block operations of `do_copy`

`Numa.Registry` and `Numa.Resize` compute offsets and sizes as natural numbers. This module has the computations as the
code makes them, on 64-bit words: `align_up` with its mask, the layout of `setup_ludo_table` and `do_copy`, the bucket
size that `do_copy` recovers from two offsets. `Geometry.Fits` says that none of the sums of a layout exceeds 64 bits,
and `layoutWords_geometry` that the words are then the numbers.

A `Block` is a range of bytes of a region. `CopyBlocks` are the ranges that the two `memcpy` and the two `memset` of
`do_copy` read and write.
-/

namespace Outback

/-! ## The computations on words -/

/-- `align_up` -/
def alignUpWord (value alignment : U64) : U64 := (value + alignment - 1) &&& ~~~(alignment - 1)

/-- The fields of an epoch that say where things lie. -/
structure GeometryWords where
  regionSize : U64
  numBuckets : U64
  numDataEntries : U64
  packedArrayOffset : U64
  ludoBucketsOffset : U64
  lockArrayOffset : U64

/-- The layout of a region; `sizeof(uint8_t)` is one. -/
def layoutWords (numDataEntries numBuckets bucketSizeEach : U64) : GeometryWords :=
  let packedSize := numDataEntries * BitVec.ofNat 64 sizeofPackedStruct
  let ludoSize := numBuckets * bucketSizeEach
  let lockSize := numBuckets
  let packedOff := alignUpWord 0 64
  let ludoOff := alignUpWord (packedOff + packedSize) 64
  let lockOff := alignUpWord (ludoOff + ludoSize) 64
  { regionSize := alignUpWord (lockOff + lockSize) 4096
    numBuckets := numBuckets
    numDataEntries := numDataEntries
    packedArrayOffset := packedOff
    ludoBucketsOffset := ludoOff
    lockArrayOffset := lockOff }

namespace GeometryWords

/-- `bucket_size_each` -/
def bucketSizeEach (old : GeometryWords) : U64 :=
  if old.numBuckets > 0 then (old.lockArrayOffset - old.ludoBucketsOffset) / old.numBuckets
  else BitVec.ofNat 64 sizeofLudoBucket

/-- The epoch that `do_copy` lays out from the old one. -/
def doubled (old : GeometryWords) : GeometryWords :=
  layoutWords (old.numDataEntries * 2) (old.numBuckets * 2) old.bucketSizeEach

/-- The numbers that the words stand for. -/
def geometry (g : GeometryWords) : Geometry where
  regionSize := g.regionSize.toNat
  numBuckets := g.numBuckets.toNat
  numDataEntries := g.numDataEntries.toNat
  packedArrayOffset := g.packedArrayOffset.toNat
  ludoBucketsOffset := g.ludoBucketsOffset.toNat
  lockArrayOffset := g.lockArrayOffset.toNat

/-- The epoch after a number of resizes. -/
def afterResizes (numDataEntries numBuckets : U64) : Nat → GeometryWords
  | 0 => layoutWords numDataEntries numBuckets (BitVec.ofNat 64 sizeofLudoBucket)
  | k + 1 => (afterResizes numDataEntries numBuckets k).doubled

end GeometryWords

/-- The last sum of a layout fits 64 bits; every other one is smaller. -/
def Geometry.Fits (g : Geometry) : Prop := g.lockArrayOffset + g.numBuckets + 4095 < 2 ^ 64

instance (g : Geometry) : Decidable g.Fits := inferInstanceAs (Decidable (_ < _))

/-! ## Blocks of a region -/

/-- `len` bytes of a region from `start` on. -/
structure Block where
  start : Nat
  len : Nat

namespace Block

def Has (b : Block) (x : Nat) : Prop := b.start ≤ x ∧ x < b.start + b.len

def Inside (b : Block) (size : Nat) : Prop := b.start + b.len ≤ size

def Apart (b b' : Block) : Prop := ∀ x, b.Has x → ¬ b'.Has x

/-- A block that ends before another begins. -/
theorem apart_of_le {b b' : Block} (h : b.start + b.len ≤ b'.start) : b.Apart b' := by
  rintro x ⟨-, hlt⟩ ⟨hle, -⟩
  omega

end Block

namespace Geometry

variable (g : Geometry)

def packedArray : Block := ⟨g.packedArrayOffset, g.numDataEntries * sizeofPackedStruct⟩

def bucketArray : Block := ⟨g.ludoBucketsOffset, g.numBuckets * sizeofLudoBucket⟩

def lockArray : Block := ⟨g.lockArrayOffset, g.numBuckets⟩

end Geometry

/-- The ranges that `do_copy` copies from the old region into the new one, and those it clears there. -/
structure CopyBlocks where
  packedFrom : Block
  packedTo : Block
  bucketsFrom : Block
  bucketsTo : Block
  bucketsClear : Block
  locksClear : Block

def copyBlocks (old new : Geometry) : CopyBlocks where
  packedFrom := ⟨old.packedArrayOffset, old.numDataEntries * sizeofPackedStruct⟩
  packedTo := ⟨new.packedArrayOffset, old.numDataEntries * sizeofPackedStruct⟩
  bucketsFrom := ⟨old.ludoBucketsOffset, old.numBuckets * old.bucketSizeEach⟩
  bucketsTo := ⟨new.ludoBucketsOffset, old.numBuckets * old.bucketSizeEach⟩
  bucketsClear := ⟨new.ludoBucketsOffset + old.numBuckets * old.bucketSizeEach, old.numBuckets * old.bucketSizeEach⟩
  locksClear := ⟨new.lockArrayOffset, new.numBuckets⟩

/-! ## Words and numbers -/

/-- Clearing the low bits of a word rounds it down. -/
theorem and_not_mask_toNat (x : U64) {k : Nat} (hk : k < 64) :
    (x &&& ~~~(BitVec.ofNat 64 (2 ^ k) - 1)).toNat = x.toNat / 2 ^ k * 2 ^ k := by
  have hmask : BitVec.ofNat 64 (2 ^ k) - 1 = BitVec.ofNat 64 (2 ^ k - 1) := by
    have hpos := Nat.two_pow_pos k
    have hlt : 2 ^ k < 2 ^ 64 := Nat.pow_lt_pow_right (by decide) hk
    apply BitVec.eq_of_toNat_eq
    generalize 2 ^ k = p at hpos hlt
    bv_omega
  have hshift : x &&& ~~~(BitVec.ofNat 64 (2 ^ k) - 1) = (x >>> k) <<< k := by
    rw [hmask]
    apply BitVec.eq_of_getLsbD_eq
    intro i hi
    rw [BitVec.getLsbD_and, BitVec.getLsbD_not, BitVec.getLsbD_shiftLeft, BitVec.getLsbD_ushiftRight,
      BitVec.getLsbD_ofNat, Nat.testBit_two_pow_sub_one]
    by_cases hik : i < k
    · simp [hi, hik]
    · simp [hi, hik, Nat.add_sub_cancel' (Nat.not_lt.mp hik)]
  have hle : x.toNat / 2 ^ k * 2 ^ k ≤ x.toNat := Nat.div_mul_le_self _ _
  have hx := x.isLt
  rw [hshift, BitVec.toNat_shiftLeft, BitVec.toNat_ushiftRight, Nat.shiftRight_eq_div_pow, Nat.shiftLeft_eq]
  exact Nat.mod_eq_of_lt (by omega)

/-- `align_up` is the rounding up as long as its sum fits. -/
theorem alignUpWord_toNat {value : U64} {k : Nat} (hk : k < 64) (h : value.toNat + (2 ^ k - 1) < 2 ^ 64) :
    (alignUpWord value (BitVec.ofNat 64 (2 ^ k))).toNat = alignUp value.toNat (2 ^ k) := by
  have hpos := Nat.two_pow_pos k
  have hlt : 2 ^ k < 2 ^ 64 := Nat.pow_lt_pow_right (by decide) hk
  have hsum : (value + BitVec.ofNat 64 (2 ^ k) - 1).toNat = value.toNat + 2 ^ k - 1 := by
    generalize 2 ^ k = p at hpos hlt h
    bv_omega
  rw [alignUpWord, and_not_mask_toNat _ hk, hsum]
  rfl

theorem alignUpWord_cacheLine {value : U64} {x : Nat} (hx : value.toNat = x) (h : x + 63 < 2 ^ 64) :
    (alignUpWord value 64).toNat = alignUp x 64 := by
  subst hx
  exact alignUpWord_toNat (k := 6) (by decide) h

theorem alignUpWord_page {value : U64} {x : Nat} (hx : value.toNat = x) (h : x + 4095 < 2 ^ 64) :
    (alignUpWord value 4096).toNat = alignUp x 4096 := by
  subst hx
  exact alignUpWord_toNat (k := 12) (by decide) h

/-- A product that fits. -/
theorem mul_toNat {a b : U64} (h : a.toNat * b.toNat < 2 ^ 64) : (a * b).toNat = a.toNat * b.toNat := by
  rw [BitVec.toNat_mul]
  exact Nat.mod_eq_of_lt h

/-- A sum that fits. -/
theorem add_toNat {a b : U64} (h : a.toNat + b.toNat < 2 ^ 64) : (a + b).toNat = a.toNat + b.toNat := by
  rw [BitVec.toNat_add]
  exact Nat.mod_eq_of_lt h

/-- The sums of a layout, each at most the last one. -/
theorem Geometry.layout_sums (n N e : Nat) :
    n * sizeofPackedStruct ≤ alignUp (n * sizeofPackedStruct) 64 ∧
    (Geometry.layout n N e).ludoBucketsOffset = alignUp (n * sizeofPackedStruct) 64 ∧
    (Geometry.layout n N e).ludoBucketsOffset + N * e ≤ (Geometry.layout n N e).lockArrayOffset ∧
    (Geometry.layout n N e).lockArrayOffset + N ≤ (Geometry.layout n N e).regionSize := by
  have hludo : (Geometry.layout n N e).ludoBucketsOffset = alignUp (n * sizeofPackedStruct) 64 := by
    show alignUp (alignUp 0 64 + n * sizeofPackedStruct) 64 = _
    rw [show alignUp 0 64 = 0 from rfl, Nat.zero_add]
  exact ⟨le_alignUp _ (by decide), hludo, le_alignUp _ (by decide), le_alignUp _ (by decide)⟩

/-- **Words are numbers.** A layout whose sums fit 64 bits is computed as it is meant. -/
theorem layoutWords_geometry {n N e : U64} (h : (Geometry.layout n.toNat N.toNat e.toNat).Fits) :
    (layoutWords n N e).geometry = .layout n.toNat N.toNat e.toNat := by
  obtain ⟨hpacked, hludo, hlock, hregion⟩ := Geometry.layout_sums n.toNat N.toNat e.toNat
  have hround := alignUp_lt (n.toNat * sizeofPackedStruct) (a := 64) (by decide)
  have hround' : (Geometry.layout n.toNat N.toNat e.toNat).lockArrayOffset
      < (Geometry.layout n.toNat N.toNat e.toNat).ludoBucketsOffset + N.toNat * e.toNat + 64 := alignUp_lt _ (by decide)
  unfold Geometry.Fits at h
  have hsize : (BitVec.ofNat 64 sizeofPackedStruct).toNat = sizeofPackedStruct := by decide
  have hfront : alignUpWord 0 64 = 0 := by decide
  have hzero : (0 : U64).toNat = 0 := rfl
  -- the three offsets and the size in turn, each from the one before
  have hpackedSize : (n * BitVec.ofNat 64 sizeofPackedStruct).toNat = n.toNat * sizeofPackedStruct := by
    rw [mul_toNat (by rw [hsize]; omega), hsize]
  have hpackedEnd : (0 + n * BitVec.ofNat 64 sizeofPackedStruct).toNat = n.toNat * sizeofPackedStruct := by
    rw [add_toNat (by rw [hzero]; omega), hzero, hpackedSize, Nat.zero_add]
  have hludoOff := alignUpWord_cacheLine hpackedEnd (by omega)
  rw [← hludo] at hludoOff
  generalize hl : alignUpWord (0 + n * BitVec.ofNat 64 sizeofPackedStruct) 64 = ludoOff at hludoOff
  have hludoSize : (N * e).toNat = N.toNat * e.toNat := mul_toNat (by omega)
  have hludoEnd : (ludoOff + N * e).toNat
      = (Geometry.layout n.toNat N.toNat e.toNat).ludoBucketsOffset + N.toNat * e.toNat := by
    rw [add_toNat (by omega), hludoOff, hludoSize]
  have hlockOff := alignUpWord_cacheLine hludoEnd (by omega)
  rw [show alignUp ((Geometry.layout n.toNat N.toNat e.toNat).ludoBucketsOffset + N.toNat * e.toNat) 64
    = (Geometry.layout n.toNat N.toNat e.toNat).lockArrayOffset from rfl] at hlockOff
  generalize hk : alignUpWord (ludoOff + N * e) 64 = lockOff at hlockOff
  have hN : (Geometry.layout n.toNat N.toNat e.toNat).numBuckets = N.toNat := rfl
  have hlockEnd : (lockOff + N).toNat = (Geometry.layout n.toNat N.toNat e.toNat).lockArrayOffset + N.toNat := by
    rw [add_toNat (by omega), hlockOff]
  have hregionSize := alignUpWord_page hlockEnd (by omega)
  unfold GeometryWords.geometry layoutWords
  simp only [hfront, hl, hk, hludoOff, hlockOff, hregionSize]
  rfl

end Outback
