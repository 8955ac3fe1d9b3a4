import Outback.Hash
import Mathlib.Logic.Function.Basic
import Mathlib.Data.BitVec

/-!
# `Othello.Common` — the cells of an Othello (`OthelloCommon`)

The arrays A and B of an Othello are one array of cells of `VDL = L + DL` bits, value and digest, stored one after the
other in 64-bit words; `VDL` is at most 60, so a cell lies in one word or crosses into the next. The getters and setters of
`OthelloCommon` read and write the `VDL` bits of a cell, or the `L` bits of its value: `fieldGet` and `fieldSet` at the
position and the width of the field.

What they do is said about the memory as one sequence of bits (`bitAt`): a read takes the bits of its field, a write sets
these bits and no other. So cells are read as they were written, whether or not they cross words.

`getIndices` maps a key to one cell of each array, by the two halves of its hash.
-/

namespace Outback

/-- `mem`: the words. -/
@[ext] structure OthelloMem where
  word : Nat → U64

/-- `mem[start] = w`. -/
def OthelloMem.setWord (mem : OthelloMem) (start : Nat) (w : U64) : OthelloMem := ⟨Function.update mem.word start w⟩

/-- `~(uint64_t(-1) << n)`: the lower `n` bits are 1. -/
def lowMask (n : Nat) : U64 := ~~~(BitVec.allOnes 64 <<< n)

/-- The `width` bits at position `i`. `left` is how many of them are in the next word. -/
def fieldGet (mem : OthelloMem) (i width : Nat) : U64 :=
  let start := i / 64
  let offset := i % 64
  let left := offset + width - 64
  let result := (mem.word start >>> offset) &&& lowMask (width - left)
  if 0 < left then result ||| ((mem.word (start + 1) &&& lowMask left) <<< (width - left)) else result

/-- Set the `width` bits at position `i` to those of `value`. -/
def fieldSet (mem : OthelloMem) (i width : Nat) (value : U64) : OthelloMem :=
  let v := value &&& lowMask width
  let start := i / 64
  let offset := i % 64
  let left := offset + width - 64
  let mem := mem.setWord start ((mem.word start &&& ~~~(lowMask width <<< offset)) ||| (v <<< offset))
  if 0 < left then
    mem.setWord (start + 1) ((mem.word (start + 1) &&& (BitVec.allOnes 64 <<< left)) ||| (v >>> (width - left)))
  else mem

/-- `memGet(index)`. -/
def memGet (L DL : Nat) (mem : OthelloMem) (index : Nat) : U64 :=
  if L + DL = 0 then 0 else fieldGet mem (index * (L + DL)) (L + DL)

/-- `memSet(index, value)`. -/
def memSet (L DL : Nat) (mem : OthelloMem) (index : Nat) (value : U64) : OthelloMem :=
  if L + DL = 0 then mem else fieldSet mem (index * (L + DL)) (L + DL) value

/-- `memValueGet(index)`. -/
def memValueGet (L DL : Nat) (mem : OthelloMem) (index : Nat) : U64 :=
  if L = 0 then 0 else fieldGet mem (index * (L + DL) + DL) L

/-- `memValueSet(index, value)`. -/
def memValueSet (L DL : Nat) (mem : OthelloMem) (index : Nat) (value : U64) : OthelloMem :=
  if L = 0 then mem else fieldSet mem (index * (L + DL) + DL) L value

/-- `OthelloCommon`: the cells, the sizes of the two arrays, and the seed of the hash function `hab`. -/
structure OthelloCommon where
  mem : OthelloMem
  ma : Nat
  mb : Nat
  hab : U64

/-- `multiply_high_u32(x, y)`. -/
def multiplyHigh (x : U32) (y : Nat) : Nat := x.toNat * y / 2 ^ 32

/-- `getIndices(k, aInd, bInd)`. -/
def OthelloCommon.getIndices (H : HashFn) (t : OthelloCommon) (k : U64) : Nat × Nat :=
  (multiplyHigh ((H t.hab k).setWidth 32) t.ma, multiplyHigh ((H t.hab k >>> 32).setWidth 32) t.mb + t.ma)

/-- `memGet(ha) ^ memGet(hb)`, without a digest the value of the key. -/
def OthelloCommon.valueOf (H : HashFn) (L : Nat) (t : OthelloCommon) (k : U64) : U64 :=
  memGet L 0 t.mem (t.getIndices H k).1 ^^^ memGet L 0 t.mem (t.getIndices H k).2

theorem multiplyHigh_lt (x : U32) {y : Nat} (hy : 0 < y) : multiplyHigh x y < y := by
  unfold multiplyHigh
  have hx : x.toNat < 2 ^ 32 := x.isLt
  rw [Nat.div_lt_iff_lt_mul (by decide), Nat.mul_comm]
  exact Nat.mul_lt_mul_of_pos_left hx hy

/-- The first index is a node of array A. -/
theorem OthelloCommon.getIndices_fst_lt (H : HashFn) (t : OthelloCommon) (k : U64) (hma : 0 < t.ma) :
    (t.getIndices H k).1 < t.ma := multiplyHigh_lt _ hma

/-- The second one is a node of array B. -/
theorem OthelloCommon.getIndices_snd (H : HashFn) (t : OthelloCommon) (k : U64) (hmb : 0 < t.mb) :
    t.ma ≤ (t.getIndices H k).2 ∧ (t.getIndices H k).2 < t.ma + t.mb := by
  have h := multiplyHigh_lt ((H t.hab k >>> 32).setWidth 32) hmb
  unfold getIndices
  dsimp only
  omega

/-! ## The memory as a sequence of bits -/

/-- The bit at position `p`. -/
def bitAt (mem : OthelloMem) (p : Nat) : Bool := (mem.word (p / 64)).getLsbD (p % 64)

theorem lowMask_zero : lowMask 0 = 0 := by decide

theorem getLsbD_lowMask (n j : Nat) : (lowMask n).getLsbD j = (decide (j < 64) && decide (j < n)) := by
  unfold lowMask
  rw [BitVec.getLsbD_not, BitVec.getLsbD_shiftLeft, BitVec.getLsbD_allOnes]
  by_cases hj : j < 64
  · by_cases hn : j < n
    · simp [hj, hn]
    · have : j - n < 64 := by omega
      simp [hj, hn, this]
  · simp [hj]

variable {mem : OthelloMem} {i p j width : Nat} {value : U64}

/-- **A read takes the bits of its field.** -/
theorem getLsbD_fieldGet (hw : width ≤ 64) :
    (fieldGet mem i width).getLsbD j = (decide (j < width) && bitAt mem (i + j)) := by
  have hoff : i % 64 < 64 := Nat.mod_lt i (by decide)
  have hi : i = 64 * (i / 64) + i % 64 := (Nat.div_add_mod i 64).symm
  unfold fieldGet bitAt
  generalize i / 64 = start at hi
  generalize i % 64 = offset at hi hoff
  subst hi
  by_cases hj : offset + j < 64
  · have hdiv : (64 * start + offset + j) / 64 = start := by omega
    have hmod : (64 * start + offset + j) % 64 = offset + j := by omega
    rw [hdiv, hmod]
    by_cases hleft : 0 < offset + width - 64
    · have hlow : j < width - (offset + width - 64) := by omega
      have hjw : j < width := by omega
      simp [hleft, getLsbD_lowMask, hlow, hjw, show j < 64 by omega]
    · have hsub : width - (offset + width - 64) = width := by omega
      simp only [hleft, if_false, hsub, BitVec.getLsbD_and, BitVec.getLsbD_ushiftRight, getLsbD_lowMask,
        show j < 64 by omega, decide_true, Bool.true_and]
      exact Bool.and_comm ..
  · by_cases hjw : j < width
    · have hdiv : (64 * start + offset + j) / 64 = start + 1 := by omega
      have hmod : (64 * start + offset + j) % 64 = offset + j - 64 := by omega
      have hleft : 0 < offset + width - 64 := by omega
      have hsub : j - (width - (offset + width - 64)) = offset + j - 64 := by omega
      have hhigh : ¬ j < width - (offset + width - 64) := by omega
      have hword : (mem.word start).getLsbD (offset + j) = false := BitVec.getLsbD_of_ge _ _ (by omega)
      rw [hdiv, hmod, if_pos hleft, BitVec.getLsbD_or, BitVec.getLsbD_and, BitVec.getLsbD_ushiftRight, hword,
        BitVec.getLsbD_shiftLeft, BitVec.getLsbD_and, hsub, getLsbD_lowMask (offset + width - 64)]
      simp only [hhigh, hjw, show j < 64 by omega, show offset + j - 64 < 64 by omega,
        show offset + j - 64 < offset + width - 64 by omega, decide_true, decide_false, Bool.and_true, Bool.true_and,
        Bool.false_or, Bool.not_false, Bool.false_and]
    · by_cases hleft : 0 < offset + width - 64
      · have hhigh : ¬ j < width - (offset + width - 64) := by omega
        have hout : ¬ j - (width - (offset + width - 64)) < offset + width - 64 := by omega
        simp [hleft, getLsbD_lowMask, hhigh, hout, hjw]
      · have hsub : width - (offset + width - 64) = width := by omega
        simp [hleft, getLsbD_lowMask, hsub, hjw]

@[simp] theorem OthelloMem.word_setWord_self (mem : OthelloMem) (q : Nat) (w : U64) : (mem.setWord q w).word q = w :=
  Function.update_self ..

theorem OthelloMem.word_setWord_of_ne (mem : OthelloMem) {q q' : Nat} (w : U64) (h : q' ≠ q) :
    (mem.setWord q w).word q' = mem.word q' := Function.update_of_ne h ..

/-- The first word of the field after a write. -/
theorem fieldSet_first : (fieldSet mem i width value).word (i / 64) =
    (mem.word (i / 64) &&& ~~~(lowMask width <<< (i % 64))) ||| ((value &&& lowMask width) <<< (i % 64)) := by
  unfold fieldSet
  dsimp only
  split
  · rw [OthelloMem.word_setWord_of_ne _ _ (by omega), OthelloMem.word_setWord_self]
  · rw [OthelloMem.word_setWord_self]

/-- The second word, if the field crosses into it. -/
theorem fieldSet_second (hleft : 0 < i % 64 + width - 64) : (fieldSet mem i width value).word (i / 64 + 1) =
    (mem.word (i / 64 + 1) &&& (BitVec.allOnes 64 <<< (i % 64 + width - 64))) |||
      ((value &&& lowMask width) >>> (width - (i % 64 + width - 64))) := by
  unfold fieldSet
  rw [if_pos hleft, OthelloMem.word_setWord_self, OthelloMem.word_setWord_of_ne _ _ (by omega)]

/-- The other words. -/
theorem fieldSet_other {q : Nat} (hfirst : q ≠ i / 64) (hsecond : 0 < i % 64 + width - 64 → q ≠ i / 64 + 1) :
    (fieldSet mem i width value).word q = mem.word q := by
  unfold fieldSet
  dsimp only
  split
  · rename_i hleft
    rw [OthelloMem.word_setWord_of_ne _ _ (hsecond hleft), OthelloMem.word_setWord_of_ne _ _ hfirst]
  · rw [OthelloMem.word_setWord_of_ne _ _ hfirst]

/-- **A write sets the bits of its field**, and no other bit. -/
theorem bitAt_fieldSet (hw : width ≤ 64) :
    bitAt (fieldSet mem i width value) p = if i ≤ p ∧ p < i + width then value.getLsbD (p - i) else bitAt mem p := by
  have hoff : i % 64 < 64 := Nat.mod_lt i (by decide)
  have hi : i = 64 * (i / 64) + i % 64 := (Nat.div_add_mod i 64).symm
  have hbit : p % 64 < 64 := Nat.mod_lt p (by decide)
  have hp : p = 64 * (p / 64) + p % 64 := (Nat.div_add_mod p 64).symm
  unfold bitAt
  by_cases hfirst : p / 64 = i / 64
  · -- the first word: the bits from the offset of the field on
    have hin : (i ≤ p ∧ p < i + width) ↔ (i % 64 ≤ p % 64 ∧ p % 64 < i % 64 + width) := by omega
    have hsub : p - i = p % 64 - i % 64 := by omega
    rw [hfirst, fieldSet_first, BitVec.getLsbD_or, BitVec.getLsbD_and, BitVec.getLsbD_not, BitVec.getLsbD_shiftLeft,
      BitVec.getLsbD_shiftLeft, BitVec.getLsbD_and, getLsbD_lowMask]
    simp only [hin, hsub]
    by_cases h1 : i % 64 ≤ p % 64
    · by_cases h2 : p % 64 < i % 64 + width
      · simp [h1, h2, hbit, show ¬ p % 64 < i % 64 by omega, show p % 64 - i % 64 < 64 by omega,
          show p % 64 - i % 64 < width by omega]
      · simp [h1, h2, hbit, show ¬ p % 64 < i % 64 by omega, show ¬ p % 64 - i % 64 < width by omega]
    · simp [h1, hbit, show p % 64 < i % 64 by omega]
  · by_cases hsecond : 0 < i % 64 + width - 64 ∧ p / 64 = i / 64 + 1
    · -- the second word: its lowest bits
      obtain ⟨hleft, hsecond⟩ := hsecond
      have hin : (i ≤ p ∧ p < i + width) ↔ p % 64 < i % 64 + width - 64 := by omega
      have hsub : p - i = width - (i % 64 + width - 64) + p % 64 := by omega
      rw [hsecond, fieldSet_second hleft, BitVec.getLsbD_or, BitVec.getLsbD_and, BitVec.getLsbD_ushiftRight,
        BitVec.getLsbD_shiftLeft, BitVec.getLsbD_and, getLsbD_lowMask, BitVec.getLsbD_allOnes]
      simp only [hin, hsub]
      by_cases h : p % 64 < i % 64 + width - 64
      · simp [h, hbit, show width - (i % 64 + width - 64) + p % 64 < 64 by omega,
          show width - (i % 64 + width - 64) + p % 64 < width by omega]
      · simp [h, hbit, show p % 64 - (i % 64 + width - 64) < 64 by omega,
          show ¬ width - (i % 64 + width - 64) + p % 64 < width by omega]
    · have hout : ¬(i ≤ p ∧ p < i + width) := by omega
      rw [if_neg hout, fieldSet_other hfirst fun hleft heq => hsecond ⟨hleft, heq⟩]

/-! ## Fields -/

theorem and_lowMask_getLsbD (hw : width ≤ 64) : (value &&& lowMask width).getLsbD j = (decide (j < width) && value.getLsbD j) := by
  rw [BitVec.getLsbD_and, getLsbD_lowMask]
  by_cases hj : j < width
  · simp [hj, show j < 64 by omega]
  · simp [hj]

/-- A field is read as it was written. -/
theorem fieldGet_fieldSet_self (hw : width ≤ 64) : fieldGet (fieldSet mem i width value) i width = value &&& lowMask width := by
  refine BitVec.eq_of_getLsbD_eq fun j _ => ?_
  rw [getLsbD_fieldGet hw, bitAt_fieldSet hw, and_lowMask_getLsbD hw]
  by_cases hj : j < width
  · rw [if_pos (by omega), Nat.add_sub_cancel_left]
  · simp [hj]

/-- A write leaves the other fields as they were. -/
theorem fieldGet_fieldSet_of_disjoint {i' width' : Nat} (hw : width ≤ 64) (hw' : width' ≤ 64)
    (hdisj : i + width ≤ i' ∨ i' + width' ≤ i) : fieldGet (fieldSet mem i width value) i' width' = fieldGet mem i' width' := by
  refine BitVec.eq_of_getLsbD_eq fun j _ => ?_
  rw [getLsbD_fieldGet hw', getLsbD_fieldGet hw', bitAt_fieldSet hw]
  by_cases hj : j < width'
  · rw [if_neg (by omega)]
  · simp [hj]

theorem fieldGet_and_lowMask (hw : width ≤ 64) : fieldGet mem i width &&& lowMask width = fieldGet mem i width := by
  refine BitVec.eq_of_getLsbD_eq fun j _ => ?_
  rw [and_lowMask_getLsbD hw, getLsbD_fieldGet hw]
  by_cases hj : j < width
  · simp [hj]
  · simp [hj]

/-! ## Cells -/

section Cells

variable {L DL index index' : Nat}

/-- The cells are disjoint. -/
theorem cell_disjoint (w : Nat) (h : index ≠ index') : index * w + w ≤ index' * w ∨ index' * w + w ≤ index * w := by
  rcases Nat.lt_or_gt_of_ne h with h | h
  · left
    calc index * w + w = (index + 1) * w := (Nat.succ_mul index w).symm
      _ ≤ index' * w := Nat.mul_le_mul_right w h
  · right
    calc index' * w + w = (index' + 1) * w := (Nat.succ_mul index' w).symm
      _ ≤ index * w := Nat.mul_le_mul_right w h

theorem memGet_memSet_self (hL : L + DL ≤ 60) :
    memGet L DL (memSet L DL mem index value) index = value &&& lowMask (L + DL) := by
  unfold memGet memSet
  by_cases h0 : L + DL = 0
  · rw [if_pos h0, h0]
    rw [lowMask_zero]
    exact BitVec.and_zero.symm
  · rw [if_neg h0, if_neg h0]
    exact fieldGet_fieldSet_self (by omega)

theorem memGet_memSet_of_ne (hL : L + DL ≤ 60) (h : index ≠ index') :
    memGet L DL (memSet L DL mem index value) index' = memGet L DL mem index' := by
  unfold memGet memSet
  by_cases h0 : L + DL = 0
  · rw [if_pos h0, if_pos h0]
  · rw [if_neg h0, if_neg h0, if_neg h0]
    exact fieldGet_fieldSet_of_disjoint (by omega) (by omega) (cell_disjoint _ h)

/-- A cell has `VDL` bits. -/
theorem memGet_and_lowMask (hL : L + DL ≤ 60) : memGet L DL mem index &&& lowMask (L + DL) = memGet L DL mem index := by
  unfold memGet
  by_cases h0 : L + DL = 0
  · rw [if_pos h0]
    exact BitVec.zero_and
  · rw [if_neg h0]
    exact fieldGet_and_lowMask (by omega)

/-- **Cells of values and digests.** Setting the value of a cell sets its value, and leaves its digest and every other
    cell as they were, for all widths, and whether or not the cell crosses from one word into the next. -/
theorem memValueSet_spec (hL : L + DL ≤ 60) (mem : OthelloMem) (index : Nat) (value : U64) :
    memValueGet L DL (memValueSet L DL mem index value) index = value &&& lowMask L ∧
      memGet L DL (memValueSet L DL mem index value) index &&& lowMask DL = memGet L DL mem index &&& lowMask DL ∧
      ∀ index' ≠ index, memGet L DL (memValueSet L DL mem index value) index' = memGet L DL mem index' := by
  unfold memValueGet memValueSet memGet
  by_cases h0 : L = 0
  · subst h0
    refine ⟨?_, rfl, fun _ _ => rfl⟩
    rw [if_pos rfl]
    rw [lowMask_zero]
    exact BitVec.and_zero.symm
  · have hwidth : L + DL ≠ 0 := by omega
    simp only [if_neg h0, if_neg hwidth]
    refine ⟨fieldGet_fieldSet_self (by omega), ?_, ?_⟩
    · refine BitVec.eq_of_getLsbD_eq fun j _ => ?_
      rw [and_lowMask_getLsbD (by omega), and_lowMask_getLsbD (by omega)]
      by_cases hj : j < DL
      · have hw : L + DL ≤ 64 := by omega
        rw [getLsbD_fieldGet hw, getLsbD_fieldGet hw, bitAt_fieldSet (by omega), if_neg (by omega)]
      · simp [hj]
    · intro index' hne
      refine fieldGet_fieldSet_of_disjoint (by omega) (by omega) ?_
      rcases cell_disjoint (L + DL) hne with h | h
      · right
        omega
      · left
        omega

/-- A value of 20 bits beside a digest of 13 bits, in a cell that lies in two words. -/
theorem memValueSet_spec_crossing :
    memValueGet 20 13 (memValueSet 20 13 ⟨fun _ => 0⟩ 1 5) 1 = (5 : U64) &&& lowMask 20 :=
  (memValueSet_spec (by decide) ⟨fun _ => 0⟩ 1 5).1

end Cells

end Outback
