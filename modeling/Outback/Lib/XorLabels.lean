import Outback.Lib.Forest
import Mathlib.Data.BitVec

/-!
# `Lib.XorLabels` — values of edges as the difference of labels of nodes

Every node of a multigraph carries a label, a bit vector, and every edge a value. The labels fit when the value of each
edge is the exclusive or of the labels of its ends. In a forest labels can always be made to fit: along a walk through a
tree, one fresh node after the other (`Fits.grow`), and for a new or changed edge by adding one and the same difference to
every label on one side of it (`Fits.refit`).
-/

namespace Outback.Lib

variable {N K : Type*} {w : Nat} {ends : K → N × N} {E F : Set K} {lab lab' : N → BitVec w} {val val' : K → BitVec w}
  {D : Set N} {c : BitVec w} {e : K} {x y : N}

/-- The value of every edge of `E` is the exclusive or of the labels of its ends. -/
def Fits (ends : K → N × N) (E : Set K) (lab : N → BitVec w) (val : K → BitVec w) : Prop :=
  ∀ e ∈ E, lab (ends e).1 ^^^ lab (ends e).2 = val e

theorem xor_label_comm (lab : N → BitVec w) (hj : Joins ends e x y) : lab (ends e).1 ^^^ lab (ends e).2 = lab x ^^^ lab y := by
  rcases hj with hj | hj
  · rw [hj]
  · rw [hj, BitVec.xor_comm]

theorem Fits.mono (h : Fits ends F lab val) (hsub : E ⊆ F) : Fits ends E lab val := fun e he => h e (hsub he)

theorem Fits.insert (h : Fits ends E lab val) (hj : Joins ends e x y) (he : lab x ^^^ lab y = val e) :
    Fits ends (insert e E) lab val := by
  intro f hf
  rcases Set.mem_insert_iff.mp hf with rfl | hf
  · exact (xor_label_comm lab hj).trans he
  · exact h f hf

/-- Only the labels and the values of the edges of `E` matter. -/
theorem Fits.congr (h : Fits ends E lab val) (hlab : ∀ e ∈ E, lab' (ends e).1 = lab (ends e).1 ∧ lab' (ends e).2 = lab (ends e).2)
    (hval : ∀ e ∈ E, val' e = val e) : Fits ends E lab' val' := by
  intro e he
  rw [(hlab e he).1, (hlab e he).2, hval e he]
  exact h e he

theorem xor_cancel_left (a b : BitVec w) : a ^^^ (a ^^^ b) = b := by
  rw [← BitVec.xor_assoc, BitVec.xor_self, BitVec.zero_xor]

theorem xor_cancel_both (a b c : BitVec w) : (a ^^^ c) ^^^ (b ^^^ c) = a ^^^ b := by
  rw [BitVec.xor_assoc, BitVec.xor_comm b c, xor_cancel_left]

/-! ## Adding a difference on one side -/

/-- The difference `c` is added to the labels of `D`, and to no other. -/
structure Flipped (D : Set N) (c : BitVec w) (lab lab' : N → BitVec w) : Prop where
  mem : ∀ x ∈ D, lab' x = lab x ^^^ c
  notMem : ∀ x ∉ D, lab' x = lab x

/-- One more node. -/
theorem Flipped.insert {lab'' : N → BitVec w} (h : Flipped D c lab lab') (hy : y ∉ D) (hself : lab'' y = lab' y ^^^ c)
    (hother : ∀ z, z ≠ y → lab'' z = lab' z) : Flipped (Insert.insert y D) c lab lab'' where
  mem := by
    intro z hz
    by_cases hzy : z = y
    · subst hzy
      rw [hself, h.notMem z hy]
    · rw [hother z hzy, h.mem z ((Set.mem_insert_iff.mp hz).resolve_left hzy)]
  notMem := by
    intro z hz
    have hzy : z ≠ y := fun heq => hz (heq ▸ Set.mem_insert y D)
    rw [hother z hzy, h.notMem z fun hzD => hz (Set.mem_insert_of_mem y hzD)]

/-- **Adding a difference to a set of nodes that no edge leaves** changes no value. -/
theorem Fits.flip (h : Fits ends F lab val) (hD : ∀ e ∈ F, ∀ x y, Joins ends e x y → x ∈ D → y ∈ D)
    (hflip : Flipped D c lab lab') : Fits ends F lab' val := by
  intro e he
  have hj := Joins.of_ends ends e
  by_cases h1 : (ends e).1 ∈ D
  · have h2 := hD e he _ _ hj h1
    rw [hflip.mem _ h1, hflip.mem _ h2, xor_cancel_both]
    exact h e he
  · have h2 : (ends e).2 ∉ D := fun h2 => h1 (hD e he _ _ hj.symm h2)
    rw [hflip.notMem _ h1, hflip.notMem _ h2]
    exact h e he

/-- **A new value of one edge of a forest**: the difference is added on one side of the edge. -/
theorem Fits.refit (h : Fits ends (E \ {e}) lab val) (hE : Forest ends E) (he : e ∈ E) (hj : Joins ends e x y)
    (hflip : Flipped {z | Conn ends (E \ {e}) x z} c lab lab') (hnew : lab x ^^^ c ^^^ lab y = val' e)
    (hold : ∀ f ∈ E \ {e}, val' f = val f) : Fits ends E lab' val' := by
  have hothers : Fits ends (E \ {e}) lab' val' := by
    refine (h.flip ?_ hflip).congr (fun _ _ => ⟨rfl, rfl⟩) hold
    intro f hf u v hjf hu
    exact Conn.trans hu (.edge hf hjf)
  have hself : lab' x ^^^ lab' y = val' e := by
    rw [hflip.mem x (.refl x), hflip.notMem y (hE.not_conn he hj), hnew]
  have hall := hothers.insert hj hself
  rwa [Set.insert_sdiff_singleton, Set.insert_eq_of_mem he] at hall

/-! ## Filling a tree -/

/-- **The label of a fresh node** is set by the one edge that leads to it. -/
theorem Fits.grow (h : Fits ends (within ends F D) lab val) (hF : Forest ends F) (hj : Joins ends e x y)
    (honly : ∀ f ∈ F, ∀ z ∈ D, Joins ends f z y → f = e)
    (hkeep : ∀ z ∈ D, lab' z = lab z) (hset : lab' y = val e ^^^ lab x) :
    Fits ends (within ends F (Insert.insert y D)) lab' val := by
  rintro f ⟨hf, h1, h2⟩
  have hjf := Joins.of_ends ends f
  have hfresh : ∀ z ∈ D, Joins ends f z y → lab' (ends f).1 ^^^ lab' (ends f).2 = val f := by
    intro z hz hjz
    obtain rfl := honly f hf z hz hjz
    obtain rfl := hj.symm.right_unique hjz.symm
    rw [xor_label_comm lab' hj, hset, hkeep z hz, BitVec.xor_comm (val f), xor_cancel_left]
  rcases Set.mem_insert_iff.mp h1 with h1 | h1
  · rcases Set.mem_insert_iff.mp h2 with h2 | h2
    · rw [h1, h2] at hjf
      exact absurd (.refl y) (hF f hf y y hjf)
    · exact hfresh _ h2 (h1 ▸ hjf.symm)
  · rcases Set.mem_insert_iff.mp h2 with h2 | h2
    · exact hfresh _ h1 (h2 ▸ hjf)
    · rw [hkeep _ h1, hkeep _ h2]
      exact h f ⟨hf, h1, h2⟩

end Outback.Lib
