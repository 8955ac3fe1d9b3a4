import Outback.Othello.Correctness.Remove
import Outback.Othello.DataPlane

/-!
# `Othello.Correctness.Mirror` — a data plane that follows its control plane

A data plane mirrors a control plane when it has the same cells, and so answers every key of the map. A copy does
(`mirrors_of_copy`), and it still does after it has followed an update (`Mirrors.follow`): the control plane names the nodes
whose cells have changed and the difference, which is sent in 32 bits, so the values must not be longer.
-/

namespace Outback

open ControlPlaneOthello (Followed Built)

namespace DataPlaneOthello

variable {H : HashFn} {L : Nat} {dp : DataPlaneOthello} {t t' : ControlPlaneOthello} {c k v : U64} {l : List Nat}

/-- No cell is being changed. -/
def Unlocked (dp : DataPlaneOthello) : Prop := ∀ i, (dp.lock i).toNat % 2 = 0

/-- The data plane has the nodes of the control plane and the values of their cells. -/
structure Mirrors (L : Nat) (dp : DataPlaneOthello) (t : ControlPlaneOthello) : Prop where
  ma : dp.ma = t.ma
  mb : dp.mb = t.mb
  hab : dp.hab = t.hab
  cells : ∀ x, memGet L 0 dp.mem x = t.cell L x
  unlocked : dp.Unlocked

theorem mirrors_of_copy (L : Nat) (t : ControlPlaneOthello) : (ofControlPlane t).Mirrors L t :=
  ⟨rfl, rfl, rfl, fun _ => rfl, fun _ => rfl⟩

theorem Mirrors.fullSync (h : dp.Mirrors L t) (t' : ControlPlaneOthello) : (dp.fullSync t').Mirrors L t' :=
  ⟨rfl, rfl, rfl, fun _ => rfl, h.unlocked⟩

/-- **A mirror answers every key of the map.** -/
theorem Mirrors.lookUp_eq (h : dp.Mirrors L t) (hb : t.Built H L) (hk : t.toMap L k = some v) :
    dp.lookUp H L k = .ok v := by
  have hindices : dp.getIndices H k = t.getIndices H k := by
    unfold OthelloCommon.getIndices
    rw [h.ma, h.mb, h.hab]
  unfold lookUp
  rw [if_neg]
  · rw [← hb.lookUp_eq hk]
    unfold ControlPlaneOthello.lookUp OthelloCommon.valueOf
    rw [hindices, h.cells, h.cells]
    rfl
  · rw [h.unlocked, h.unlocked]
    omega

/-! ## Following an update -/

theorem Unlocked.memValueSet (h : dp.Unlocked) (x : Nat) (w : U64) : (dp.memValueSet L x w).Unlocked := by
  intro i
  unfold DataPlaneOthello.memValueSet lockStep
  dsimp only
  by_cases hi : i = x &&& 8191
  · subst hi
    have heven := h (x &&& 8191)
    simp only [Function.update_self, BitVec.toNat_add]
    omega
  · rw [Function.update_of_ne hi, Function.update_of_ne hi]
    exact h i

/-- Adding a difference to the cells of a list of nodes. -/
theorem fix_cells (hL : L ≤ 60) (hc : c &&& lowMask L = c) (h32 : (c.setWidth 32).setWidth 64 = c) :
    ∀ (l : List Nat) (dp : DataPlaneOthello), l.Nodup →
      (dp.fixHalfTreeByConnectedComponent L l (c.setWidth 32)).toOthelloCommon =
        { dp.toOthelloCommon with mem := (dp.fixHalfTreeByConnectedComponent L l (c.setWidth 32)).mem } ∧
      Lib.Flipped {x | x ∈ l} c (memGet L 0 dp.mem) (memGet L 0 (dp.fixHalfTreeByConnectedComponent L l (c.setWidth 32)).mem) ∧
      (dp.Unlocked → (dp.fixHalfTreeByConnectedComponent L l (c.setWidth 32)).Unlocked) := by
  intro l
  induction l with
  | nil => exact fun dp _ => ⟨rfl, ⟨fun x hx => absurd hx List.not_mem_nil, fun _ _ => rfl⟩, id⟩
  | cons x l ih =>
      intro dp hnodup
      obtain ⟨hx, hnodup⟩ := List.nodup_cons.mp hnodup
      have hfirst : ∀ y, memGet L 0 (dp.fixSingle L x ((c.setWidth 32).setWidth 64)).mem y =
          if y = x then memGet L 0 dp.mem x ^^^ c else memGet L 0 dp.mem y := by
        intro y
        rw [h32]
        exact ControlPlaneOthello.cell_fix hL hc
      obtain ⟨hsame, hflip, hlock⟩ := ih (dp.fixSingle L x ((c.setWidth 32).setWidth 64)) hnodup
      refine ⟨hsame, ⟨fun y hy => ?_, fun y hy => ?_⟩, fun h => hlock (h.memValueSet x _)⟩
      · rcases List.mem_cons.mp hy with rfl | hy
        · refine (hflip.notMem y hx).trans ?_
          rw [hfirst, if_pos rfl]
        · refine (hflip.mem y hy).trans ?_
          rw [hfirst, if_neg fun heq : y = x => hx (heq ▸ hy)]
      · obtain ⟨hne, hyl⟩ := not_or.mp (fun h => hy (List.mem_cons.mpr h))
        refine (hflip.notMem y hyl).trans ?_
        rw [hfirst, if_neg hne]

/-- A difference of at most 32 bits is sent whole. -/
theorem setWidth_32 (hL : L ≤ 32) (hc : c &&& lowMask L = c) : (c.setWidth 32).setWidth 64 = c := by
  apply BitVec.eq_of_getLsbD_eq
  intro j hj
  rw [BitVec.getLsbD_setWidth, BitVec.getLsbD_setWidth, decide_eq_true hj, Bool.true_and]
  by_cases h32 : j < 32
  · rw [decide_eq_true h32, Bool.true_and]
  · rw [decide_eq_false h32, Bool.false_and, ← hc, and_lowMask_getLsbD (hL.trans (by decide)), decide_eq_false (by omega),
      Bool.false_and]

/-- **A mirror that has followed an update** is a mirror of the updated control plane. -/
theorem Mirrors.follow (h : dp.Mirrors L t) (hL : L ≤ 32) {r : OthelloUpdateResult}
    (hf : r.status ≤ 0 → Followed L r.xorTemplate r.cc t t') : (dp.follow L r t').Mirrors L t' := by
  unfold DataPlaneOthello.follow
  by_cases hstatus : 0 < r.status
  · rw [if_pos hstatus]
    exact h.fullSync t'
  · rw [if_neg hstatus]
    have hf := hf (not_lt.mp hstatus)
    obtain ⟨hsame, hflip, hlock⟩ := fix_cells (hL.trans (by decide)) hf.masked (setWidth_32 hL hf.masked) r.cc dp hf.nodup
    refine ⟨?_, ?_, ?_, fun x => ?_, hlock h.unlocked⟩
    · exact (congrArg OthelloCommon.ma hsame).trans (h.ma.trans hf.ma.symm)
    · exact (congrArg OthelloCommon.mb hsame).trans (h.mb.trans hf.mb.symm)
    · exact (congrArg OthelloCommon.hab hsame).trans (h.hab.trans hf.hab.symm)
    · by_cases hx : x ∈ r.cc
      · rw [hflip.mem x hx, hf.cells.mem x hx, h.cells]
      · rw [hflip.notMem x hx, hf.cells.notMem x hx, h.cells]

end DataPlaneOthello

end Outback
