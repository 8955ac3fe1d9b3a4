import Outback.Othello.Correctness.Trees

/-!
# `Othello.Correctness.Fill` — what the searches write into the cells

`fixHalfTreeDFS` adds one difference to the cells of all nodes on one side of an edge (`fixHalfTree_spec`), so that this
edge fits and every other one still does (`fixHalfTree_fits`). `fillTreeDFS` makes the edges of one tree fit and leaves the
cells outside the tree alone, so `fillValue` makes all edges fit, one tree after the other (`fillValue_spec`).
-/

namespace Outback

namespace ControlPlaneOthello

variable {H : HashFn} {L : Nat} {t : ControlPlaneOthello} {E : Set Nat} {m : OthelloMem} {im : Nat → U32} {k x y root : Nat}

/-- The same table with other cells. -/
@[reducible] def relabel (t : ControlPlaneOthello) (m : OthelloMem) (im : Nat → U32) : ControlPlaneOthello :=
  { t with mem := m, indMem := im }

theorem Sized.relabel (h : t.Sized) : (t.relabel m im).Sized := ⟨h.ma_pos, h.mb_pos, h.nodes_lt, h.keys_lt⟩

theorem Linked.relabel (h : t.Linked H E) : (t.relabel m im).Linked H E := ⟨h.listsA, h.listsB, h.forest, h.bound⟩

theorem Joined.relabel (h : t.Joined H E) : (t.relabel m im).Joined H E := ⟨h.wf, h.same⟩

/-! ## Cells -/

theorem cell_memSet (hL : L ≤ 60) (v : U64) :
    memGet L 0 (memSet L 0 m x v) y = if y = x then v &&& lowMask L else memGet L 0 m y := by
  by_cases hyx : y = x
  · subst hyx
    rw [if_pos rfl]
    exact memGet_memSet_self hL
  · rw [if_neg hyx]
    exact memGet_memSet_of_ne hL (Ne.symm hyx)

theorem masked_cell (hL : L ≤ 60) (m : OthelloMem) (x : Nat) : memGet L 0 m x &&& lowMask L = memGet L 0 m x :=
  memGet_and_lowMask hL

theorem masked_xor (a b mask : U64) : (a ^^^ b) &&& mask = (a &&& mask) ^^^ (b &&& mask) := by
  ext j
  simp only [BitVec.getElem_and, BitVec.getElem_xor]
  cases a[j] <;> cases b[j] <;> cases mask[j] <;> rfl

/-- A cell that a masked difference is added to. -/
theorem cell_fix (hL : L ≤ 60) {c : U64} (hc : c &&& lowMask L = c) :
    memGet L 0 (memSet L 0 m x (c ^^^ memGet L 0 m x)) y = if y = x then memGet L 0 m x ^^^ c else memGet L 0 m y := by
  rw [cell_memSet hL, masked_xor, hc, masked_cell hL, BitVec.xor_comm]

/-! ## One side of an edge -/

/-- The labels after the nodes `D` have been fixed. -/
structure Fixed (L : Nat) (t : ControlPlaneOthello) (c : U64) (ic : U32) (D : Set Nat) (s : Labels) : Prop where
  value : Lib.Flipped D c (t.cell L) (memGet L 0 s.1)
  index : Lib.Flipped D ic t.indMem s.2

theorem Fixed.visit (hL : L ≤ 60) {fillValue fillIndex : Bool} {c : U64} {ic : U32} (hc : c &&& lowMask L = c)
    (hvalue : fillValue = false → c = 0) (hindex : fillIndex = false → ic = 0) {D : Finset Nat} {s : Labels}
    (h : t.Fixed L c ic ↑D s) (hy : y ∉ D) :
    t.Fixed L c ic ↑(Insert.insert y D : Finset Nat) (fixSingle L fillValue fillIndex y c ic s) := by
  rw [Finset.coe_insert]
  have hyD : y ∉ (↑D : Set Nat) := hy
  constructor
  · unfold fixSingle
    cases fillValue with
    | true =>
        refine h.value.insert hyD ?_ fun z hz => ?_
        · exact (cell_fix hL hc).trans (if_pos rfl)
        · exact (cell_fix hL hc).trans (if_neg hz)
    | false =>
        rw [hvalue rfl]
        rw [hvalue rfl] at h
        exact h.value.insert hyD BitVec.xor_zero.symm fun _ _ => rfl
  · unfold fixSingle
    cases fillIndex with
    | true =>
        refine h.index.insert hyD ?_ fun z hz => ?_
        · exact (Function.update_self ..).trans (BitVec.xor_comm _ _)
        · exact Function.update_of_ne hz ..
    | false =>
        rw [hindex rfl]
        rw [hindex rfl] at h
        exact h.index.insert hyD BitVec.xor_zero.symm fun _ _ => rfl

/-- **`fixHalfTreeDFS`** adds one difference to the cells on the side of the first node: the one that makes the edge fit. -/
theorem Linked.fixHalfTree_spec (h : t.Linked H E) (hs : t.Sized) (hL : L ≤ 60) (hk : k ∈ E) (fillValue fillIndex : Bool) :
    ∃ m im c ic, t.fixHalfTreeDFS L fillValue fillIndex k (t.ends H k).1 (t.ends H k).2 = .ok (t.relabel m im, c) ∧
      t.Fixed L c ic {z | Lib.Conn (t.ends H) (E \ {k}) (t.ends H k).1 z} (m, im) ∧ c &&& lowMask L = c ∧
      c = (if fillValue then t.cell L (t.ends H k).1 ^^^ ((t.values k &&& lowMask L) ^^^ t.cell L (t.ends H k).2) else 0) ∧
      ic = (if fillIndex then t.indMem (t.ends H k).1 ^^^ (BitVec.ofNat 32 k ^^^ t.indMem (t.ends H k).2) else 0) := by
  have hj : Lib.Joins (t.ends H) k (t.ends H k).1 (t.ends H k).2 := .of_ends _ k
  have hlt := hs.fst_lt (H := H) k
  have hne : (t.ends H k).2 ≠ (t.ends H k).1 := by
    have := hs.le_snd (H := H) k
    omega
  unfold fixHalfTreeDFS
  rw [if_neg (not_not.mpr hlt)]
  generalize hfill : t.fillSingle L fillValue fillIndex k (t.ends H k).1 (t.ends H k).2 (t.mem, t.indMem) = s₀
  generalize hc : (if fillValue then memGet L 0 t.mem (t.ends H k).1 ^^^ memGet L 0 s₀.1 (t.ends H k).1 else 0 : U64) = c
  generalize hic : (if fillIndex then t.indMem (t.ends H k).1 ^^^ s₀.2 (t.ends H k).1 else 0 : U32) = ic
  -- what the first node's cells become, and the difference to what they were
  have hstart : memGet L 0 s₀.1 (t.ends H k).1 = t.cell L (t.ends H k).1 ^^^ c ∧ c &&& lowMask L = c ∧
      c = (if fillValue then t.cell L (t.ends H k).1 ^^^ ((t.values k &&& lowMask L) ^^^ t.cell L (t.ends H k).2) else 0) := by
    rw [← hc, ← hfill]
    unfold fillSingle
    cases fillValue with
    | true =>
        simp only [if_true, cell_memSet hL, masked_xor, masked_cell hL]
        refine ⟨(Lib.xor_cancel_left _ _).symm, ?_, rfl⟩
        rw [BitVec.and_assoc, BitVec.and_self]
    | false =>
        exact ⟨BitVec.xor_zero.symm, BitVec.zero_and, rfl⟩
  have hstart' : s₀.2 (t.ends H k).1 = t.indMem (t.ends H k).1 ^^^ ic ∧
      ic = (if fillIndex then t.indMem (t.ends H k).1 ^^^ (BitVec.ofNat 32 k ^^^ t.indMem (t.ends H k).2) else 0) := by
    rw [← hic, ← hfill]
    unfold fillSingle
    cases fillIndex with
    | true =>
        simp only [if_true, Function.update_self, and_true]
        exact (Lib.xor_cancel_left _ _).symm
    | false => exact ⟨BitVec.xor_zero.symm, rfl⟩
  obtain ⟨hcell, hmask, hceq⟩ := hstart
  obtain ⟨hind, hiceq⟩ := hstart'
  have hvalue : fillValue = false → c = 0 := by
    rintro rfl
    exact hceq
  have hindex : fillIndex = false → ic = 0 := by
    rintro rfl
    exact hiceq
  have hfirst : t.Fixed L c ic ↑({(t.ends H k).1} : Finset Nat) s₀ := by
    rw [Finset.coe_singleton]
    constructor
    · constructor
      · rintro _ rfl
        exact hcell
      · intro z hz
        rw [← hfill]
        unfold fillSingle
        cases fillValue with
        | true => exact (cell_memSet hL _).trans (if_neg hz)
        | false => rfl
    · constructor
      · rintro _ rfl
        exact hind
      · intro z hz
        rw [← hfill]
        unfold fillSingle
        cases fillIndex with
        | true => exact Function.update_of_ne hz ..
        | false => rfl
  have hvisits : Lib.Visits (t.ends H) (E \ {k}) (t.ends H k).1 (fun D s => t.Fixed L c ic ↑D s)
      (fun _ _ nextNode s => fixSingle L fillValue fillIndex nextNode c ic s) :=
    fun D s x e y _ _ _ hy _ _ _ hI => hI.visit hL hmask hvalue hindex hy
  obtain ⟨s, D, hok, hfixed, hD⟩ := h.search_half hs hk hj hvisits hfirst
  have hset : (↑D : Set Nat) = {z | Lib.Conn (t.ends H) (E \ {k}) (t.ends H k).1 z} := Set.ext fun z => hD z
  refine ⟨s.1, s.2, c, ic, ?_, hset ▸ hfixed, hmask, hceq, hiceq⟩
  dsimp only
  rw [hc, hic, hok]
  rfl

/-- The difference `c` is added to the cells of the nodes that `x` is connected to without the edge `k`. -/
structure Sided (H : HashFn) (L : Nat) (E : Set Nat) (k x : Nat) (c : U64) (t t' : ControlPlaneOthello) : Prop where
  masked : c &&& lowMask L = c
  flipped : Lib.Flipped {z | Lib.Conn (t.ends H) (E \ {k}) x z} c (t.cell L) (t'.cell L)

/-- **`fixHalfTreeDFS` fits its edge** and keeps the others. With `fillValue` it works on the values, with `fillIndex` on
    the indices. -/
theorem Linked.fixHalfTree_fits (h : t.Linked H E) (hs : t.Sized) (hL : L ≤ 60) (hk : k ∈ E) (fillValue fillIndex : Bool)
    {val : Nat → U64} {idx : Nat → U32} (hval : Lib.Fits (t.ends H) (E \ {k}) (t.cell L) val)
    (hidx : Lib.Fits (t.ends H) (E \ {k}) t.indMem idx)
    (hval' : ∀ i ∈ E \ {k}, t.values i &&& lowMask L = val i) (hidx' : ∀ i ∈ E \ {k}, BitVec.ofNat 32 i = idx i)
    (hkeepv : fillValue = false → t.cell L (t.ends H k).1 ^^^ t.cell L (t.ends H k).2 = t.values k &&& lowMask L)
    (hkeepi : fillIndex = false → t.indMem (t.ends H k).1 ^^^ t.indMem (t.ends H k).2 = BitVec.ofNat 32 k) :
    ∃ m im c, t.fixHalfTreeDFS L fillValue fillIndex k (t.ends H k).1 (t.ends H k).2 = .ok (t.relabel m im, c) ∧
      (t.relabel m im).Filled H L E ∧ Sided H L E k (t.ends H k).1 c t (t.relabel m im) ∧
      c = (if fillValue then t.cell L (t.ends H k).1 ^^^ ((t.values k &&& lowMask L) ^^^ t.cell L (t.ends H k).2) else 0) := by
  have hj : Lib.Joins (t.ends H) k (t.ends H k).1 (t.ends H k).2 := .of_ends _ k
  obtain ⟨m, im, c, ic, hok, hfixed, hmask, hc, hic⟩ := h.fixHalfTree_spec hs hL hk fillValue fillIndex
  refine ⟨m, im, c, hok, ⟨?_, ?_⟩, ⟨hmask, hfixed.value⟩, hc⟩
  · refine hval.refit h.forest hk hj hfixed.value ?_ hval'
    rw [hc]
    cases fillValue with
    | true =>
        rw [if_pos rfl, Lib.xor_cancel_left, BitVec.xor_assoc, BitVec.xor_self]
        exact BitVec.xor_zero
    | false => exact (congrArg (· ^^^ _) BitVec.xor_zero).trans (hkeepv rfl)
  · refine hidx.refit h.forest hk hj hfixed.index ?_ hidx'
    rw [hic]
    cases fillIndex with
    | true =>
        rw [if_pos rfl, Lib.xor_cancel_left, BitVec.xor_assoc, BitVec.xor_self]
        exact BitVec.xor_zero
    | false => exact (congrArg (· ^^^ _) BitVec.xor_zero).trans (hkeepi rfl)

/-! ## Trees from their roots -/

/-- The labels after the nodes `D` of a tree have been filled. -/
structure Grown (H : HashFn) (L : Nat) (t : ControlPlaneOthello) (E : Set Nat) (D : Set Nat) (s : Labels) : Prop where
  value : Lib.Fits (t.ends H) (Lib.within (t.ends H) E D) (memGet L 0 s.1) (fun i => t.values i &&& lowMask L)
  index : Lib.Fits (t.ends H) (Lib.within (t.ends H) E D) s.2 (fun i => BitVec.ofNat 32 i)
  outside : ∀ z ∉ D, memGet L 0 s.1 z = t.cell L z ∧ s.2 z = t.indMem z

theorem Grown.visit (h : t.Linked H E) (hL : L ≤ 60) {D : Finset Nat} {s : Labels} (hG : Grown H L t E ↑D s)
    (hy : y ∉ D) (hj : Lib.Joins (t.ends H) k x y)
    (honly : ∀ f ∈ E, ∀ z ∈ D, Lib.Joins (t.ends H) f z y → f = k) :
    Grown H L t E ↑(Insert.insert y D : Finset Nat) (t.fillSingle L true true k y x s) := by
  have hne : ∀ z ∈ D, z ≠ y := by
    rintro z hz rfl
    exact hy hz
  rw [Finset.coe_insert]
  constructor
  · refine hG.value.grow h.forest hj honly (fun z hz => ?_) ?_
    · exact (cell_memSet hL _).trans (if_neg (hne z hz))
    · refine (cell_memSet hL _).trans ?_
      rw [if_pos rfl, masked_xor, masked_cell hL]
  · refine hG.index.grow h.forest hj honly (fun z hz => ?_) ?_
    · exact Function.update_of_ne (hne z hz) ..
    · exact Function.update_self ..
  · intro z hz
    have hzy : z ≠ y := fun heq => hz (by rw [heq]; exact Set.mem_insert y _)
    have hzD : z ∉ (↑D : Set Nat) := fun hzD => hz (Set.mem_insert_of_mem y hzD)
    rw [← (hG.outside z hzD).1, ← (hG.outside z hzD).2]
    exact ⟨(cell_memSet hL _).trans (if_neg hzy), Function.update_of_ne hzy ..⟩

/-- **`fillTreeDFS`** makes the edges of a tree fit, and leaves the cells outside the tree alone. -/
theorem Linked.fillTree_spec (h : t.Linked H E) (hs : t.Sized) (hL : L ≤ 60) (hroot : root < t.ma + t.mb) :
    ∃ m im, t.fillTreeDFS L root = .ok (t.relabel m im) ∧
      (t.relabel m im).Filled H L {i ∈ E | Lib.Conn (t.ends H) E root (t.ends H i).1} ∧
      ∀ z, ¬ Lib.Conn (t.ends H) E root z → memGet L 0 m z = t.cell L z ∧ im z = t.indMem z := by
  have hvisits : Lib.Visits (t.ends H) E root (fun D s => Grown H L t E ↑D s)
      (fun nid keyId nextNode s => t.fillSingle L true true keyId nextNode nid s) :=
    fun D s x e y _ _ _ hy _ hj honly hI => hI.visit h hL hy hj honly
  have hfirst : Grown H L t E ↑({root} : Finset Nat) (t.mem, t.indMem) := by
    have hnone : ∀ i, i ∉ Lib.within (t.ends H) E ↑({root} : Finset Nat) := by
      rintro i ⟨hi, h1, h2⟩
      rw [Finset.coe_singleton, Set.mem_singleton_iff] at h1 h2
      refine h.forest i hi root root ?_ (.refl _)
      exact .inl (Prod.ext h1 h2)
    exact ⟨fun i hi => absurd hi (hnone i), fun i hi => absurd hi (hnone i), fun _ _ => ⟨rfl, rfl⟩⟩
  obtain ⟨s, D, hok, hgrown, hD⟩ := h.search_all hs hroot hvisits hfirst
  have hsub : {i ∈ E | Lib.Conn (t.ends H) E root (t.ends H i).1} ⊆ Lib.within (t.ends H) E ↑D := by
    rintro i ⟨hi, hconn⟩
    exact ⟨hi, (hD _).mpr hconn, (hD _).mpr (hconn.trans (.edge hi (.of_ends _ i)))⟩
  refine ⟨s.1, s.2, ?_, ⟨hgrown.value.mono hsub, hgrown.index.mono hsub⟩, fun z hz => ?_⟩
  · unfold fillTreeDFS
    rw [hok]
    rfl
  · exact hgrown.outside z fun hzD => hz ((hD z).mp hzD)

/-- **`fillValue` makes every edge fit** whose tree has a root. -/
theorem Linked.fillValue_spec (h : t.Linked H E) (hs : t.Sized) (hj : t.Joined H E) (hL : L ≤ 60)
    (hrooted : ∀ i ∈ E, t.connectivityForest.Rooted (t.ends H i).1) :
    ∃ m im, t.fillValue L = .ok (t.relabel m im) ∧ (t.relabel m im).Filled H L E := by
  -- after each turn the trees of the roots that have been passed are filled
  have hloop := Lib.foldlM_ok (I := fun pre t' => ∃ m im, t' = t.relabel m im ∧ (t.relabel m im).Filled H L
      {i ∈ E | ∃ r ∈ pre, t.connectivityForest.isRoot r = true ∧ Lib.Conn (t.ends H) E r (t.ends H i).1})
    (f := fun t i => if t.connectivityForest.isRoot i then t.fillTreeDFS L i else .ok t)
    (List.range (t.ma + t.mb)) (a := t) ?_ ?_
  · obtain ⟨_, hok, m, im, rfl, hfilled⟩ := hloop
    refine ⟨m, im, hok, ?_⟩
    have hall : E ⊆ {i ∈ E | ∃ r ∈ List.range (t.ma + t.mb), t.connectivityForest.isRoot r = true ∧
        Lib.Conn (t.ends H) E r (t.ends H i).1} := by
      intro i hi
      obtain ⟨r, hr, hself⟩ := hrooted i hi
      refine ⟨hi, r, List.mem_range.mpr (hj.wf.bound r r hself).1, beq_iff_eq.mpr hself, ?_⟩
      exact ((hj.same _ _).mp ⟨r, hr, .of_root hr.is_root⟩).symm
    exact ⟨hfilled.value.mono hall, hfilled.index.mono hall⟩
  · refine ⟨t.mem, t.indMem, rfl, ?_⟩
    have hnone : ∀ i, i ∉ {i ∈ E | ∃ r ∈ ([] : List Nat), t.connectivityForest.isRoot r = true ∧
        Lib.Conn (t.ends H) E r (t.ends H i).1} := by
      rintro i ⟨-, r, hr, -⟩
      exact List.not_mem_nil hr
    exact ⟨fun i hi => absurd hi (hnone i), fun i hi => absurd hi (hnone i)⟩
  · rintro pre r post _ hl ⟨m, im, rfl, hfilled⟩
    have hr : r < t.ma + t.mb := by
      rw [← List.mem_range, hl]
      exact List.mem_append_right pre List.mem_cons_self
    by_cases hroot : t.connectivityForest.isRoot r = true
    · obtain ⟨m', im', hok, hnew, hout⟩ := (h.relabel : (t.relabel m im).Linked H E).fillTree_spec hs.relabel hL hr
      refine ⟨t.relabel m' im', (if_pos hroot).trans hok, m', im', rfl, ?_⟩
      -- the edges of the tree of `r` fit by the new cells, the others by those they had
      have hkeep : ∀ i ∈ E, ¬ Lib.Conn (t.ends H) E r (t.ends H i).1 → ∀ z, Lib.Joins (t.ends H) i (t.ends H i).1 z →
          ¬ Lib.Conn (t.ends H) E r z := fun i hi hnot z hjz hconn => hnot (hconn.trans (.edge hi hjz.symm))
      constructor
      · rintro i ⟨hi, r', hr', hroot', hconn⟩
        by_cases hir : Lib.Conn (t.ends H) E r (t.ends H i).1
        · exact hnew.value i ⟨hi, hir⟩
        · refine Eq.trans ?_ (hfilled.value i ⟨hi, r', ?_, hroot', hconn⟩)
          · exact congrArg₂ _ (hout _ hir).1 (hout _ (hkeep i hi hir _ (.of_ends _ i))).1
          · refine (List.mem_append.mp hr').resolve_right fun hmem => hir ?_
            rwa [List.mem_singleton.mp hmem] at hconn
      · rintro i ⟨hi, r', hr', hroot', hconn⟩
        by_cases hir : Lib.Conn (t.ends H) E r (t.ends H i).1
        · exact hnew.index i ⟨hi, hir⟩
        · refine Eq.trans ?_ (hfilled.index i ⟨hi, r', ?_, hroot', hconn⟩)
          · exact congrArg₂ _ (hout _ hir).2 (hout _ (hkeep i hi hir _ (.of_ends _ i))).2
          · refine (List.mem_append.mp hr').resolve_right fun hmem => hir ?_
            rwa [List.mem_singleton.mp hmem] at hconn
    · refine ⟨t.relabel m im, if_neg hroot, m, im, rfl, ?_⟩
      have hsub : {i ∈ E | ∃ r' ∈ pre ++ [r], t.connectivityForest.isRoot r' = true ∧ Lib.Conn (t.ends H) E r' (t.ends H i).1} ⊆
          {i ∈ E | ∃ r' ∈ pre, t.connectivityForest.isRoot r' = true ∧ Lib.Conn (t.ends H) E r' (t.ends H i).1} := by
        rintro i ⟨hi, r', hr', hroot', hconn⟩
        refine ⟨hi, r', (List.mem_append.mp hr').resolve_right fun hmem => hroot ?_, hroot', hconn⟩
        rwa [← List.mem_singleton.mp hmem]
      exact ⟨hfilled.value.mono hsub, hfilled.index.mono hsub⟩

end ControlPlaneOthello

end Outback
