import Outback.Ludo.Locator
import Outback.Lib.Forest
import Outback.Lib.UnionFind

/-!
# `Othello.DisjointSet` — the connected components of the nodes (`disjointset.h`)

`DisjointSet` is a union-find with path compression and without ranks. `representative` recurses along the parent
pointers and points every node on its way at the root; the recursion is bounded by `fuel`, and `representative_spec` shows
that more turns than there are nodes are never needed.
-/

namespace Outback

/-- `mem` of a `DisjointSet`; `none` is `-1`. -/
abbrev DisjointSet := Nat → Option Nat

namespace DisjointSet

/-- `reset()`. -/
def reset : DisjointSet := fun _ => none

/-- `__set(i, parent)`. -/
def set (mem : DisjointSet) (i parent : Nat) : DisjointSet := Function.update mem i (some parent)

/-- `representative(i)`, and the pointers after it. -/
def representative : Nat → DisjointSet → Nat → LudoExec (Nat × DisjointSet)
  | 0, _, _ => .error .othello
  | fuel + 1, mem, i =>
      match mem i with
      | none => .ok (i, mem.set i i)
      | some p =>
          if p ≠ i then do
            let r ← representative fuel mem p
            .ok (r.1, set r.2 i r.1)
          else .ok (i, mem)

/-- `merge(a, b)`: the root of `b` is pointed at the root of `a`. -/
def merge (fuel : Nat) (mem : DisjointSet) (a b : Nat) : LudoExec DisjointSet := do
  let ra ← representative fuel mem a
  let rb ← representative fuel ra.2 b
  .ok (set rb.2 rb.1 ra.1)

/-- `sameSet(a, b)`. -/
def sameSet (fuel : Nat) (mem : DisjointSet) (a b : Nat) : LudoExec (Bool × DisjointSet) := do
  let ra ← representative fuel mem a
  let rb ← representative fuel ra.2 b
  .ok (ra.1 == rb.1, rb.2)

/-- `isRoot(a)`. -/
def isRoot (mem : DisjointSet) (a : Nat) : Bool := mem a == some a

/-! ## What the operations keep -/

/-- The nodes are below `n`, and each leads to a root. -/
structure Wf (n : Nat) (mem : DisjointSet) : Prop where
  total : Lib.Total mem
  bound : ∀ x p, mem x = some p → x < n ∧ p < n

/-- Every node leads where it led, and roots that point at themselves still do. -/
structure Kept (mem mem' : DisjointSet) : Prop where
  leads : ∀ x r, Lib.Leads mem x r → Lib.Leads mem' x r
  roots : ∀ x, mem x = some x → mem' x = some x

/-- A node that leads to a root which points at itself. -/
def Rooted (mem : DisjointSet) (x : Nat) : Prop := ∃ r, Lib.Leads mem x r ∧ mem r = some r

variable {mem mem' mem'' : DisjointSet} {n fuel a b i x y r : Nat}

theorem Kept.refl (mem : DisjointSet) : Kept mem mem := ⟨fun _ _ h => h, fun _ h => h⟩

theorem Kept.trans (h : Kept mem mem') (h' : Kept mem' mem'') : Kept mem mem'' :=
  ⟨fun x r hr => h'.leads x r (h.leads x r hr), fun x hx => h'.roots x (h.roots x hx)⟩

theorem Kept.same (h : Kept mem mem') (ht : Lib.Total mem) : Lib.Same mem' x y ↔ Lib.Same mem x y := by
  obtain ⟨r, hr⟩ := ht x
  obtain ⟨s, hs⟩ := ht y
  rw [Lib.same_iff hr hs, Lib.same_iff (h.leads x r hr) (h.leads y s hs)]

theorem Kept.rooted (h : Kept mem mem') (hx : Rooted mem x) : Rooted mem' x := by
  obtain ⟨r, hr, hroot⟩ := hx
  exact ⟨r, h.leads x r hr, h.roots r hroot⟩

theorem reset_wf (n : Nat) : Wf n reset where
  total := fun x => ⟨x, Lib.leads_none⟩
  bound := fun _ _ h => by cases h

/-- A root points at itself, or nowhere yet. -/
theorem root_eq (h : Lib.parent mem r = r) : mem r = none ∨ mem r = some r := by
  unfold Lib.parent at h
  cases hr : mem r with
  | none => exact .inl rfl
  | some p =>
      rw [hr] at h
      exact .inr (congrArg some h)

/-- Pointing a node at its root keeps everything. -/
theorem Wf.compress (h : Wf n mem) (hx : Lib.Leads mem x r) (hxn : x < n) (hrn : r < n) :
    Wf n (mem.set x r) ∧ Kept mem (mem.set x r) := by
  refine ⟨⟨fun y => ?_, fun y p hy => ?_⟩, ⟨fun y s hy => hx.compress hy, fun y hy => ?_⟩⟩
  · obtain ⟨s, hs⟩ := h.total y
    exact ⟨s, hx.compress hs⟩
  · unfold set at hy
    by_cases hyx : y = x
    · subst hyx
      rw [Function.update_self] at hy
      cases hy
      exact ⟨hxn, hrn⟩
    · rw [Function.update_of_ne hyx] at hy
      exact h.bound y p hy
  · unfold set
    by_cases hyx : y = x
    · subst hyx
      have hroot : Lib.parent mem y = y := by
        unfold Lib.parent
        rw [hy]
        rfl
      rw [Function.update_self, hx.unique (.of_root hroot)]
    · rw [Function.update_of_ne hyx, hy]

theorem Wf.representative_steps (h : Wf n mem) {k : Nat} (hlead : Lib.LeadsIn mem k i r) (hi : i < n) (hk : k < fuel) :
    ∃ mem', representative fuel mem i = .ok (r, mem') ∧ r < n ∧ mem' r = some r ∧ Wf n mem' ∧ Kept mem mem' := by
  induction hlead generalizing fuel with
  | @root r hr =>
      obtain ⟨fuel, rfl⟩ := Nat.exists_eq_add_of_lt hk
      rw [Nat.zero_add, representative]
      rcases root_eq hr with hnone | hself
      · have hcompress := h.compress (Lib.Leads.of_root hr) hi hi
        refine ⟨mem.set r r, by rw [hnone], hi, Function.update_self .., hcompress⟩
      · refine ⟨mem, ?_, hi, hself, h, .refl mem⟩
        rw [hself]
        exact if_neg (fun hne => hne rfl)
  | @step k i r hne hlead ih =>
      cases fuel with
      | zero => exact absurd hk (Nat.not_lt_zero _)
      | succ fuel =>
          cases hp : mem i with
          | none =>
              refine absurd ?_ hne
              unfold Lib.parent
              rw [hp]
              rfl
          | some p =>
              have hparent : Lib.parent mem i = p := by
                unfold Lib.parent
                rw [hp]
                rfl
              rw [hparent] at hne ih hlead
              obtain ⟨mem', hok, hrn, hroot, hwf, hkept⟩ := ih (h.bound i p hp).2 (Nat.lt_of_succ_lt_succ hk)
              have hir : Lib.Leads mem i r := by
                refine Lib.leads_parent.mp ?_
                rw [hparent]
                exact ⟨k, hlead⟩
              obtain ⟨hwf', hkept'⟩ := hwf.compress (hkept.leads i r hir) hi hrn
              refine ⟨mem'.set i r, ?_, hrn, hkept'.roots r hroot, hwf', hkept.trans hkept'⟩
              rw [representative, hp]
              simp only [if_pos hne, hok]
              rfl

/-- **`representative` returns the root of its node**, and every node leads where it led. -/
theorem Wf.representative_spec (h : Wf n mem) (hi : i < n) (hfuel : n < fuel) :
    ∃ r mem', representative fuel mem i = .ok (r, mem') ∧ Lib.Leads mem i r ∧ r < n ∧ mem' r = some r ∧ Wf n mem' ∧
      Kept mem mem' := by
  obtain ⟨r, k, hlead⟩ := h.total i
  have hk : k ≤ (Finset.range n).card := hlead.card_le fun x hx => by
    obtain ⟨p, hp⟩ := Option.ne_none_iff_exists'.mp hx
    exact Finset.mem_range.mpr (h.bound x p hp).1
  rw [Finset.card_range] at hk
  obtain ⟨mem', hok, hrest⟩ := h.representative_steps hlead hi (hk.trans_lt hfuel)
  exact ⟨r, mem', hok, ⟨k, hlead⟩, hrest⟩

/-- `sameSet` decides whether two nodes lead to one root. -/
theorem Wf.sameSet_spec (h : Wf n mem) (ha : a < n) (hb : b < n) (hfuel : n < fuel) :
    ∃ res mem', sameSet fuel mem a b = .ok (res, mem') ∧ (res = true ↔ Lib.Same mem a b) ∧ Wf n mem' ∧ Kept mem mem' := by
  obtain ⟨ra, mem₁, hra, hlead, -, -, hwf₁, hkept₁⟩ := h.representative_spec ha hfuel
  obtain ⟨rb, mem₂, hrb, hlead', -, -, hwf₂, hkept₂⟩ := hwf₁.representative_spec hb hfuel
  refine ⟨ra == rb, mem₂, ?_, ?_, hwf₂, hkept₁.trans hkept₂⟩
  · unfold sameSet
    rw [hra]
    simp only [bind, Except.bind, hrb]
  · rw [beq_iff_eq, ← hkept₁.same h.total, Lib.same_iff (hkept₁.leads a ra hlead) hlead']

/-- **`merge` joins two components**, and nothing else. -/
theorem Wf.merge_spec (h : Wf n mem) (ha : a < n) (hb : b < n) (hfuel : n < fuel) :
    ∃ mem', merge fuel mem a b = .ok mem' ∧ Wf n mem' ∧ Rooted mem' a ∧ (∀ x, Rooted mem x → Rooted mem' x) ∧
      ∀ x y, Lib.Same mem' x y ↔
        Lib.Same mem x y ∨ (Lib.Same mem x a ∧ Lib.Same mem b y) ∨ (Lib.Same mem x b ∧ Lib.Same mem a y) := by
  obtain ⟨ra, mem₁, hra, hlead, hran, hroot, hwf₁, hkept₁⟩ := h.representative_spec ha hfuel
  obtain ⟨rb, mem₂, hrb, hlead', hrbn, hroot', hwf₂, hkept₂⟩ := hwf₁.representative_spec hb hfuel
  have hkept := hkept₁.trans hkept₂
  have ha₂ : Lib.Leads mem₂ a ra := hkept.leads a ra hlead
  have hb₂ : Lib.Leads mem₂ b rb := hkept₂.leads b rb hlead'
  have hroot₂ : mem₂ ra = some ra := hkept₂.roots ra hroot
  -- a root that stays one still points at itself, and the new root of the others does
  have hrooted : ∀ x, Rooted mem₂ x → Rooted (mem₂.set rb ra) x := by
    rintro x ⟨t, ht, hself⟩
    refine ⟨_, ht.link ha₂.is_root hb₂.is_root, ?_⟩
    unfold set
    split
    · by_cases hab : ra = rb
      · rw [hab, Function.update_self]
      · rw [Function.update_of_ne hab, hroot₂]
    · rename_i htb
      rw [Function.update_of_ne htb, hself]
  refine ⟨mem₂.set rb ra, ?_, ⟨hwf₂.total.link ha₂.is_root hb₂.is_root, ?_⟩, ?_, ?_, ?_⟩
  · unfold merge
    rw [hra]
    simp only [bind, Except.bind, hrb]
  · intro x p hx
    unfold set at hx
    by_cases hxb : x = rb
    · subst hxb
      rw [Function.update_self] at hx
      cases hx
      exact ⟨hrbn, hran⟩
    · rw [Function.update_of_ne hxb] at hx
      exact hwf₂.bound x p hx
  · exact hrooted a ⟨ra, ha₂, hroot₂⟩
  · intro x hx
    exact hrooted x (hkept.rooted hx)
  · intro x y
    rw [← hkept.same h.total, ← hkept.same h.total, ← hkept.same h.total, ← hkept.same h.total, ← hkept.same h.total]
    exact Lib.same_link hwf₂.total ha₂ hb₂

/-! ## Runs of merges -/

theorem reset_same : Lib.Same reset x y ↔ Lib.Conn id (∅ : Set (Nat × Nat)) x y :=
  (Lib.same_iff Lib.leads_none Lib.leads_none).trans Lib.conn_empty.symm

/-- **A run of merges** from the components of the edges `E`. -/
theorem Wf.foldlM_merge (hfuel : n < fuel) (edges : List (Nat × Nat)) : ∀ {mem : DisjointSet} {E : Set (Nat × Nat)}, Wf n mem →
    (∀ x y, Lib.Same mem x y ↔ Lib.Conn id E x y) → (∀ e ∈ edges, e.1 < n ∧ e.2 < n) →
    ∃ mem', edges.foldlM (fun mem e => merge fuel mem e.1 e.2) mem = .ok mem' ∧ Wf n mem' ∧
      ∀ x y, Lib.Same mem' x y ↔ Lib.Conn id (E ∪ {e | e ∈ edges}) x y := by
  induction edges with
  | nil =>
      intro mem E h hsame _
      refine ⟨mem, rfl, h, fun x y => ?_⟩
      rw [hsame]
      simp
  | cons e edges ih =>
      intro mem E h hsame hlt
      obtain ⟨ha, hb⟩ := hlt e List.mem_cons_self
      obtain ⟨mem₁, hok, hwf, -, -, hsame₁⟩ := h.merge_spec ha hb hfuel
      -- one merge is one more edge
      have hsame₁ : ∀ x y, Lib.Same mem₁ x y ↔ Lib.Conn id (Insert.insert e E) x y := by
        intro x y
        rw [hsame₁, hsame, hsame, hsame, hsame, hsame]
        exact (Lib.conn_insert (.of_ends id e)).symm
      obtain ⟨mem', hok', hwf', hsame'⟩ := ih hwf hsame₁ fun d hd => hlt d (List.mem_cons_of_mem e hd)
      refine ⟨mem', ?_, hwf', fun x y => ?_⟩
      · rw [List.foldlM_cons, hok]
        exact hok'
      · have hE : E ∪ {d | d ∈ e :: edges} = Insert.insert e E ∪ {d | d ∈ edges} := by
          ext d
          simp only [Set.mem_union, Set.mem_ofPred_eq, List.mem_cons, Set.mem_insert_iff]
          tauto
        rw [hE]
        exact hsame' x y

/-- **`sameSet` after merges**: from `reset`, every list of merges returns, and two nodes are then in one set exactly when
    the merged pairs connect them. -/
theorem sameSet_merged {edges : List (Nat × Nat)} (hedges : ∀ e ∈ edges, e.1 < n ∧ e.2 < n) (ha : a < n) (hb : b < n)
    (hfuel : n < fuel) : ∃ mem res mem', edges.foldlM (fun mem e => merge fuel mem e.1 e.2) reset = .ok mem ∧
      sameSet fuel mem a b = .ok (res, mem') ∧ (res = true ↔ Lib.Conn id {e | e ∈ edges} a b) := by
  obtain ⟨mem, hok, hwf, hsame⟩ := (reset_wf n).foldlM_merge hfuel edges (fun _ _ => reset_same) hedges
  obtain ⟨res, mem', hres, hiff, -, -⟩ := hwf.sameSet_spec ha hb hfuel
  refine ⟨mem, res, mem', hok, hres, ?_⟩
  rw [hiff, hsame, Set.empty_union]

theorem sameSet_merged_three : ∃ mem res mem', [(0, 3), (1, 3)].foldlM (fun mem e => merge 5 mem e.1 e.2) reset = .ok mem ∧
    sameSet 5 mem 0 1 = .ok (res, mem') ∧ (res = true ↔ Lib.Conn id {e | e ∈ [(0, 3), (1, 3)]} 0 1) :=
  sameSet_merged (n := 4) (by decide) (by decide) (by decide) (by decide)

end DisjointSet

end Outback
