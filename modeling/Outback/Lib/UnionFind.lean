import Outback.Lib.Forest
import Mathlib.Logic.Function.Basic
import Mathlib.Data.Finset.Card

/-!
# `Lib.UnionFind` — forests of parent pointers

A union-find is a function `mem` from elements to their parents; an element without one, or that is its own parent, is a
root. `Leads mem x r` says that the pointers lead from `x` to the root `r`, and `Same` that two elements lead to one root.
The pointers may run in cycles, so `Total`, that every element leads somewhere, is a property of its own.

* `Leads.compress` — an element may be pointed at its root;
* `same_link` — what pointing one root at another joins;
* `Leads.mend`, `Leads.frame` — a set of elements that no pointer enters from outside may be pointed anew;
* `Cut.same` — so a component that has lost an edge falls into two, once the elements of each half are pointed at one;
* `LeadsIn.card_le` — a bound for the number of pointers on the way to a root.
-/

namespace Outback.Lib

variable {N : Type*} {mem : N → Option N} {n m : Nat} {x y z a b r s : N}

/-- The parent of an element; a root is its own. -/
def parent (mem : N → Option N) (x : N) : N := (mem x).getD x

/-- `n` pointers lead from `x` to the root `r`. -/
inductive LeadsIn (mem : N → Option N) : Nat → N → N → Prop
  | root {r : N} : parent mem r = r → LeadsIn mem 0 r r
  | step {n : Nat} {x r : N} : parent mem x ≠ x → LeadsIn mem n (parent mem x) r → LeadsIn mem (n + 1) x r

/-- The pointers lead from `x` to the root `r`. -/
def Leads (mem : N → Option N) (x r : N) : Prop := ∃ n, LeadsIn mem n x r

/-- Every element leads to a root. -/
def Total (mem : N → Option N) : Prop := ∀ x, ∃ r, Leads mem x r

/-- `x` and `y` lead to one root. -/
def Same (mem : N → Option N) (x y : N) : Prop := ∃ r, Leads mem x r ∧ Leads mem y r

theorem LeadsIn.unique (h : LeadsIn mem n x r) (h' : LeadsIn mem m x s) : n = m ∧ r = s := by
  induction h generalizing m with
  | root hr =>
      cases h' with
      | root => exact ⟨rfl, rfl⟩
      | step hne => exact absurd hr hne
  | step hne _ ih =>
      cases h' with
      | root hr => exact absurd hr hne
      | step _ h' =>
          obtain ⟨rfl, rfl⟩ := ih h'
          exact ⟨rfl, rfl⟩

theorem Leads.unique (h : Leads mem x r) (h' : Leads mem x s) : r = s := by
  obtain ⟨n, h⟩ := h
  obtain ⟨m, h'⟩ := h'
  exact (h.unique h').2

theorem Leads.of_root (h : parent mem r = r) : Leads mem r r := ⟨0, .root h⟩

theorem Leads.of_step (hne : parent mem x ≠ x) (h : Leads mem (parent mem x) r) : Leads mem x r := by
  obtain ⟨n, h⟩ := h
  exact ⟨n + 1, .step hne h⟩

/-- What a pointer leads to. -/
theorem Leads.is_root (h : Leads mem x r) : parent mem r = r := by
  obtain ⟨n, h⟩ := h
  induction h with
  | root hr => exact hr
  | step _ _ ih => exact ih

/-- An element leads where its parent leads. -/
theorem leads_parent : Leads mem (parent mem x) r ↔ Leads mem x r := by
  constructor
  · intro h
    by_cases hx : parent mem x = x
    · rwa [hx] at h
    · exact .of_step hx h
  · rintro ⟨n, h⟩
    cases h with
    | root hr =>
        rw [hr]
        exact .of_root hr
    | step _ h => exact ⟨_, h⟩

theorem Total.same_parent (h : Total mem) (x : N) : Same mem x (parent mem x) := by
  obtain ⟨r, hr⟩ := h x
  exact ⟨r, hr, leads_parent.mpr hr⟩

theorem same_iff (hx : Leads mem x r) (hy : Leads mem y s) : Same mem x y ↔ r = s := by
  constructor
  · rintro ⟨t, hx', hy'⟩
    exact (hx.unique hx').trans (hy.unique hy').symm
  · rintro rfl
    exact ⟨r, hx, hy⟩

/-- Without pointers every element is a root. -/
theorem leads_none : Leads (fun _ => none) x x := .of_root rfl

/-! ## How long the way is -/

/-- **The elements on the way are distinct**, and each but the root has a parent. -/
theorem LeadsIn.card_le [DecidableEq N] {V : Finset N} (hV : ∀ x, mem x ≠ none → x ∈ V) (h : LeadsIn mem n x r) :
    n ≤ V.card := by
  have hway : ∃ S : Finset N, S.card = n ∧ ∀ y ∈ S, mem y ≠ none ∧ ∃ m ≤ n, LeadsIn mem m y r := by
    induction h with
    | root => exact ⟨∅, rfl, fun y hy => absurd hy (Finset.notMem_empty y)⟩
    | @step n x r hne h ih =>
        obtain ⟨S, hS, hway⟩ := ih
        have hx : x ∉ S := by
          intro hx
          obtain ⟨-, m, hm, h'⟩ := hway x hx
          have := ((LeadsIn.step hne h).unique h').1
          omega
        refine ⟨insert x S, by rw [Finset.card_insert_of_notMem hx, hS], ?_⟩
        intro y hy
        rcases Finset.mem_insert.mp hy with rfl | hy
        · refine ⟨?_, n + 1, le_rfl, .step hne h⟩
          intro hnone
          exact hne (by unfold parent; rw [hnone]; rfl)
        · obtain ⟨hsome, m, hm, h'⟩ := hway y hy
          exact ⟨hsome, m, by omega, h'⟩
  obtain ⟨S, hS, hway⟩ := hway
  rw [← hS]
  exact Finset.card_le_card fun y hy => hV y (hway y hy).1

/-! ## Changing the pointers -/

section Update

variable [DecidableEq N]

theorem parent_update_self (mem : N → Option N) (x r : N) : parent (Function.update mem x (some r)) x = r := by
  unfold parent
  rw [Function.update_self]
  rfl

theorem parent_update_of_ne (h : y ≠ x) (mem : N → Option N) (r : N) :
    parent (Function.update mem x (some r)) y = parent mem y := by
  unfold parent
  rw [Function.update_of_ne h]

/-- **An element may be pointed at its root.** -/
theorem Leads.compress (h : Leads mem x r) (hy : Leads mem y s) : Leads (Function.update mem x (some r)) y s := by
  have hroot : ∀ t, parent mem t = t → Leads (Function.update mem x (some r)) t t := by
    intro t ht
    refine .of_root ?_
    by_cases htx : t = x
    · subst htx
      rw [parent_update_self]
      exact h.unique (.of_root ht)
    · rw [parent_update_of_ne htx, ht]
  have hrr := hroot r h.is_root
  obtain ⟨n, hy⟩ := hy
  induction hy with
  | root hs => exact hroot _ hs
  | @step n y s hne hy ih =>
      by_cases hyx : y = x
      · subst hyx
        obtain rfl := h.unique ⟨n + 1, .step hne hy⟩
        refine leads_parent.mp ?_
        rwa [parent_update_self]
      · refine leads_parent.mp ?_
        rwa [parent_update_of_ne hyx]

/-- The root `s` is pointed at the root `r`. -/
theorem Leads.link (hr : parent mem r = r) (hs : parent mem s = s) {t : N} (h : Leads mem x t) :
    Leads (Function.update mem s (some r)) x (if t = s then r else t) := by
  have hstays : ∀ t, parent mem t = t → t ≠ s → Leads (Function.update mem s (some r)) t t := by
    intro t ht hts
    refine .of_root ?_
    rw [parent_update_of_ne hts, ht]
  have hrr : Leads (Function.update mem s (some r)) r r := by
    by_cases hrs : r = s
    · subst hrs
      exact .of_root (parent_update_self mem r r)
    · exact hstays r hr hrs
  obtain ⟨n, h⟩ := h
  induction h with
  | @root t ht =>
      by_cases hts : t = s
      · subst hts
        rw [if_pos rfl]
        refine leads_parent.mp ?_
        rwa [parent_update_self]
      · rw [if_neg hts]
        exact hstays t ht hts
  | @step n x t hne _ ih =>
      refine leads_parent.mp ?_
      rwa [parent_update_of_ne]
      rintro rfl
      exact hne hs

theorem Total.link (h : Total mem) (hr : parent mem r = r) (hs : parent mem s = s) :
    Total (Function.update mem s (some r)) := by
  intro x
  obtain ⟨t, ht⟩ := h x
  exact ⟨_, ht.link hr hs⟩

/-- **What pointing the root of `b` at the root of `a` joins.** -/
theorem same_link (h : Total mem) (ha : Leads mem a r) (hb : Leads mem b s) :
    Same (Function.update mem s (some r)) x y ↔
      Same mem x y ∨ (Same mem x a ∧ Same mem b y) ∨ (Same mem x b ∧ Same mem a y) := by
  obtain ⟨t, ht⟩ := h x
  obtain ⟨u, hu⟩ := h y
  rw [same_iff (ht.link ha.is_root hb.is_root) (hu.link ha.is_root hb.is_root), same_iff ht hu, same_iff ht ha,
    same_iff hb hu, same_iff ht hb, same_iff ha hu]
  -- `t`, `u`, `r` and `s` are the roots of `x`, `y`, `a` and `b`
  by_cases hts : t = s
  · rw [if_pos hts]
    by_cases hus : u = s
    · rw [if_pos hus]
      exact ⟨fun _ => .inl (hts.trans hus.symm), fun _ => rfl⟩
    · rw [if_neg hus]
      grind
  · rw [if_neg hts]
    by_cases hus : u = s
    · rw [if_pos hus]
      grind
    · rw [if_neg hus]
      grind

end Update

/-! ## Pointing a closed set anew -/

variable {mem' : N → Option N} {D : Set N}

/-- The elements outside a set that no pointer enters lead where they led. -/
theorem Leads.frame (hclosed : ∀ x ∉ D, parent mem x ∉ D) (hsame : ∀ x ∉ D, mem' x = mem x) (hx : x ∉ D)
    (h : Leads mem x r) : Leads mem' x r := by
  have hparent : ∀ x ∉ D, parent mem' x = parent mem x := by
    intro x hx
    unfold parent
    rw [hsame x hx]
  obtain ⟨n, h⟩ := h
  induction h with
  | @root r hr => exact .of_root (by rw [hparent r hx, hr])
  | @step n x r _ _ ih =>
      refine leads_parent.mp ?_
      rw [hparent x hx]
      exact ih (hclosed x hx)

/-- The elements of the set lead where they have been pointed. -/
theorem Leads.mend {g : N → N} (hpoint : ∀ x ∈ D, mem' x = some (g x)) (hmem : ∀ x ∈ D, g x ∈ D)
    (hidem : ∀ x ∈ D, g (g x) = g x) (hx : x ∈ D) : Leads mem' x (g x) := by
  have hparent : ∀ x ∈ D, parent mem' x = g x := by
    intro x hx
    unfold parent
    rw [hpoint x hx]
    rfl
  refine leads_parent.mp ?_
  rw [hparent x hx]
  exact .of_root ((hparent (g x) (hmem x hx)).trans (hidem x hx))

/-! ## Cutting an edge -/

section Cut

variable {K : Type*} {ends : K → N × N} {E : Set K} {e : K} {ra rb : N}

/-- The elements of the two halves are pointed at one element of each. -/
structure Cut (ends : K → N × N) (E : Set K) (a b ra rb : N) (mem mem' : N → Option N) : Prop where
  left_root : Conn ends E a ra
  right_root : Conn ends E b rb
  left : ∀ z, Conn ends E a z → mem' z = some ra
  right : ∀ z, Conn ends E b z → mem' z = some rb
  others : ∀ z, ¬ Conn ends E a z → ¬ Conn ends E b z → mem' z = mem z

/-- **Where an element leads after the cut**: to the element of its half, or where it led. -/
theorem Cut.leads (h : Cut ends E a b ra rb mem mem') (hj : Joins ends e a b) (hab : ¬ Conn ends E a b) (ht : Total mem)
    (hsame : ∀ x y, Same mem x y ↔ Conn ends (insert e E) x y) (x : N) :
    ∃ r, Leads mem' x r ∧ Conn ends E x r ∧ (Conn ends E a x → r = ra) ∧ (Conn ends E b x → r = rb) ∧
      (¬ Conn ends (insert e E) a x → Leads mem x r) := by
  have hleads : ∀ r, Leads mem x r → Conn ends (insert e E) x r := fun r hr => (hsame x r).mp ⟨r, hr, .of_root hr.is_root⟩
  by_cases ha : Conn ends E a x
  · refine ⟨ra, ?_, ha.symm.trans h.left_root, fun _ => rfl, fun hb => absurd (ha.trans hb.symm) hab, fun hout => ?_⟩
    · exact Leads.mend (D := {z | Conn ends E a z}) (g := fun _ => ra) h.left (fun _ _ => h.left_root) (fun _ _ => rfl) ha
    · exact absurd ((conn_insert_left hj).mpr (.inl ha)) hout
  · by_cases hb : Conn ends E b x
    · refine ⟨rb, ?_, hb.symm.trans h.right_root, fun ha' => absurd ha' ha, fun _ => rfl, fun hout => ?_⟩
      · exact Leads.mend (D := {z | Conn ends E b z}) (g := fun _ => rb) h.right (fun _ _ => h.right_root) (fun _ _ => rfl) hb
      · exact absurd ((conn_insert_left hj).mpr (.inr hb)) hout
    · have hout : ¬ Conn ends (insert e E) a x := by
        rw [conn_insert_left hj, not_or]
        exact ⟨ha, hb⟩
      obtain ⟨r, hr⟩ := ht x
      refine ⟨r, ?_, (conn_insert_outside hj hout).mp (hleads r hr), fun ha' => absurd ha' ha, fun hb' => absurd hb' hb,
        fun _ => hr⟩
      -- no pointer leads into the component from outside
      refine hr.frame (D := {z | Conn ends (insert e E) a z}) (fun z hz hp => hz ?_) (fun z hz => ?_) hout
      · exact Conn.trans hp ((hsame z _).mp (ht.same_parent z)).symm
      · rw [Set.mem_ofPred_eq, conn_insert_left hj, not_or] at hz
        exact h.others z hz.1 hz.2

theorem Cut.total (h : Cut ends E a b ra rb mem mem') (hj : Joins ends e a b) (hab : ¬ Conn ends E a b) (ht : Total mem)
    (hsame : ∀ x y, Same mem x y ↔ Conn ends (insert e E) x y) : Total mem' := by
  intro x
  obtain ⟨r, hr, -⟩ := h.leads hj hab ht hsame x
  exact ⟨r, hr⟩

/-- **The components after the cut** are those without the edge. -/
theorem Cut.same (h : Cut ends E a b ra rb mem mem') (hj : Joins ends e a b) (hab : ¬ Conn ends E a b) (ht : Total mem)
    (hsame : ∀ x y, Same mem x y ↔ Conn ends (insert e E) x y) : Same mem' x y ↔ Conn ends E x y := by
  obtain ⟨r, hr, hxr, hxa, hxb, hxo⟩ := h.leads hj hab ht hsame x
  obtain ⟨s, hs, hys, hya, hyb, hyo⟩ := h.leads hj hab ht hsame y
  rw [same_iff hr hs]
  constructor
  · rintro rfl
    exact hxr.trans hys.symm
  · intro hxy
    by_cases ha : Conn ends E a x
    · rw [hxa ha, hya (ha.trans hxy)]
    · by_cases hb : Conn ends E b x
      · rw [hxb hb, hyb (hb.trans hxy)]
      · have hout : ¬ Conn ends (insert e E) a x := by
          rw [conn_insert_left hj, not_or]
          exact ⟨ha, hb⟩
        have hxy' : Conn ends (insert e E) x y := hxy.mono (Set.subset_insert e E)
        exact (same_iff (hxo hout) (hyo fun hc => hout (hc.trans hxy'.symm))).mp ((hsame x y).mpr hxy')

end Cut

end Outback.Lib
