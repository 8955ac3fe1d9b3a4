import Mathlib.Logic.Function.Basic
import Mathlib.Data.List.Nodup
import Mathlib.Data.List.Perm.Basic

/-!
# `Lib.Cells` — cells that hold entries, each key in one cell at most

A table is a function from cells to what they hold, a key with its value or nothing. `Holds` is the map that a table
stands for; `Once` says that no key is in two cells, which makes it a map. Entries are put into free cells, changed in
place, erased, and moved from cell to cell (`move`), and each of these keeps `Once` and does to the map what its name
says.

With finitely many cells, listed in `cs`, the keys that are held are a list without repetition (`keysOf`), so that the
number of cells in use depends on the map alone; and the first entry in the order of the cells is the entry of its key
(`find_eq_some_iff`).
-/

namespace Outback.Lib

variable {C K V : Type*}

/-- Some cell holds the key with this value. -/
def Holds (T : C → Option (K × V)) (k : K) (v : V) : Prop := ∃ c, T c = some (k, v)

/-- No key is in two cells. -/
def Once (T : C → Option (K × V)) : Prop := ∀ c c' k v v', T c = some (k, v) → T c' = some (k, v') → c = c'

section Update

variable [DecidableEq C] {T : C → Option (K × V)} {c c' : C} {k k' : K} {v v' w : V}

/-- The entry of `c'` moves to `c`. -/
def move (T : C → Option (K × V)) (c' c : C) : C → Option (K × V) :=
  Function.update (Function.update T c (T c')) c' none

omit [DecidableEq C] in
theorem Once.value_unique (h : Once T) (hv : Holds T k v) (hv' : Holds T k v') : v = v' := by
  obtain ⟨c, hc⟩ := hv
  obtain ⟨c', hc'⟩ := hv'
  obtain rfl := h c c' k v v' hc hc'
  rw [hc] at hc'
  cases hc'
  rfl

/-! ## Erasing -/

theorem Once.erase (h : Once T) (c : C) : Once (Function.update T c none) := by
  have hsub : ∀ d e, Function.update T c none d = some e → T d = some e := by
    intro d e hd
    by_cases hdc : d = c
    · subst hdc
      simp at hd
    · rwa [Function.update_of_ne hdc] at hd
  intro d d' k v v' hd hd'
  exact h d d' k v v' (hsub d _ hd) (hsub d' _ hd')

theorem Once.holds_erase (h : Once T) (hc : T c = some (k, w)) :
    Holds (Function.update T c none) k' v ↔ k' ≠ k ∧ Holds T k' v := by
  constructor
  · rintro ⟨d, hd⟩
    by_cases hdc : d = c
    · subst hdc
      simp at hd
    · rw [Function.update_of_ne hdc] at hd
      refine ⟨?_, d, hd⟩
      rintro rfl
      exact hdc (h d c k' v w hd hc)
  · rintro ⟨hne, d, hd⟩
    refine ⟨d, ?_⟩
    have hdc : d ≠ c := by
      rintro rfl
      rw [hc] at hd
      cases hd
      exact hne rfl
    rw [Function.update_of_ne hdc, hd]

/-! ## Putting an entry into a free cell -/

theorem Once.put (h : Once T) (habsent : ∀ w, ¬ Holds T k w) : Once (Function.update T c (some (k, v))) := by
  intro d d' k' u u' hd hd'
  -- an entry of `k` in the new table is the one that was put
  have hput : ∀ d u, Function.update T c (some (k, v)) d = some (k, u) → d = c := by
    intro d u hd
    by_contra hdc
    rw [Function.update_of_ne hdc] at hd
    exact habsent u ⟨d, hd⟩
  by_cases hk : k' = k
  · subst hk
    exact (hput d u hd).trans (hput d' u' hd').symm
  · have hold : ∀ d u, Function.update T c (some (k, v)) d = some (k', u) → T d = some (k', u) := by
      intro d u hd
      by_cases hdc : d = c
      · subst hdc
        rw [Function.update_self] at hd
        cases hd
        exact absurd rfl hk
      · rwa [Function.update_of_ne hdc] at hd
    exact h d d' k' u u' (hold d u hd) (hold d' u' hd')

theorem holds_put (hfree : T c = none) :
    Holds (Function.update T c (some (k, v))) k' v' ↔ (k' = k ∧ v' = v) ∨ Holds T k' v' := by
  constructor
  · rintro ⟨d, hd⟩
    by_cases hdc : d = c
    · subst hdc
      rw [Function.update_self] at hd
      cases hd
      exact .inl ⟨rfl, rfl⟩
    · rw [Function.update_of_ne hdc] at hd
      exact .inr ⟨d, hd⟩
  · rintro (⟨rfl, rfl⟩ | ⟨d, hd⟩)
    · exact ⟨c, Function.update_self ..⟩
    · have hdc : d ≠ c := by
        rintro rfl
        rw [hfree] at hd
        cases hd
      exact ⟨d, by rw [Function.update_of_ne hdc, hd]⟩

/-! ## Moving an entry -/

theorem Once.move (h : Once T) (hne : c' ≠ c) : Once (move T c' c) := by
  unfold Lib.move
  cases hc' : T c' with
  | none => exact (h.erase c).erase c'
  | some e =>
      rw [Function.update_comm hne.symm]
      refine (h.erase c').put fun w hw => ?_
      exact ((h.holds_erase hc').mp hw).1 rfl

theorem Once.holds_move (h : Once T) (hfree : T c = none) (hne : c' ≠ c) : Holds (Lib.move T c' c) k v ↔ Holds T k v := by
  unfold Lib.move
  cases hc' : T c' with
  | none =>
      have hsame : Function.update T c none = T := by
        rw [← hfree, Function.update_eq_self]
      have hsame' : Function.update T c' none = T := by
        rw [← hc', Function.update_eq_self]
      rw [hsame, hsame']
  | some e =>
      obtain ⟨x, u⟩ := e
      have hempty : Function.update T c' none c = none := by
        rw [Function.update_of_ne hne.symm, hfree]
      rw [Function.update_comm hne.symm, holds_put hempty, h.holds_erase hc']
      constructor
      · rintro (⟨rfl, rfl⟩ | ⟨-, hold⟩)
        · exact ⟨c', hc'⟩
        · exact hold
      · intro hold
        by_cases hk : k = x
        · subst hk
          exact .inl ⟨rfl, h.value_unique hold ⟨c', hc'⟩⟩
        · exact .inr ⟨hk, hold⟩

/-! ## Changing the value of an entry -/

theorem Once.set (h : Once T) (hc : T c = some (k, w)) : Once (Function.update T c (some (k, v))) := by
  have herase : Once (Function.update (Function.update T c none) c (some (k, v))) := by
    refine (h.erase c).put fun u hu => ?_
    exact ((h.holds_erase hc).mp hu).1 rfl
  rwa [Function.update_idem] at herase

theorem Once.holds_set (h : Once T) (hc : T c = some (k, w)) :
    Holds (Function.update T c (some (k, v))) k' v' ↔ (k' = k ∧ v' = v) ∨ (k' ≠ k ∧ Holds T k' v') := by
  rw [← h.holds_erase hc, ← holds_put (Function.update_self ..), Function.update_idem]

end Update

/-! ## Finitely many cells -/

section Finite

variable {T U : C → Option (K × V)} {cs ds : List C} {k : K} {v : V}

/-- The keys that the listed cells hold. -/
def keysOf (cs : List C) (T : C → Option (K × V)) : List K := cs.filterMap fun c => (T c).map Prod.fst

theorem mem_keysOf (hcs : ∀ c e, T c = some e → c ∈ cs) : k ∈ keysOf cs T ↔ ∃ v, Holds T k v := by
  unfold keysOf
  rw [List.mem_filterMap]
  constructor
  · rintro ⟨c, -, hc⟩
    obtain ⟨⟨x, v⟩, hT, rfl⟩ := Option.map_eq_some_iff.mp hc
    exact ⟨v, c, hT⟩
  · rintro ⟨v, c, hT⟩
    exact ⟨c, hcs c _ hT, by rw [hT]; rfl⟩

theorem Once.keysOf_nodup (h : Once T) (hcs : cs.Nodup) : (keysOf cs T).Nodup := by
  refine hcs.filterMap fun c c' k hc hc' => ?_
  obtain ⟨⟨x, v⟩, hT, rfl⟩ := Option.map_eq_some_iff.mp hc
  obtain ⟨⟨x', v'⟩, hT', hx⟩ := Option.map_eq_some_iff.mp hc'
  obtain rfl : x' = x := hx
  exact h c c' x' v v' hT hT'

/-- There are as many keys as cells in use. -/
theorem length_keysOf (cs : List C) (T : C → Option (K × V)) :
    (keysOf cs T).length = (cs.filter fun c => (T c).isSome).length := by
  induction cs with
  | nil => rfl
  | cons c cs ih =>
      unfold keysOf at ih ⊢
      cases hc : T c with
      | none =>
          rw [List.filterMap_cons_none (by rw [hc]; rfl), List.filter_cons_of_neg (by simp [hc])]
          exact ih
      | some e =>
          rw [List.filterMap_cons_some (by rw [hc]; rfl), List.filter_cons_of_pos (by simp [hc]), List.length_cons,
            List.length_cons, ih]

/-- What is held fixes the number of cells in use: two tables that hold the keys `l` and those of the other. -/
theorem Once.length_keysOf_add (hT : Once T) (hU : Once U) (hcs : cs.Nodup) (hds : ds.Nodup)
    (hTcs : ∀ c e, T c = some e → c ∈ cs) (hUds : ∀ c e, U c = some e → c ∈ ds) {l : List K} (hl : l.Nodup)
    (hdisj : ∀ k ∈ l, ∀ v, ¬ Holds T k v) (hkeys : ∀ k, (∃ v, Holds U k v) ↔ k ∈ l ∨ ∃ v, Holds T k v) :
    (keysOf ds U).length = l.length + (keysOf cs T).length := by
  rw [← List.length_append]
  refine List.Perm.length_eq ((List.perm_ext_iff_of_nodup (hU.keysOf_nodup hds) ?_).mpr fun k => ?_)
  · refine hl.append (hT.keysOf_nodup hcs) fun k hk hk' => ?_
    obtain ⟨v, hv⟩ := (mem_keysOf hTcs).mp hk'
    exact hdisj k hk v hv
  · rw [List.mem_append, mem_keysOf hUds, mem_keysOf hTcs, hkeys]

/-! ## The first entry of a key -/

/-- The value of the first listed cell that holds the key. -/
def find [DecidableEq K] (cs : List C) (T : C → Option (K × V)) (k : K) : Option V :=
  cs.findSome? fun c => (T c).bind fun e => if e.1 = k then some e.2 else none

theorem Once.find_eq_some_iff [DecidableEq K] (h : Once T) (hcs : ∀ c e, T c = some e → c ∈ cs) :
    find cs T k = some v ↔ Holds T k v := by
  have hentry : ∀ c u, ((T c).bind fun e => if e.1 = k then some e.2 else none) = some u ↔ T c = some (k, u) := by
    intro c u
    cases hT : T c with
    | none => simp
    | some e =>
        obtain ⟨x, w⟩ := e
        by_cases hx : x = k
        · simp [hx]
        · simp [hx]
  unfold find
  constructor
  · intro hv
    obtain ⟨c, -, hc⟩ := List.exists_of_findSome?_eq_some hv
    exact ⟨c, (hentry c v).mp hc⟩
  · rintro ⟨c, hc⟩
    have hsome : (cs.findSome? fun c => (T c).bind fun e => if e.1 = k then some e.2 else none).isSome = true := by
      rw [List.findSome?_isSome_iff]
      exact ⟨c, hcs c _ hc, by rw [(hentry c v).mpr hc]; rfl⟩
    obtain ⟨u, hu⟩ := Option.isSome_iff_exists.mp hsome
    obtain ⟨d, -, hd⟩ := List.exists_of_findSome?_eq_some hu
    rw [hu, h.value_unique ⟨d, (hentry d u).mp hd⟩ ⟨c, hc⟩]

/-- Tables that hold the same entries find the same. -/
theorem Once.find_congr [DecidableEq K] (hT : Once T) (hU : Once U) (hTcs : ∀ c e, T c = some e → c ∈ cs)
    (hUds : ∀ c e, U c = some e → c ∈ ds) (h : ∀ v, Holds U k v ↔ Holds T k v) : find ds U k = find cs T k := by
  refine Option.ext fun v => ?_
  rw [hU.find_eq_some_iff hUds, hT.find_eq_some_iff hTcs, h]

end Finite

end Outback.Lib
