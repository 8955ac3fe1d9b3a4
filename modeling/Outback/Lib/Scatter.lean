import Mathlib.Logic.Function.Basic
import Mathlib.Data.List.Nodup
import Mathlib.Data.List.Pairwise

/-!
# `Lib.Scatter` — writing a list of cells into an array

`scatter f l` is `f` after the assignments of `l` in order. When the indices of `l` are distinct no
assignment overwrites another one, so every listed cell holds its value (`scatter_of_mem`) and every other
cell is untouched (`scatter_of_not_mem`). In general a cell holds what its last assignment wrote
(`scatter_eq_last`).
-/

namespace Outback.Lib

variable {ι α : Type*} [DecidableEq ι]

/-- The array `f` after the assignments of `l`, taken in order. -/
def scatter (f : ι → α) (l : List (ι × α)) : ι → α :=
  l.foldl (fun g p => Function.update g p.1 p.2) f

@[simp] theorem scatter_nil (f : ι → α) : scatter f [] = f := rfl

@[simp] theorem scatter_cons (f : ι → α) (p : ι × α) (l : List (ι × α)) :
    scatter f (p :: l) = scatter (Function.update f p.1 p.2) l := rfl

/-- A cell that no assignment names keeps its value. -/
theorem scatter_of_not_mem {f : ι → α} {l : List (ι × α)} {i : ι} (h : i ∉ l.map Prod.fst) :
    scatter f l i = f i := by
  induction l generalizing f with
  | nil => rfl
  | cons p l ih =>
      rw [List.map_cons, List.mem_cons, not_or] at h
      rw [scatter_cons, ih h.2, Function.update_of_ne h.1]

/-- With distinct indices, a listed cell holds its listed value. -/
theorem scatter_of_mem {f : ι → α} {l : List (ι × α)} (hn : (l.map Prod.fst).Nodup) {i : ι} {a : α}
    (h : (i, a) ∈ l) : scatter f l i = a := by
  induction l generalizing f with
  | nil => exact absurd h (by simp)
  | cons p l ih =>
      rw [List.map_cons, List.nodup_cons] at hn
      rw [scatter_cons]
      rcases List.mem_cons.mp h with rfl | h
      · rw [scatter_of_not_mem hn.1, Function.update_self]
      · exact ih hn.2 h

/-- The value of the last assignment to `i`. -/
def lastWrite (i : ι) (l : List (ι × α)) : Option α := ((l.filter (fun p => p.1 = i)).getLast?).map Prod.snd

theorem lastWrite_append (i : ι) (l l' : List (ι × α)) :
    lastWrite i (l ++ l') = (lastWrite i l').or (lastWrite i l) := by
  unfold lastWrite
  rw [List.filter_append, List.getLast?_append, Option.map_or]

theorem lastWrite_eq_none {i : ι} {l : List (ι × α)} : lastWrite i l = none ↔ ∀ p ∈ l, p.1 ≠ i := by
  unfold lastWrite
  simp

theorem mem_of_lastWrite {i : ι} {l : List (ι × α)} {a : α} (h : lastWrite i l = some a) : (i, a) ∈ l := by
  obtain ⟨p, hp, rfl⟩ := Option.map_eq_some_iff.mp h
  obtain ⟨hmem, hi⟩ := List.mem_filter.mp (List.mem_of_getLast? hp)
  rw [← of_decide_eq_true hi]
  exact hmem

/-- **The last write wins.** -/
theorem scatter_eq_last (f : ι → α) (l : List (ι × α)) (i : ι) : scatter f l i = (lastWrite i l).getD (f i) := by
  induction l generalizing f with
  | nil => rfl
  | cons p l ih =>
      rw [scatter_cons, ih, ← List.singleton_append, lastWrite_append]
      cases lastWrite i l with
      | some a => rfl
      | none =>
          by_cases hp : p.1 = i
          · subst hp
            simp [lastWrite]
          · have hne : i ≠ p.1 := fun h => hp h.symm
            simp [lastWrite, hp, hne]

end Outback.Lib
