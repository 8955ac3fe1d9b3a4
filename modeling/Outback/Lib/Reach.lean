import Mathlib.Logic.Relation

/-!
# `Lib.Reach` — guarded reachability of a labelled step function

A system is a partial step function `step : σ → α → Except ε σ`: the label `α` carries every choice the
step makes, an `error` is a step that does not return. A **guard** `C s a` is a condition on the state a
step is taken from and on its label. `Reaches step C s t` says that `t` is reached from `s` by steps that
all meet the guard; `Reaches step ⊤` is plain reachability.

`Runs step C s l t` keeps the labels `l` of the steps, for what is to be said about the choices of a run.

Nothing here mentions a store or a protocol. Reachability itself is Mathlib's `Relation.ReflTransGen`.
-/

namespace Outback.Lib

variable {σ α ε : Type*}

/-- One returning step of `step`, under some label that meets the guard `C`. -/
def Guarded (step : σ → α → Except ε σ) (C : σ → α → Prop) (s t : σ) : Prop :=
  ∃ a, C s a ∧ step s a = .ok t

/-- `t` is reached from `s` by returning steps that all meet the guard `C`. -/
abbrev Reaches (step : σ → α → Except ε σ) (C : σ → α → Prop) : σ → σ → Prop :=
  Relation.ReflTransGen (Guarded step C)

/-- The guard that admits every step. -/
def anyStep : σ → α → Prop := fun _ _ => True

variable {step : σ → α → Except ε σ} {C D : σ → α → Prop} {s t u : σ}

/-- **The invariant rule.** What holds at the start and is kept by every guarded step holds in every
    state that guarded steps reach. -/
theorem Reaches.invariant {P : σ → Prop} (h : Reaches step C s t) (hs : P s)
    (hstep : ∀ s a t, P s → C s a → step s a = .ok t → P t) : P t := by
  induction h with
  | refl => exact hs
  | tail _ hg ih =>
      obtain ⟨a, hC, ha⟩ := hg
      exact hstep _ a _ ih hC ha

/-- Add one step at the end. -/
theorem Reaches.snoc (h : Reaches step C s t) {a : α} (hC : C t a) (ha : step t a = .ok u) :
    Reaches step C s u :=
  Relation.ReflTransGen.tail h ⟨a, hC, ha⟩

/-- `t` is reached from `s` by the steps labelled `l`, which all return and meet the guard. -/
inductive Runs (step : σ → α → Except ε σ) (C : σ → α → Prop) (s : σ) : List α → σ → Prop
  | nil : Runs step C s [] s
  | snoc {l : List α} {t u : σ} {a : α} (h : Runs step C s l t) (hC : C t a) (ha : step t a = .ok u) :
      Runs step C s (l ++ [a]) u

/-- The last step of a run. -/
theorem runs_snoc_iff {l : List α} {a : α} :
    Runs step C s (l ++ [a]) u ↔ ∃ t, Runs step C s l t ∧ C t a ∧ step t a = .ok u := by
  constructor
  · intro h
    generalize hl : l ++ [a] = l' at h
    cases h with
    | nil => exact absurd hl (by simp)
    | @snoc l₀ t u b h hC ha =>
        obtain ⟨rfl, hab⟩ := List.append_inj' hl rfl
        cases hab
        exact ⟨t, h, hC, ha⟩
  · rintro ⟨t, h, hC, ha⟩
    exact h.snoc hC ha

theorem Runs.reaches {l : List α} (h : Runs step C s l t) : Reaches step C s t := by
  induction h with
  | nil => exact .refl
  | snoc _ hC ha ih => exact ih.snoc hC ha

/-- The labels determine the run, whatever the guard. -/
theorem Runs.unique {l : List α} (h : Runs step C s l t) (h' : Runs step D s l u) : t = u := by
  induction h generalizing u with
  | nil =>
      generalize hl : ([] : List α) = l at h'
      cases h' with
      | nil => rfl
      | snoc => exact absurd hl (by simp)
  | @snoc l t v a _ _ ha ih =>
      obtain ⟨t', ht', -, ha'⟩ := runs_snoc_iff.mp h'
      obtain rfl := ih ht'
      exact Except.ok.inj (ha.symm.trans ha')

/-- **The invariant rule with the labels so far.** -/
theorem Runs.invariant {P : List α → σ → Prop} {l : List α} (h : Runs step C s l t) (hs : P [] s)
    (hstep : ∀ l t a u, P l t → C t a → step t a = .ok u → P (l ++ [a]) u) : P l t := by
  induction h with
  | nil => exact hs
  | snoc _ hC ha ih => exact hstep _ _ _ _ ih hC ha

/-- A weaker guard. -/
theorem Runs.mono {l : List α} (h : Runs step C s l t) (hCD : ∀ s a, C s a → D s a) : Runs step D s l t := by
  induction h with
  | nil => exact .nil
  | snoc _ hC ha ih => exact ih.snoc (hCD _ _ hC) ha

/-- The run along a list of labels, as long as every step meets the guard and returns. -/
def runAlong (step : σ → α → Except ε σ) (C : σ → α → Prop) [∀ s a, Decidable (C s a)] : List α → σ → Option σ
  | [], s => some s
  | a :: l, s =>
      if C s a then
        match step s a with
        | .ok t => runAlong step C l t
        | .error _ => none
      else none

/-- One more step at the front. -/
theorem Runs.cons {a : α} {l : List α} (hC : C s a) (ha : step s a = .ok t) (h : Runs step C t l u) :
    Runs step C s (a :: l) u := by
  induction h with
  | nil => exact Runs.nil.snoc hC ha
  | snoc _ hC' ha' ih => exact ih.snoc hC' ha'

theorem Runs.along [∀ s a, Decidable (C s a)] {l : List α} (h : runAlong step C l s = some t) :
    Runs step C s l t := by
  induction l generalizing s with
  | nil =>
      cases h
      exact .nil
  | cons a l ih =>
      rw [runAlong] at h
      split at h
      · rename_i hC
        split at h
        · rename_i u hu
          exact .cons hC hu (ih h)
        · cases h
      · cases h

/-- A run along labels is a run. -/
theorem Reaches.along [∀ s a, Decidable (C s a)] {l : List α} (h : runAlong step C l s = some t) :
    Reaches step C s t :=
  (Runs.along h).reaches

/-- The run along given labels that ends in a state with `p`. -/
theorem runs_along [∀ s a, Decidable (C s a)] {p : σ → Bool} (l : List α)
    (h : (runAlong step C l s).any p = true) : ∃ t, Runs step C s l t ∧ p t = true := by
  obtain ⟨t, ht, hp⟩ := (Option.any_eq_true p _).mp h
  exact ⟨t, .along ht, hp⟩

/-- A run along labels that ends in a state with `p`. -/
theorem exists_along [∀ s a, Decidable (C s a)] {p : σ → Bool} (l : List α)
    (h : (runAlong step C l s).any p = true) : ∃ t, Reaches step C s t ∧ p t = true := by
  obtain ⟨t, ht, hp⟩ := runs_along l h
  exact ⟨t, ht.reaches, hp⟩

instance (s : σ) (a : α) : Decidable (anyStep s a) := inferInstanceAs (Decidable True)

end Outback.Lib
