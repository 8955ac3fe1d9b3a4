import Mathlib.Logic.Basic
import Mathlib.Data.List.Basic

/-!
# `Lib.Partial` — partial correctness of one run and of two runs

A computation is an `Except ε α`: an `error` is a run that does not return. `Returns P x` says that the value `x`
returns, if it does, satisfies `P`; `Agree R x y` says the same of the values of two computations and a relation
between them. Neither says that the computations return. `Carries P x y` says that `y` returns what `x` returns, if it
does, and that it satisfies `P`; so a property of every run of a `checked` computation is one of the runs of the
computation that it carries. The rules follow the way computations are put together: `ok`, `bind`, a conditional, a left
fold.
-/

namespace Outback.Lib

universe u

variable {ε ε' ι : Type*} {α β γ δ : Type u}

/-- What `x` returns satisfies `P`. -/
def Returns (P : α → Prop) (x : Except ε α) : Prop :=
  ∀ a, x = .ok a → P a

/-- What `x` and `y` return is related by `R`. -/
def Agree (R : α → β → Prop) (x : Except ε α) (y : Except ε' β) : Prop :=
  ∀ a b, x = .ok a → y = .ok b → R a b

/-- A bind that returned has returned at its first part. -/
theorem bind_eq_ok {x : Except ε α} {f : α → Except ε β} {b : β} :
    (x >>= f) = .ok b ↔ ∃ a, x = .ok a ∧ f a = .ok b := by
  cases x with
  | error e =>
      constructor
      · intro h
        cases h
      · rintro ⟨a, h, -⟩
        cases h
  | ok a =>
      constructor
      · intro h
        exact ⟨a, rfl, h⟩
      · rintro ⟨a', h, hf⟩
        cases h
        exact hf

/-- A bind fails only as one of its parts does. -/
theorem bind_ne_error {x : Except ε α} {f : α → Except ε β} {e : ε} (hx : x ≠ .error e)
    (hf : ∀ a, x = .ok a → f a ≠ .error e) : x >>= f ≠ .error e := by
  cases x with
  | error e' =>
      intro h
      cases h
      exact hx rfl
  | ok a => exact hf a rfl

/-- Whether `x` returns a value that passes the test `p`. -/
def passes (p : α → Bool) : Except ε α → Bool
  | .ok a => p a
  | .error _ => false

theorem exists_of_passes {p : α → Bool} {x : Except ε α} (h : passes p x = true) : ∃ a, x = .ok a ∧ p a = true := by
  cases x with
  | error e => cases h
  | ok a => exact ⟨a, rfl, h⟩

section One

variable {P Q : α → Prop}

theorem Returns.ok {a : α} (h : P a) : Returns P (.ok a : Except ε α) := by
  rintro _ ⟨⟩
  exact h

theorem Returns.error (e : ε) : Returns P (.error e : Except ε α) := by
  rintro a ⟨⟩

theorem Returns.bind {P : β → Prop} {Q : α → Prop} {x : Except ε α} {f : α → Except ε β}
    (hx : Returns Q x) (hf : ∀ a, Q a → Returns P (f a)) : Returns P (x >>= f) := by
  intro b hb
  obtain ⟨a, ha, hfa⟩ := bind_eq_ok.mp hb
  exact hf a (hx a ha) b hfa

/-- **The loop rule.** What holds before the loop and is kept by its body holds after it. -/
theorem Returns.foldlM {f : α → ι → Except ε α} (l : List ι) {a : α} (ha : P a)
    (hf : ∀ a, P a → ∀ i ∈ l, Returns P (f a i)) : Returns P (l.foldlM f a) := by
  induction l generalizing a with
  | nil => exact Returns.ok ha
  | cons i l ih =>
      rw [List.foldlM_cons]
      refine Returns.bind (hf a ha i List.mem_cons_self) ?_
      intro a' ha'
      apply ih ha'
      intro a'' ha'' j hj
      exact hf a'' ha'' j (List.mem_cons_of_mem i hj)

/-- The loop rule with the turns that are done. -/
theorem Returns.foldlM_prefix {I : List ι → α → Prop} {f : α → ι → Except ε α} (l : List ι) {a : α} (ha : I [] a)
    (hf : ∀ pre i post a, l = pre ++ i :: post → I pre a → Returns (I (pre ++ [i])) (f a i)) :
    Returns (I l) (l.foldlM f a) := by
  have key : ∀ post pre a, l = pre ++ post → I pre a → Returns (I l) (post.foldlM f a) := by
    intro post
    induction post with
    | nil =>
        intro pre a hl hI
        rw [List.append_nil] at hl
        subst hl
        exact Returns.ok hI
    | cons i post ih =>
        intro pre a hl hI
        rw [List.foldlM_cons]
        refine Returns.bind (hf pre i post a hl hI) ?_
        intro a' hI'
        exact ih (pre ++ [i]) a' (by rw [hl, List.append_assoc, List.singleton_append]) hI'
  exact key l [] a rfl ha

/-- Two loops whose turns do the same in every state. -/
theorem foldlM_congr {f g : α → ι → Except ε α} (l : List ι) (h : ∀ i ∈ l, ∀ a, f a i = g a i) (a : α) :
    l.foldlM f a = l.foldlM g a := by
  induction l generalizing a with
  | nil => rfl
  | cons i l ih =>
      rw [List.foldlM_cons, List.foldlM_cons, h i List.mem_cons_self]
      exact congrArg (_ >>= ·) (funext (ih fun j hj => h j (List.mem_cons_of_mem i hj)))

/-- The loop rule for turns that all return. -/
theorem foldlM_ok {I : List ι → α → Prop} {f : α → ι → Except ε α} (l : List ι) {a : α} (ha : I [] a)
    (hf : ∀ pre i post a, l = pre ++ i :: post → I pre a → ∃ a', f a i = .ok a' ∧ I (pre ++ [i]) a') :
    ∃ a', l.foldlM f a = .ok a' ∧ I l a' := by
  have key : ∀ post pre a, l = pre ++ post → I pre a → ∃ a', post.foldlM f a = .ok a' ∧ I l a' := by
    intro post
    induction post with
    | nil =>
        intro pre a hl hI
        rw [List.append_nil] at hl
        subst hl
        exact ⟨a, rfl, hI⟩
    | cons i post ih =>
        intro pre a hl hI
        obtain ⟨a', ha', hI'⟩ := hf pre i post a hl hI
        rw [List.foldlM_cons, ha']
        exact ih (pre ++ [i]) a' (by rw [hl, List.append_assoc, List.singleton_append]) hI'
  exact key l [] a rfl ha

end One

section Two

variable {R : α → β → Prop}

theorem Agree.ok {a : α} {b : β} (h : R a b) : Agree R (.ok a : Except ε α) (.ok b : Except ε' β) := by
  rintro _ _ ⟨⟩ ⟨⟩
  exact h

theorem Agree.error_left (e : ε) (y : Except ε' β) : Agree R (.error e : Except ε α) y := by
  rintro a b ⟨⟩

theorem Agree.error_right (x : Except ε α) (e : ε') : Agree R x (.error e : Except ε' β) := by
  rintro a b - ⟨⟩

/-- A computation agrees with itself. -/
theorem Agree.refl {R : α → α → Prop} (x : Except ε α) (h : ∀ a, R a a) : Agree R x x := by
  intro a b ha hb
  obtain rfl : a = b := Except.ok.inj (ha.symm.trans hb)
  exact h a

theorem Agree.bind {S : γ → δ → Prop} {x : Except ε α} {y : Except ε' β} {f : α → Except ε γ} {g : β → Except ε' δ}
    (hxy : Agree R x y) (hfg : ∀ a b, R a b → Agree S (f a) (g b)) : Agree S (x >>= f) (y >>= g) := by
  intro c d hc hd
  obtain ⟨a, ha, hfa⟩ := bind_eq_ok.mp hc
  obtain ⟨b, hb, hgb⟩ := bind_eq_ok.mp hd
  exact hfg a b (hxy a b ha hb) c d hfa hgb

/-- Two conditionals on equivalent conditions. -/
theorem Agree.ite {p q : Prop} [Decidable p] [Decidable q] {x x' : Except ε α} {y y' : Except ε' β} (hpq : p ↔ q)
    (ht : p → Agree R x y) (he : ¬p → Agree R x' y') : Agree R (if p then x else x') (if q then y else y') := by
  by_cases hp : p
  · rw [if_pos hp, if_pos (hpq.mp hp)]
    exact ht hp
  · rw [if_neg hp, if_neg (fun hq => hp (hpq.mpr hq))]
    exact he hp

/-- **The loop rule for two runs** of the same number of turns. -/
theorem Agree.foldlM {f : α → ι → Except ε α} {g : β → ι → Except ε' β} (l : List ι) {a : α} {b : β} (hab : R a b)
    (hfg : ∀ a b, R a b → ∀ i ∈ l, Agree R (f a i) (g b i)) : Agree R (l.foldlM f a) (l.foldlM g b) := by
  induction l generalizing a b with
  | nil => exact Agree.ok hab
  | cons i l ih =>
      rw [List.foldlM_cons, List.foldlM_cons]
      refine Agree.bind (hfg a b hab i List.mem_cons_self) ?_
      intro a' b' hab'
      apply ih hab'
      intro a'' b'' hab'' j hj
      exact hfg a'' b'' hab'' j (List.mem_cons_of_mem i hj)

end Two

section Carry

variable {P : α → Prop} {Q : β → Prop}

/-- What `x` returns `y` returns too, and it satisfies `P`. -/
def Carries (P : α → Prop) (x : Except ε α) (y : Except ε' α) : Prop :=
  ∀ a, x = .ok a → y = .ok a ∧ P a

theorem Carries.returns {x : Except ε α} {y : Except ε' α} (h : Carries P x y) : Returns P x :=
  fun a ha => (h a ha).2

/-- Every computation carries itself. -/
theorem Returns.carries {x : Except ε α} (h : Returns P x) : Carries P x x :=
  fun a ha => ⟨ha, h a ha⟩

theorem Carries.mono {P' : α → Prop} {x : Except ε α} {y : Except ε' α} (h : Carries P x y) (hP : ∀ a, P a → P' a) :
    Carries P' x y :=
  fun a ha => ⟨(h a ha).1, hP a (h a ha).2⟩

theorem Carries.error (e : ε) (y : Except ε' α) : Carries P (.error e : Except ε α) y := by
  rintro a ⟨⟩

theorem Carries.bind {x : Except ε α} {y : Except ε' α} {f : α → Except ε β} {g : α → Except ε' β}
    (hxy : Carries P x y) (hfg : ∀ a, P a → Carries Q (f a) (g a)) : Carries Q (x >>= f) (y >>= g) := by
  intro b hb
  obtain ⟨a, ha, hfa⟩ := bind_eq_ok.mp hb
  obtain ⟨hy, hP⟩ := hxy a ha
  obtain ⟨hg, hQ⟩ := hfg a hP b hfa
  exact ⟨bind_eq_ok.mpr ⟨a, hy, hg⟩, hQ⟩

open Classical in
/-- The computation `x`, which fails where it returns a value that does not satisfy `P`. -/
noncomputable def checked (e : ε) (P : α → Prop) (x : Except ε α) : Except ε α :=
  x >>= fun a => if P a then .ok a else .error e

theorem checked_returns (e : ε) (P : α → Prop) (x : Except ε α) : Returns P (checked e P x) := by
  intro a ha
  obtain ⟨b, -, hb⟩ := bind_eq_ok.mp ha
  split at hb
  · rename_i hP
    cases hb
    exact hP
  · cases hb

/-- Where the values satisfy `P` the check changes nothing. -/
theorem Returns.carries_checked {x : Except ε α} (e : ε) (hx : Returns P x) : Carries P x (checked e P x) := by
  intro a ha
  have hP := hx a ha
  refine ⟨bind_eq_ok.mpr ⟨a, ha, if_pos hP⟩, hP⟩

end Carry

end Outback.Lib
