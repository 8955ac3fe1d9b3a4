import Mathlib.Logic.Function.Basic
import Mathlib.Data.Nat.ModEq

/-!
# `Lib.Stride` — lane counters that hand out interleaved indices

`m` lanes share the indices from `base` on: lane `i` hands out `base + i`, `base + i + m`, `base + i + 2m`
and so on, by returning its counter and adding `m` to it. `Strided` is what the counters keep, `Issued`
says which indices have been handed out. An index that a lane returns, now or later, has never been handed out
before (`Strided.not_issued_later`); what was issued stays issued (`Issued.bump`), and a returned index counts as
issued from then on (`Strided.issued_next`), it alone (`Strided.issued_bump_iff`). Every index from `base` on has been
issued or will be (`Strided.issued_or_later`), none in the beginning (`not_issued_start`).
-/

namespace Outback.Lib

variable {m base : Nat} {next : Nat → Nat}

/-- Every lane's counter is congruent to the lane's first index. -/
def Strided (m base : Nat) (next : Nat → Nat) : Prop :=
  ∀ i, i < m → ∃ q, next i = base + i + q * m

/-- Index `a` has been handed out. -/
def Issued (m base : Nat) (next : Nat → Nat) (a : Nat) : Prop :=
  base ≤ a ∧ a < next ((a - base) % m)

/-- The counters after lane `i` handed out an index. -/
def bump (m : Nat) (next : Nat → Nat) (i : Nat) : Nat → Nat :=
  Function.update next i (next i + m)

/-- A counter belongs to its own lane. -/
theorem Strided.lane (h : Strided m base next) {i : Nat} (hi : i < m) : (next i - base) % m = i := by
  obtain ⟨q, hq⟩ := h i hi
  rw [hq, show base + i + q * m - base = i + q * m by omega, Nat.add_mul_mod_self_right, Nat.mod_eq_of_lt hi]

theorem Strided.base_le (h : Strided m base next) {i : Nat} (hi : i < m) : base ≤ next i := by
  obtain ⟨q, hq⟩ := h i hi
  omega

/-- **What a lane can still return is fresh**, its next index and all later ones. -/
theorem Strided.not_issued_later (h : Strided m base next) {i : Nat} (hi : i < m) (j : Nat) :
    ¬ Issued m base next (next i + j * m) := by
  rintro ⟨-, hlt⟩
  have hlane : (next i + j * m - base) % m = i := by
    have hle := h.base_le hi
    rw [show next i + j * m - base = next i - base + j * m by omega, Nat.add_mul_mod_self_right, h.lane hi]
  rw [hlane] at hlt
  omega

/-- The returned index is fresh. -/
theorem Strided.not_issued (h : Strided m base next) {i : Nat} (hi : i < m) : ¬ Issued m base next (next i) := by
  have hnot := h.not_issued_later hi 0
  rwa [Nat.zero_mul, Nat.add_zero] at hnot

theorem Strided.bump (h : Strided m base next) {i : Nat} : Strided m base (bump m next i) := by
  intro j hj
  unfold Lib.bump
  by_cases hji : j = i
  · subst hji
    obtain ⟨q, hq⟩ := h j hj
    exact ⟨q + 1, by rw [Function.update_self, hq, Nat.succ_mul]; omega⟩
  · rw [Function.update_of_ne hji]
    exact h j hj

/-- What was issued stays issued. -/
theorem Issued.bump {a i : Nat} (h : Issued m base next a) : Issued m base (bump m next i) a := by
  refine ⟨h.1, ?_⟩
  unfold Lib.bump
  by_cases hi : (a - base) % m = i
  · rw [hi, Function.update_self]
    have := h.2
    rw [hi] at this
    omega
  · rw [Function.update_of_ne hi]
    exact h.2

/-- The returned index counts as issued from now on. -/
theorem Strided.issued_next (h : Strided m base next) {i : Nat} (hi : i < m) :
    Issued m base (Lib.bump m next i) (next i) := by
  refine ⟨h.base_le hi, ?_⟩
  rw [h.lane hi, Lib.bump, Function.update_self]
  omega

/-- Lanes that stand at their first index have handed out nothing. -/
theorem not_issued_start (h : ∀ i, i < m → next i = base + i) (hm : 0 < m) (a : Nat) : ¬ Issued m base next a := by
  rintro ⟨hbase, hlt⟩
  have hmod := Nat.mod_le (a - base) m
  rw [h _ (Nat.mod_lt _ hm)] at hlt
  omega

/-- An index of a lane lies a whole number of strides behind its counter, or below it. -/
theorem Strided.eq_next_add (h : Strided m base next) {a : Nat} (hm : 0 < m) (ha : base ≤ a)
    (hle : next ((a - base) % m) ≤ a) : ∃ j, a = next ((a - base) % m) + j * m := by
  obtain ⟨q, hq⟩ := h ((a - base) % m) (Nat.mod_lt _ hm)
  have hdiv := Nat.div_add_mod (a - base) m
  rw [Nat.mul_comm] at hdiv
  have hqle : q ≤ (a - base) / m := by
    by_contra hlt
    have := Nat.mul_le_mul_right m (Nat.succ_le_of_lt (Nat.not_le.mp hlt))
    rw [Nat.succ_mul] at this
    omega
  refine ⟨(a - base) / m - q, ?_⟩
  rw [Nat.mul_sub_right_distrib]
  have := Nat.mul_le_mul_right m hqle
  omega

/-- The lanes leave no index from `base` on out. -/
theorem Strided.issued_or_later (h : Strided m base next) {a : Nat} (hm : 0 < m) (ha : base ≤ a) :
    Issued m base next a ∨ ∃ i, i < m ∧ ∃ j, a = next i + j * m := by
  rcases Nat.lt_or_ge a (next ((a - base) % m)) with hlt | hge
  · exact Or.inl ⟨ha, hlt⟩
  · exact Or.inr ⟨_, Nat.mod_lt _ hm, h.eq_next_add hm ha hge⟩

/-- A returned index is the only one that is issued by it. -/
theorem Strided.issued_bump_iff (h : Strided m base next) {i a : Nat} (hi : i < m) :
    Issued m base (Lib.bump m next i) a ↔ Issued m base next a ∨ a = next i := by
  constructor
  · rintro ⟨ha, hlt⟩
    by_cases hlane : (a - base) % m = i
    · rcases Nat.lt_or_ge a (next i) with hold | hge
      · exact Or.inl ⟨ha, by rw [hlane]; exact hold⟩
      · obtain ⟨j, hj⟩ := h.eq_next_add (by omega) ha (by rw [hlane]; exact hge)
        rw [hlane] at hj
        rw [hlane, Lib.bump, Function.update_self] at hlt
        -- less than a stride behind the counter
        have hj0 : j = 0 := by
          by_contra hne
          have := Nat.le_mul_of_pos_left m (Nat.pos_of_ne_zero hne)
          omega
        rw [hj0, Nat.zero_mul, Nat.add_zero] at hj
        exact Or.inr hj
    · rw [Lib.bump, Function.update_of_ne hlane] at hlt
      exact Or.inl ⟨ha, hlt⟩
  · rintro (hold | rfl)
    · exact hold.bump
    · exact h.issued_next hi

end Outback.Lib
