import Mathlib.Data.List.Basic
import Mathlib.Logic.Function.Basic

/-!
# `Lib.Recency` — pairs in the order of their last use

A list of pairs with the most recently used one in front. `touch` brings a key to the front with a value, `forget` takes it
out, and `valueIn` is the value of a key. A bounded list of this kind is a prefix of the unbounded one: both operations keep
prefixes (`touch_mono`, `forget_mono`), and a key of the prefix has the value it has in the whole list.
-/

namespace Outback.Lib

variable {K V : Type*} [DecidableEq K] {k : K} {v : V} {l m : List (K × V)}

/-- The pairs of the other keys. -/
def forget (k : K) (l : List (K × V)) : List (K × V) := l.filter fun p => p.1 ≠ k

/-- The key in front, and no second time. -/
def touch (k : K) (v : V) (l : List (K × V)) : List (K × V) := (k, v) :: forget k l

/-- The value of a key. -/
def valueIn (l : List (K × V)) (k : K) : Option V := (l.find? fun p => p.1 = k).map Prod.snd

theorem forget_of_not_mem (h : k ∉ l.map Prod.fst) : forget k l = l := by
  refine List.filter_eq_self.mpr fun p hp => decide_eq_true ?_
  rintro rfl
  exact h (List.mem_map_of_mem hp)

theorem valueIn_isSome : (valueIn l k).isSome = true ↔ k ∈ l.map Prod.fst := by
  unfold valueIn
  rw [Option.isSome_map, List.find?_isSome, List.mem_map]
  simp only [decide_eq_true_eq]

theorem valueIn_cons (p : K × V) : valueIn (p :: l) = Function.update (valueIn l) p.1 (some p.2) := by
  funext x
  unfold valueIn
  by_cases hx : x = p.1
  · subst hx
    simp
  · rw [Function.update_of_ne hx, List.find?_cons_of_neg]
    simpa using fun h : p.1 = x => hx h.symm

theorem valueIn_forget : valueIn (forget k l) = Function.update (valueIn l) k none := by
  induction l with
  | nil =>
      funext x
      by_cases hx : x = k
      · subst hx
        rw [Function.update_self]
        rfl
      · rw [Function.update_of_ne hx]
        rfl
  | cons p l ih =>
      rw [valueIn_cons]
      unfold forget at ih ⊢
      by_cases hp : p.1 = k
      · rw [List.filter_cons_of_neg (by simpa using hp), ih, ← hp, Function.update_idem]
      · rw [List.filter_cons_of_pos (by simpa using hp), valueIn_cons, ih, Function.update_comm hp]

theorem valueIn_touch : valueIn (touch k v l) = Function.update (valueIn l) k (some v) := by
  unfold touch
  rw [valueIn_cons, valueIn_forget, Function.update_idem]

theorem forget_nodup (h : (l.map Prod.fst).Nodup) : ((forget k l).map Prod.fst).Nodup :=
  h.sublist (List.filter_sublist.map Prod.fst)

theorem touch_nodup (h : (l.map Prod.fst).Nodup) : ((touch k v l).map Prod.fst).Nodup := by
  refine List.nodup_cons.mpr ⟨?_, forget_nodup h⟩
  rw [← valueIn_isSome, valueIn_forget, Function.update_self]
  exact Bool.false_ne_true

/-! ## Prefixes -/

theorem forget_mono (h : l <+: m) : forget k l <+: forget k m := h.filter _

theorem touch_mono (h : l <+: m) : touch k v l <+: touch k v m := List.prefix_cons_inj _ |>.mpr (forget_mono h)

theorem valueIn_mono (h : l <+: m) (hk : valueIn l k = some v) : valueIn m k = some v := by
  obtain ⟨t, rfl⟩ := h
  unfold valueIn at hk ⊢
  rw [List.find?_append]
  obtain ⟨p, hp, hv⟩ := Option.map_eq_some_iff.mp hk
  rw [hp]
  exact congrArg some hv

/-! ## Lengths -/

theorem length_forget_le : (forget k l).length ≤ l.length := List.length_filter_le _ l

/-- A key that was in the list comes to the front, and the list is as long as before. -/
theorem length_touch (h : (l.map Prod.fst).Nodup) (hk : k ∈ l.map Prod.fst) : (touch k v l).length = l.length := by
  induction l with
  | nil => cases hk
  | cons p l ih =>
      obtain ⟨hp, hl⟩ := List.nodup_cons.mp h
      unfold touch forget at ih ⊢
      -- the key is in front, and nowhere behind
      by_cases hpk : p.1 = k
      · have hsame := forget_of_not_mem (hpk ▸ hp)
        unfold forget at hsame
        rw [List.filter_cons_of_neg (by simpa using hpk), hsame]
        rfl
      · rw [List.filter_cons_of_pos (by simpa using hpk)]
        have hk' : k ∈ l.map Prod.fst := by
          rcases List.mem_cons.mp hk with heq | hmem
          · exact absurd heq.symm hpk
          · exact hmem
        exact congrArg Nat.succ (ih hl hk')

end Outback.Lib
