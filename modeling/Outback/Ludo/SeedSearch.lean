import Outback.Hash
import Mathlib.Data.List.Nodup
import Mathlib.Logic.Function.Basic

/-!
# `Ludo.SeedSearch` — looking for a seed that separates the keys of a bucket

`ControlPlaneLudo::updateSeed` and the reseeding case of `outback_put_callback` run the same loop: try the seeds
`0 .. 254` in turn, mark the slot of each key, and give a seed up at the first slot that is marked already. A seed
that the loop returns sends the keys to pairwise different slots (`forceSeed_nodup`).
-/

namespace Outback

variable (H : HashFn)

/-- The inner loop under one seed: `occupied` are the slots marked so far. -/
def separates (seed : U8) : List U64 → (Slot → Bool) → Bool
  | [], _ => true
  | k :: ks, occupied =>
      if occupied (seedSlot H seed k) then false
      else separates seed ks (Function.update occupied (seedSlot H seed k) true)

/-- The first seed below 255 that separates the keys. -/
def forceSeed (keys : List U64) : Option U8 :=
  ((List.range 255).map (BitVec.ofNat 8)).find? fun seed => separates H seed keys fun _ => false

variable {H} {seed : U8} {keys : List U64}

theorem separates_iff {occupied : Slot → Bool} : separates H seed keys occupied = true ↔
    (keys.map (seedSlot H seed)).Nodup ∧ ∀ k ∈ keys, occupied (seedSlot H seed k) = false := by
  induction keys generalizing occupied with
  | nil => simp [separates]
  | cons k ks ih =>
      unfold separates
      by_cases hk : occupied (seedSlot H seed k) = true
      · simp [hk]
      · have hk' : occupied (seedSlot H seed k) = false := by simpa using hk
        rw [if_neg hk, ih, List.map_cons, List.nodup_cons]
        constructor
        · rintro ⟨hnd, hfree⟩
          -- a later key in the slot of `k` would find it marked
          have hnot : seedSlot H seed k ∉ ks.map (seedSlot H seed) := by
            intro hmem
            obtain ⟨k', hk'mem, hslot⟩ := List.mem_map.mp hmem
            have := hfree k' hk'mem
            simp [hslot] at this
          refine ⟨⟨hnot, hnd⟩, fun k' hmem => ?_⟩
          rcases List.mem_cons.mp hmem with rfl | hmem
          · exact hk'
          · have hne : seedSlot H seed k' ≠ seedSlot H seed k := fun e => hnot (e ▸ List.mem_map_of_mem hmem)
            simpa [Function.update_of_ne hne] using hfree k' hmem
        · rintro ⟨⟨hnot, hnd⟩, hfree⟩
          refine ⟨hnd, fun k' hmem => ?_⟩
          have hne : seedSlot H seed k' ≠ seedSlot H seed k := fun e => hnot (e ▸ List.mem_map_of_mem hmem)
          rw [Function.update_of_ne hne]
          exact hfree k' (List.mem_cons_of_mem k hmem)

/-- **A seed that the loop returns separates the keys.** -/
theorem forceSeed_nodup (h : forceSeed H keys = some seed) : (keys.map (seedSlot H seed)).Nodup := by
  unfold forceSeed at h
  have hsep := List.find?_some h
  exact (separates_iff.mp hsep).1

end Outback
