import Outback.Slot

/-!
# `Ludo.DataPlane` — the seeds and the row mapping (`DataPlaneLudo` of `ludo_cp_dp.h`)

A key has two candidate buckets, the low and the high half of its hash reduced to the table size; the
Othello locator gives the bit that selects one. The bucket's seed then hashes the key to one of the four
slots. A data plane holds the locator and one seed byte per bucket: no keys, no values.

The per-bucket version bytes `lock` of the source change only in `applyUpdate`, which no caller uses, so the
retry loop of `lookup_slot` leaves at its first turn and the model has no such bytes.
-/

namespace Outback

/-- `fast_map_to_buckets`: the two candidate buckets of a hash value. -/
def fastMapToBuckets (x : U64) (size : Nat) (second : Bool) : Nat :=
  if second then (x >>> 32).toNat &&& (size - 1) else x.toNat &&& (size - 1)

theorem fastMapToBuckets_lt (x : U64) {size : Nat} (h : 0 < size) (second : Bool) :
    fastMapToBuckets x size second < size := by
  unfold fastMapToBuckets
  have key : ∀ n : Nat, n &&& (size - 1) < size := fun n => by
    have := Nat.and_le_right (n := n) (m := size - 1)
    omega
  split
  · exact key _
  · exact key _

/-- Every row of a table with `2 ^ n` rows is both candidates of some hash value. -/
theorem exists_fastMapToBuckets {n r : Nat} (hn : n ≤ 32) (hr : r < 2 ^ n) :
    ∃ x : U64, ∀ second, fastMapToBuckets x (2 ^ n) second = r := by
  have hdvd : 2 ^ n ∣ 2 ^ 32 := Nat.pow_dvd_pow 2 hn
  have hle : 2 ^ n ≤ 2 ^ 32 := Nat.le_of_dvd (by decide) hdvd
  have hword : (BitVec.ofNat 64 (r * 2 ^ 32 + r)).toNat = r * 2 ^ 32 + r := by
    rw [BitVec.toNat_ofNat]
    exact Nat.mod_eq_of_lt (by omega)
  refine ⟨BitVec.ofNat 64 (r * 2 ^ 32 + r), fun second => ?_⟩
  unfold fastMapToBuckets
  cases second with
  | false =>
      have hzero : r * 2 ^ 32 % 2 ^ n = 0 := Nat.mod_eq_zero_of_dvd (hdvd.mul_left r)
      rw [if_neg Bool.false_ne_true, hword, Nat.and_two_pow_sub_one_eq_mod, Nat.add_mod, hzero, Nat.zero_add, Nat.mod_mod]
      exact Nat.mod_eq_of_lt hr
  | true =>
      have hhigh : (r * 2 ^ 32 + r) / 2 ^ 32 = r := by omega
      rw [if_pos rfl, BitVec.toNat_ushiftRight, hword, Nat.shiftRight_eq_div_pow, hhigh, Nat.and_two_pow_sub_one_eq_mod]
      exact Nat.mod_eq_of_lt hr

structure DataPlaneLudo where
  numBuckets : Nat
  /-- the seed of the row hash `h` -/
  hSeed : U64
  /-- `locator.lookUp`: a fixed bit for every key, also for keys that were never registered -/
  locator : U64 → Bool
  /-- `buckets[row].seed` -/
  seeds : Nat → U8

namespace DataPlaneLudo

variable (H : HashFn)

/-- `lookup_slot(k).first`. -/
def row (dp : DataPlaneLudo) (k : U64) : Nat :=
  fastMapToBuckets (H dp.hSeed k) dp.numBuckets (dp.locator k)

/-- The slot of a key in its row, under the row's current seed. -/
def slot (dp : DataPlaneLudo) (k : U64) : Slot := seedSlot H (dp.seeds (dp.row H k)) k

def lookupSlot (dp : DataPlaneLudo) (k : U64) : Nat × Slot := (dp.row H k, dp.slot H k)

def updateSeed (dp : DataPlaneLudo) (bktIdx : Nat) (seed : U8) : DataPlaneLudo :=
  { dp with seeds := Function.update dp.seeds bktIdx seed }

theorem row_lt {dp : DataPlaneLudo} (h : 0 < dp.numBuckets) (k : U64) : dp.row H k < dp.numBuckets :=
  fastMapToBuckets_lt _ h _

/-- Reseeding a bucket moves no key to another row. -/
@[simp] theorem updateSeed_row (dp : DataPlaneLudo) (b : Nat) (seed : U8) (k : U64) :
    (dp.updateSeed b seed).row H k = dp.row H k := rfl

/-- Reseeding a bucket moves only its own keys to other slots. -/
theorem updateSeed_slot (dp : DataPlaneLudo) (b : Nat) (seed : U8) (k : U64) :
    (dp.updateSeed b seed).slot H k = if dp.row H k = b then seedSlot H seed k else dp.slot H k := by
  unfold slot
  rw [updateSeed_row]
  by_cases h : dp.row H k = b
  · rw [if_pos h]; subst h; simp [updateSeed]
  · rw [if_neg h]; simp [updateSeed, Function.update_of_ne h]

end DataPlaneLudo

end Outback
