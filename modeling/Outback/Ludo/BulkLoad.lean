import Outback.Ludo.ControlPlane

/-!
# `Ludo.BulkLoad` — the control plane a bulk load ends up with

The servers insert `exist_keys[i]` with value `i` into a fresh `ludo_maintenance_t(1024)`. `Loaded` is what the rest
of the development uses of the result; the insertions are shown to end in it in `calm_load_loaded`. `rowTable` is the
table of a few keys that share one bucket, for concrete runs.
-/

namespace Outback

/-- The control plane `setup_ludo_table` ends up with after inserting `existKeys[i]` with value `i`: it
    keeps its invariant, every stored pair is one of those that were inserted, and no pair is stored twice.
    The design supports `2 ^ 32` keys. -/
structure Loaded (H : HashFn) (cp : ExactLudo) (existKeys : List U64) : Prop where
  inv : cp.Inv H
  bound : existKeys.length ≤ 2 ^ 32
  stored : ∀ b s, cp.Stored b s → ∃ i : Fin existKeys.length,
    (cp.buckets.get b).keys s = existKeys.get i ∧ (cp.buckets.get b).values s = BitVec.ofNat 64 i
  distinct : ∀ b s b' s', cp.Stored b s → cp.Stored b' s' →
    (cp.buckets.get b).values s = (cp.buckets.get b').values s' → b = b' ∧ s = s'

section Loaded

variable {H : HashFn} {cp : ExactLudo} {existKeys : List U64}

/-- A stored pair's word carries its value as the address. -/
theorem Loaded.value_lt (h : Loaded H cp existKeys) {b : Nat} {s : Slot} (hs : cp.Stored b s) :
    ((cp.buckets.get b).values s).toNat < existKeys.length := by
  obtain ⟨i, -, hv⟩ := h.stored b s hs
  have hi := i.isLt
  have hb := h.bound
  rw [hv, BitVec.toNat_ofNat]
  exact lt_of_le_of_lt (Nat.mod_le _ _) hi

/-- An occupied slot of the generated buckets comes from a stored pair. -/
theorem Loaded.occupied (h : Loaded H cp existKeys) {r : Nat} (hr : r < cp.numBuckets) {t : Slot}
    (hocc : occ ((cp.remoteBuckets H).word r t) = true) :
    ∃ s, cp.Stored r s ∧ seedSlot H (cp.buckets.get r).seed ((cp.buckets.get r).keys s) = t ∧
      addrOf ((cp.remoteBuckets H).word r t) = ((cp.buckets.get r).values s).toNat := by
  rcases h.inv.seedsSeparate.remoteBuckets_word hr t with hz | ⟨s, hs, ht, hw⟩
  · rw [hz] at hocc
    exact absurd hocc (by decide)
  · have hlt := h.value_lt hs
    have hb := h.bound
    exact ⟨s, hs, ht, by rw [hw, addrOf_bulkWord (by omega)]⟩

end Loaded

/-- The control plane after a bulk load of at most four keys that all go to bucket `b`, their first
    candidate: `ludo_maintenance_t(1024)` has 512 buckets, the keys fill the slots in order. -/
def rowTable (b : Nat) (seed : U8) (existKeys : List U64) : ExactLudo where
  numBuckets := 512
  hSeed := defaultHSeed
  nKeys := existKeys.length
  capacity := 1945
  buckets := ⟨512, fun r => if r = b then
    ⟨seed, fun s => s.val < existKeys.length, fun s => existKeys.getD s 0, fun s => BitVec.ofNat 64 s⟩ else .empty⟩
  oldBuckets := ⟨⟨0, fun _ => .empty⟩, 0, 0⟩
  integrity := true
  locator := fun k => if k ∈ existKeys then some false else none

section RowTable

variable {H : HashFn} {b : Nat} {seed : U8} {existKeys : List U64}

/-- The slots in use are those of the keys. -/
theorem rowTable_stored {r : Nat} {s : Slot} (hs : (rowTable b seed existKeys).Stored r s) :
    r = b ∧ ∃ hlt : s.val < existKeys.length,
      ((rowTable b seed existKeys).buckets.get r).keys s = existKeys.get ⟨s, hlt⟩ ∧
      ((rowTable b seed existKeys).buckets.get r).values s = BitVec.ofNat 64 s := by
  obtain ⟨-, hs⟩ := hs
  simp only [rowTable] at hs ⊢
  by_cases hr : r = b
  · rw [if_pos hr] at hs ⊢
    have hlt : s.val < existKeys.length := by simpa using hs
    exact ⟨hr, hlt, by simp [hlt], rfl⟩
  · rw [if_neg hr] at hs
    exact absurd hs (by simp [CpBucket.empty])

/-- It is a bulk-loaded table, once its keys do go to that bucket and the seed separates them. -/
theorem rowTable_loaded (hlen : existKeys.length ≤ 4)
    (hrow : existKeys.map (fun k => fastMapToBuckets (H defaultHSeed k) 512 false)
      = List.replicate existKeys.length b)
    (hsep : ∀ i j : Fin existKeys.length,
      seedSlot H seed (existKeys.get i) = seedSlot H seed (existKeys.get j) → i = j) :
    Loaded H (rowTable b seed existKeys) existKeys where
  inv := by
    refine ⟨⟨3, rfl⟩, rfl, ?_, ?_⟩
    · intro r s hs
      obtain ⟨rfl, hlt, hk, -⟩ := rowTable_stored hs
      have hmem : existKeys.get ⟨s, hlt⟩ ∈ existKeys := List.get_mem ..
      have hb := List.mem_map_of_mem (f := fun k => fastMapToBuckets (H defaultHSeed k) 512 false) hmem
      rw [hrow] at hb
      rw [hk]
      exact ⟨false, if_pos hmem, List.eq_of_mem_replicate hb⟩
    · intro r s t hs ht heq
      obtain ⟨rfl, hls, hks, -⟩ := rowTable_stored hs
      obtain ⟨-, hlt, hkt, -⟩ := rowTable_stored ht
      rw [hks, hkt] at heq
      simp only [rowTable, if_true] at heq
      exact Fin.ext (Fin.mk.inj (hsep ⟨s, hls⟩ ⟨t, hlt⟩ heq))
  bound := by omega
  stored := by
    intro r s hs
    obtain ⟨rfl, hlt, hk, hv⟩ := rowTable_stored hs
    exact ⟨⟨s, hlt⟩, hk, hv⟩
  distinct := by
    intro r s r' s' hs hs' hv
    obtain ⟨rfl, -, -, hvs⟩ := rowTable_stored hs
    obtain ⟨rfl, -, -, hvs'⟩ := rowTable_stored hs'
    rw [hvs, hvs'] at hv
    have h1 : s.val < 2 ^ 64 := by omega
    have h2 : s'.val < 2 ^ 64 := by omega
    have := congrArg BitVec.toNat hv
    rw [BitVec.toNat_ofNat, BitVec.toNat_ofNat, Nat.mod_eq_of_lt h1, Nat.mod_eq_of_lt h2] at this
    exact ⟨rfl, Fin.ext this⟩

end RowTable

/-! ## Tables of a few keys -/

/-- Key 7 alone: row 423. -/
theorem rowTable_seven : Loaded fastHasher64 (rowTable 423 0 [7]) [7] :=
  rowTable_loaded (by decide) rfl (by decide +kernel)

/-- Two keys of row 31, which seed 0 separates. -/
theorem rowTable_pair : Loaded fastHasher64 (rowTable 31 0 [0, 301]) [0, 301] :=
  rowTable_loaded (by decide) rfl (by decide +kernel)

/-- Four keys that fill row 31; seed 2 is the first one that separates them. -/
theorem rowTable_full : Loaded fastHasher64 (rowTable 31 2 [0, 301, 540, 938]) [0, 301, 540, 938] :=
  rowTable_loaded (by decide) rfl (by decide +kernel)

end Outback
