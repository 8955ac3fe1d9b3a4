import Outback.Rdma.Correctness.PlacementInv

/-!
# `Rdma.Correctness.PutExit` — when a PUT ends the server

The reseeding case of `outback_put_callback` looks for a seed that separates the keys of the row and the new one, and
calls `exit` when there is none. It takes the new key for absent from the row because the primary slot's fingerprint is
another; the loader's words have fingerprint `0`, so a loaded key that is put again is in the list twice, and no seed
separates it from itself. **`putServed_iff`**: with room for an entry, and keys of the row that some seed separates, a
PUT is answered exactly when it does not come to that.
-/

namespace Outback

open RdmaServer

/-- The requests of such a run. -/
def PutsAndUpdates (_ : RdmaServer) : Request → Prop
  | .put _ _ _ | .update _ _ _ => True
  | .get _ _ | .remove _ _ => False

/-- The keys of the occupied slots of a row, in slot order. -/
def RdmaServer.bucketKeys (s : RdmaServer) (r : Nat) : List U64 :=
  (s.buckets.bucketsArray r).readBucketAddrs.map fun w => (s.packed.rawArray (addrOf w)).key

/-- The row has, together with `k`, at most four distinct keys, and a seed in `0 .. 254` separates them. -/
def RowSeparable (H : HashFn) (s : RdmaServer) (r : Nat) (k : U64) : Prop :=
  (s.rowKeys r k).dedup.length ≤ 4 ∧ ∃ seed : U8, seed.toNat < 255 ∧
    ∀ k₁ ∈ s.rowKeys r k, ∀ k₂ ∈ s.rowKeys r k, seedSlot H seed k₁ = seedSlot H seed k₂ → k₁ = k₂

/-- The PUT is answered, and the key list that it tries to separate, if it tries, has at most four elements, all
    different. -/
def PutServed (H : HashFn) (s : RdmaServer) (loc : Nat) (k v : U64) : Prop :=
  (∃ s' rep, s.handle H (.put loc k v) = .ok (s', rep)) ∧
  (s.status H (locRow loc) k = .emptyExists →
    (s.rowKeys (locRow loc) k).length ≤ 4 ∧ (s.rowKeys (locRow loc) k).Nodup)

section

variable {H : HashFn} {s s' : RdmaServer} {k v : U64}

theorem rowKeys_eq (s : RdmaServer) (r : Nat) (k : U64) : s.rowKeys r k = s.bucketKeys r ++ [k] := rfl

/-- Different keys that a seed sends to different slots are separated by the loop. -/
theorem forceSeed_isSome {keys : List U64} (hnd : keys.Nodup) {seed : U8} (hlt : seed.toNat < 255)
    (hinj : ∀ k₁ ∈ keys, ∀ k₂ ∈ keys, seedSlot H seed k₁ = seedSlot H seed k₂ → k₁ = k₂) :
    ∃ found, forceSeed H keys = some found := by
  refine Option.isSome_iff_exists.mp ?_
  unfold forceSeed
  rw [List.find?_isSome]
  refine ⟨seed, List.mem_map.mpr ⟨seed.toNat, List.mem_range.mpr hlt, BitVec.ofNat_toNat .. |>.trans (by simp)⟩, ?_⟩
  exact separates_iff.mpr ⟨hnd.map_on hinj, fun _ _ => rfl⟩

/-! ## The placement invariant while the indices fit into 32 bits -/

/-- An effect that does not move the counter writes an entry over one of the same key. -/
theorem Placement.effect {req : Request} (h : Placement H s) (hreq : PutsAndUpdates s req) (he : Effect H s req s')
    (hnum : s'.packed.num ≤ 2 ^ 32) : Placement H s' := by
  cases he with
  | read | erase hk | absent hk => exact absurd hreq id
  | insert hst hroom => exact h.carries (h.carries_insert hnum _)
  | rewrite hst hk => exact h.carries (h.carries_rewrite hk 0)
  | collide hst hk hroom => exact h.carries (h.carries_divert 0)
  | reseed hst seed hseed hroom => exact h.carries (h.carries_reseed hnum hseed)
  | overflow hst hroom => exact h.carries (h.carries_overflow _ _)
  | update hk => exact h.carries (h.carries_rewrite hk 0)
  | miss hk hroom => exact h.carries (h.carries_divert 0)

theorem Effect.num_le {req : Request} (he : Effect H s req s') : s.packed.num ≤ s'.packed.num := by
  cases he with
  | read | rewrite | update | erase | absent => exact Nat.le_refl _
  | insert | collide | reseed | overflow | miss => exact Nat.le_succ _

/-- **The whole run.** While no more than `2^32` entries have been loaded. -/
theorem RdmaReachedFrom.placement {existKeys : List U64} (h : RdmaReachedFrom H existKeys PutsAndUpdates s)
    (hnum : s.packed.num ≤ 2 ^ 32) : Placement H s := by
  obtain ⟨cp, alien, mem, s₀, hld, hok, hrun⟩ := h
  refine hrun.invariant (P := fun s => s.packed.num ≤ 2 ^ 32 → Placement H s) (fun _ => hld.placement hok) ?_ hnum
  intro s req s' hpl hreq hstep hnum'
  have he := step_effect hstep
  exact (hpl (he.num_le.trans hnum')).effect hreq he hnum'

/-- The keys of a row are different. -/
theorem Placement.bucketKeys_nodup (h : Placement H s) {r : Nat} (hr : r < s.buckets.numElements) :
    (s.bucketKeys r).Nodup := by
  unfold RdmaServer.bucketKeys LudoBucket.readBucketAddrs
  rw [List.map_map]
  refine List.Nodup.map_on ?_ ((List.nodup_finRange 4).filter _)
  intro t ht t' ht' hk
  exact h.keys r t t' hr (List.mem_filter.mp ht).2 (List.mem_filter.mp ht').2 hk

/-! ## The callback -/

/-- A row with an empty slot has at most three keys. -/
theorem length_rowKeys {r : Nat} (hst : s.status H r k = .emptyExists) : (s.rowKeys r k).length ≤ 4 := by
  have hempty : ∃ t, occ ((s.buckets.bucketsArray r).slots t) = false := by
    by_contra hnone
    push Not at hnone
    unfold RdmaServer.status LudoBucket.checkSlots at hst
    split at hst
    · cases hst
    · split at hst
      · cases hst
      · split at hst
        · rename_i hany
          obtain ⟨t, -, ht⟩ := List.any_eq_true.mp hany
          simp [hnone t] at ht
        · cases hst
  obtain ⟨t, ht⟩ := hempty
  rw [rowKeys_eq, List.length_append]
  unfold RdmaServer.bucketKeys LudoBucket.readBucketAddrs
  rw [List.length_map, List.length_map]
  have hlt := List.length_filter_lt_length_iff_exists (l := List.finRange 4)
    (p := fun t => occ ((s.buckets.bucketsArray r).slots t)).mpr ⟨t, List.mem_finRange t, by simp [ht]⟩
  rw [List.length_finRange] at hlt
  simp only [List.length_singleton]
  omega

theorem readBatchKeys_ok {pd : PackedData} {words : List U64} (h : ∀ w ∈ words, addrOf w < pd.numElements) :
    pd.readBatchKeys words = .ok (words.map fun w => (pd.rawArray (addrOf w)).key) := by
  induction words with
  | nil => rfl
  | cons w words ih =>
      have ih := ih fun u hu => h u (List.mem_cons_of_mem w hu)
      unfold PackedData.readBatchKeys at ih ⊢
      rw [List.mapM_cons, PackedData.readKey_ok (h w (List.mem_cons_self ..)), ih]
      rfl

/-- The reseeding case, as far as the loop. -/
theorem RdmaWf.reseedBucket_eq (h : RdmaWf s) {r : Nat} (hr : r < s.buckets.numElements)
    (hroom : s.packed.num < s.packed.numElements) : s.reseedBucket H r k v
      = match forceSeed H (s.rowKeys r k) with
        | some seed => .ok (s.reseed H r k v seed, ⟨true, (1 <<< 8) + seed.setWidth 64⟩)
        | none => .error .exited := by
  have hkeys : s.packed.readBatchKeys (s.buckets.bucketsArray r).readBucketAddrs = .ok (s.bucketKeys r) := by
    refine readBatchKeys_ok fun w hw => ?_
    obtain ⟨t, ht, rfl⟩ := mem_readBucketAddrs.mp hw
    exact (h.addr_lt r t (h.buckets ▸ hr) ht).trans_le h.room
  unfold RdmaServer.reseedBucket
  simp only [LudoBuckets.row_ok hr, Exec.ok_bind, hkeys, PackedData.bulkLoadData_ok hroom]
  rfl

/-- Outside the reseeding case a PUT with room is answered. -/
theorem RdmaWf.put_answered (h : RdmaWf s) {loc : Nat} (hr : locRow loc < s.buckets.numElements)
    (hroom : s.packed.num < s.packed.numElements) (hst : s.status H (locRow loc) k ≠ .emptyExists) :
    ∃ s' rep, s.handle H (.put loc k v) = .ok (s', rep) := by
  change ∃ s' rep, s.outbackPutCallback H loc k v = .ok (s', rep)
  unfold RdmaServer.outbackPutCallback
  have hdef : (s.buckets.bucketsArray (locRow loc)).checkSlots H k (seedSlot H (s.lookup.seeds (locRow loc)) k)
      = s.status H (locRow loc) k := rfl
  simp only [LudoBuckets.row_ok hr, Exec.ok_bind, hdef]
  cases hstatus : s.status H (locRow loc) k with
  | good =>
      simp only [PackedData.bulkLoadData_ok hroom, Exec.ok_bind]
      exact ⟨_, _, rfl⟩
  | maybeUpdate =>
      have hocc : s.Occupied (locRow loc) (s.slot H (locRow loc) k) := (LudoBucket.checkSlots_maybeUpdate_iff.mp hstatus).1
      have hlt : addrOf ((s.buckets.bucketsArray (locRow loc)).slots (seedSlot H (s.lookup.seeds (locRow loc)) k))
          < s.packed.numElements := (h.addr_lt _ _ (h.buckets ▸ hr) hocc).trans_le h.room
      simp only [PackedData.readKey_ok hlt, Exec.ok_bind]
      split
      · simp only [PackedData.updateData_ok hlt, Exec.ok_bind]
        exact ⟨_, _, rfl⟩
      · simp only [PackedData.bulkLoadData_ok hroom, Exec.ok_bind]
        exact ⟨_, _, rfl⟩
  | emptyExists => exact absurd hstatus hst
  | full =>
      simp only [PackedData.bulkLoadData_ok hroom, Exec.ok_bind]
      exact ⟨_, _, rfl⟩

theorem handle_put_emptyExists {loc : Nat} (hr : locRow loc < s.buckets.numElements)
    (hst : s.status H (locRow loc) k = .emptyExists) :
    s.handle H (.put loc k v) = s.reseedBucket H (locRow loc) k v := by
  change s.outbackPutCallback H loc k v = _
  unfold RdmaServer.outbackPutCallback
  have hdef : (s.buckets.bucketsArray (locRow loc)).checkSlots H k (seedSlot H (s.lookup.seeds (locRow loc)) k)
      = s.status H (locRow loc) k := rfl
  simp only [LudoBuckets.row_ok hr, Exec.ok_bind, hdef, hst]

/-- In the reseeding case it is answered exactly when the loop finds a seed. -/
theorem RdmaWf.put_reseeds (h : RdmaWf s) {loc : Nat} (hr : locRow loc < s.buckets.numElements)
    (hroom : s.packed.num < s.packed.numElements) (hst : s.status H (locRow loc) k = .emptyExists) :
    (∃ s' rep, s.handle H (.put loc k v) = .ok (s', rep)) ↔ ∃ seed, forceSeed H (s.rowKeys (locRow loc) k) = some seed := by
  rw [handle_put_emptyExists hr hst, h.reseedBucket_eq hr hroom]
  cases forceSeed H (s.rowKeys (locRow loc) k) with
  | some seed => exact iff_of_true ⟨_, _, rfl⟩ ⟨seed, rfl⟩
  | none => exact iff_of_false (by rintro ⟨_, _, he⟩; cases he) (by rintro ⟨_, he⟩; cases he)

/-- **A PUT that is answered.** In every server reached by puts and updates, with room for one entry and a row that some
    seed separates. The last condition holds by itself until the entries outnumber the 32-bit indices. -/
theorem putServed_iff {existKeys : List U64} (h : RdmaReachedFrom H existKeys PutsAndUpdates s) (v : U64) {loc : Nat}
    (hr : locRow loc < s.buckets.numElements) (hroom : s.packed.num < s.packed.numElements)
    (hsep : RowSeparable H s (locRow loc) k) :
    PutServed H s loc k v ↔ s.status H (locRow loc) k ≠ .emptyExists ∨
      k ∉ s.bucketKeys (locRow loc) ∧ (2 ^ 32 < s.packed.num → (s.bucketKeys (locRow loc)).Nodup) := by
  have hwf := h.rdmaWf
  unfold PutServed
  by_cases hst : s.status H (locRow loc) k = .emptyExists
  · have hnodup : (s.rowKeys (locRow loc) k).Nodup ↔ k ∉ s.bucketKeys (locRow loc) ∧
        (2 ^ 32 < s.packed.num → (s.bucketKeys (locRow loc)).Nodup) := by
      rw [rowKeys_eq, List.nodup_append_comm, List.singleton_append, List.nodup_cons]
      refine and_congr_right fun _ => ⟨fun hnd _ => hnd, fun himp => ?_⟩
      by_cases hnum : s.packed.num ≤ 2 ^ 32
      · exact (h.placement hnum).bucketKeys_nodup hr
      · exact himp (Nat.lt_of_not_le hnum)
    rw [← hnodup, hwf.put_reseeds hr hroom hst]
    constructor
    · rintro ⟨-, hlist⟩
      exact .inr (hlist hst).2
    · rintro (hne | hnd)
      · exact absurd hst hne
      · obtain ⟨-, seed, hlt, hinj⟩ := hsep
        exact ⟨forceSeed_isSome hnd hlt hinj, fun _ => ⟨length_rowKeys hst, hnd⟩⟩
  · exact iff_of_true ⟨hwf.put_answered hr hroom hst, fun e => absurd e hst⟩ (.inl hst)

end

/-- Behind a put of key 2054 the row holds three keys, and a put of key 3038, whose row it is as well, reseeds it once
    more. -/
theorem putServed_iff_pair : RdmaReachedFrom fastHasher64 [7, 542] PutsAndUpdates pairServerPut ∧
    pairServerPut.lookup.row fastHasher64 3038 = 423 ∧ pairServerPut.bucketKeys 423 = [2054, 542, 7] ∧
    pairServerPut.status fastHasher64 423 3038 = .emptyExists ∧ PutServed fastHasher64 pairServerPut 1692 3038 6 := by
  have hreach : RdmaReachedFrom fastHasher64 [7, 542] PutsAndUpdates pairServerPut :=
    ⟨rowTable 423 0 [7, 542], fun _ => false, fun _ => .zero, pairServer, pairServer_loaded, rowServer_setup _ _ _,
      Lib.Reaches.snoc (a := .put (4 * 423) 2054 5) .refl trivial pairServer_step⟩
  have hkeys : pairServerPut.bucketKeys (locRow 1692) = [2054, 542, 7] := by decide +kernel
  have hsep : RowSeparable fastHasher64 pairServerPut (locRow 1692) 3038 := by
    refine ⟨by decide +kernel, 10, by decide, fun _ h₁ _ h₂ => ?_⟩
    exact List.inj_on_of_nodup_map (by decide +kernel) h₁ h₂
  have hrow : locRow 1692 < pairServerPut.buckets.numElements := by decide +kernel
  have hroom : pairServerPut.packed.num < pairServerPut.packed.numElements := by decide +kernel
  refine ⟨hreach, by decide +kernel, hkeys, by decide +kernel, (putServed_iff hreach 6 hrow hroom hsep).mpr (.inr ?_)⟩
  rw [hkeys]
  exact ⟨by decide, fun _ => by decide⟩

/-- The loaded key 7, put again: the loader's word has fingerprint `0`, so the loop gets the key twice. -/
theorem reput_exits : ∃ s, [(7 : U64)].Nodup ∧ RdmaReachedFrom fastHasher64 [7] PutsAndUpdates s ∧
    s.lookup.row fastHasher64 7 = 423 ∧ s.packed.num < s.packed.numElements ∧ RowSeparable fastHasher64 s 423 7 ∧
    s.handle fastHasher64 (.put 1692 7 5) = .error .exited ∧ ¬ PutServed fastHasher64 s 1692 7 5 := by
  have hkeys : (rowServer 423 0 [7]).rowKeys 423 7 = [7, 7] := by decide +kernel
  have hroom : (rowServer 423 0 [7]).packed.num < (rowServer 423 0 [7]).packed.numElements := by decide +kernel
  have hsep : RowSeparable fastHasher64 (rowServer 423 0 [7]) 423 7 := by
    refine ⟨by rw [hkeys]; decide, 0, by decide, fun k₁ h₁ k₂ h₂ _ => ?_⟩
    rw [hkeys] at h₁ h₂
    simp only [List.mem_cons, List.not_mem_nil, or_false, or_self] at h₁ h₂
    rw [h₁, h₂]
  have hrow : locRow 1692 < (rowServer 423 0 [7]).buckets.numElements := by decide +kernel
  have hseed : forceSeed fastHasher64 ((rowServer 423 0 [7]).rowKeys (locRow 1692) 7) = none := by decide +kernel
  have hexit : (rowServer 423 0 [7]).handle fastHasher64 (.put 1692 7 5) = .error .exited := by
    rw [handle_put_emptyExists hrow (by decide +kernel), (rowServer_seven Lib.anyStep).rdmaWf.reseedBucket_eq hrow hroom,
      hseed]
  refine ⟨rowServer 423 0 [7], by decide, rowServer_seven _, by decide +kernel, hroom, hsep, hexit, ?_⟩
  rintro ⟨⟨s', rep, hok⟩, -⟩
  rw [hexit] at hok
  cases hok

end Outback
