import Outback.Numa.Correctness.PutFrame

/-!
# `Numa.Correctness.KeyUnique` — one slot per key

The store finds duplicates only through the seven-bit fingerprint of the primary slot. **`uniqueKeys_of_reached`**:
from a bulk load of distinct keys, as long as no put inserts a key that some slot refers to already (and no
remove goes through an empty slot into packed entry `0`), no two occupied slots refer to entries with the same
key, in every store reached.
-/

namespace Outback

/-! ## What keeps the keys unique -/

/-- No two occupied slots refer to entries with the same key. -/
def UniqueKeys (st : Store) : Prop :=
  ∀ r s r' s', r < st.lookup.numBuckets → r' < st.lookup.numBuckets → st.Occupied r s → st.Occupied r' s' →
    (st.entryAt r s).key = (st.entryAt r' s').key → r = r' ∧ s = s'

/-- An occupied slot, other than those that `except` names, refers to an entry with key `k`. -/
def HeldElsewhere (st : Store) (k : U64) (except : Nat → Slot → Prop) : Prop :=
  ∃ r s, r < st.lookup.numBuckets ∧ st.Occupied r s ∧ (st.entryAt r s).key = k ∧ ¬ except r s

/-- The condition under which an operation cannot make a second slot for a key. -/
def KeepsUnique (H : HashFn) (st : Store) : NumaOp → Prop
  | .put laneId k _ =>
      match st.status H k with
      | .good | .emptyExists => (st.nextIndex laneId).isSome → ¬ HeldElsewhere st k (fun _ _ => False)
      | .maybeUpdate => True
      | .full => ¬ HeldElsewhere st k (fun r s => r = st.lookup.row H k ∧ s = st.lookup.slot H k)
  | .update _ _ => True
  | .remove k => st.Occupied (st.lookup.row H k) (st.lookup.slot H k) ∨ (st.packed.rawArray 0).key ≠ k

/-! ## One operation -/

section

variable {H : HashFn} {nkeys : Nat} {st st' : Store} {laneId : Nat} {k v : U64}

/-- Only the occupied slots and their keys matter. -/
theorem UniqueKeys.congr (h : UniqueKeys st) (hnb : st'.lookup.numBuckets = st.lookup.numBuckets)
    (hocc : ∀ r s, r < st.lookup.numBuckets → st'.Occupied r s →
      st.Occupied r s ∧ (st'.entryAt r s).key = (st.entryAt r s).key) : UniqueKeys st' := by
  intro r s r' s' hr hr' hs hs' hk
  rw [hnb] at hr hr'
  obtain ⟨ho, he⟩ := hocc r s hr hs
  obtain ⟨ho', he'⟩ := hocc r' s' hr' hs'
  exact h r s r' s' hr hr' ho ho' (by rw [← he, ← he', hk])

/-- Writing an entry back under its own key. -/
theorem UniqueKeys.rewrite (h : UniqueKeys st) (hk : (st.primaryEntry H k).key = k) (l : U32) :
    UniqueKeys (st.setEntry (st.primaryAddr H k) ⟨k, l, v⟩) := by
  refine h.congr rfl fun r s _ hs => ⟨hs, ?_⟩
  rw [Store.setEntry_entryAt]
  split
  · rename_i ha
    rw [Store.entryAt, ha]
    exact hk.symm
  · rfl

/-- A slot that becomes the only one of its key. -/
theorem UniqueKeys.add (h : UniqueKeys st) (r₀ : Nat) (s₀ : Slot)
    (hnb : st'.lookup.numBuckets = st.lookup.numBuckets) (hkey : (st'.entryAt r₀ s₀).key = k)
    (hocc : ∀ r s, r < st.lookup.numBuckets → st'.Occupied r s → ¬ (r = r₀ ∧ s = s₀) →
      st.Occupied r s ∧ (st'.entryAt r s).key = (st.entryAt r s).key ∧ (st.entryAt r s).key ≠ k) :
    UniqueKeys st' := by
  intro r s r' s' hr hr' hs hs' hk
  rw [hnb] at hr hr'
  by_cases h₀ : r = r₀ ∧ s = s₀ <;> by_cases h₀' : r' = r₀ ∧ s' = s₀
  · exact ⟨h₀.1.trans h₀'.1.symm, h₀.2.trans h₀'.2.symm⟩
  · obtain ⟨-, he, hne⟩ := hocc r' s' hr' hs' h₀'
    rw [h₀.1, h₀.2, hkey, he] at hk
    exact absurd hk.symm hne
  · obtain ⟨-, he, hne⟩ := hocc r s hr hs h₀
    rw [h₀'.1, h₀'.2, hkey, he] at hk
    exact absurd hk hne
  · obtain ⟨ho, he, -⟩ := hocc r s hr hs h₀
    obtain ⟨ho', he', -⟩ := hocc r' s' hr' hs' h₀'
    exact h r s r' s' hr hr' ho ho' (by rw [← he, ← he', hk])

theorem UniqueKeys.insertEntry (h : UniqueKeys st) (hinv : StoreInv nkeys st) {idx : Nat}
    (ha : st.nextIndex laneId = some idx) {s : Slot} (hno : ¬ HeldElsewhere st k (fun _ _ => False)) :
    UniqueKeys (st.insertEntry H laneId k v s idx) := by
  have hrow := hinv.row_lt (H := H) k
  refine h.add (k := k) (st.lookup.row H k) s rfl ?_ ?_
  · rw [hinv.insertEntry_entryAt ha hrow, if_pos ⟨rfl, rfl⟩]
  · intro r t hr ht hne
    have hocc : st.Occupied r t := by
      unfold Store.insertEntry at ht
      rw [Store.setWord_occupied, if_neg hne] at ht
      exact ht
    rw [hinv.insertEntry_entryAt ha hr, if_neg hne]
    exact ⟨hocc, rfl, fun e => hno ⟨r, t, hr, hocc, e, id⟩⟩

theorem UniqueKeys.overwrite (h : UniqueKeys st) (hinv : StoreInv nkeys st) (hst : st.status H k = .full) (seed : U8)
    (hno : ¬ HeldElsewhere st k (fun r s => r = st.lookup.row H k ∧ s = st.lookup.slot H k)) :
    UniqueKeys ((st.setEntry (st.primaryAddr H k) ⟨k, 64, v⟩).reseed (st.lookup.row H k) seed) := by
  have hrow := hinv.row_lt (H := H) k
  refine h.add (k := k) (st.lookup.row H k) (st.lookup.slot H k) rfl ?_ ?_
  · show ((st.setEntry _ _).entryAt _ _).key = k
    rw [Store.setEntry_entryAt]
    exact congrArg PackedStruct.key (if_pos rfl)
  · intro r t hr ht hne
    show _ ∧ ((st.setEntry _ _).entryAt r t).key = _ ∧ _
    -- the overwritten entry belongs to the primary slot alone
    have hat : st.addr r t ≠ st.primaryAddr H k := fun e =>
      hne (hinv.distinct _ _ _ _ hr hrow ht (occupied_of_full hst _) e)
    rw [Store.setEntry_entryAt, if_neg hat]
    exact ⟨ht, rfl, fun e => hno ⟨r, t, hr, ht, e, hne⟩⟩

/-- Removing through an occupied primary slot. -/
theorem UniqueKeys.remove (h : UniqueKeys st) (hinv : StoreInv nkeys st)
    (hocc : st.Occupied (st.lookup.row H k) (st.lookup.slot H k)) :
    UniqueKeys ((st.setEntry (st.primaryAddr H k) .zero).setWord (st.lookup.row H k) (st.lookup.slot H k) 0) := by
  have hrow := hinv.row_lt (H := H) k
  refine h.congr rfl fun r s hr hs => ?_
  rw [Store.setWord_occupied] at hs
  split at hs
  · exact absurd hs (by decide)
  · rename_i hne
    have hat : st.addr r s ≠ st.primaryAddr H k := fun e => hne (hinv.distinct _ _ _ _ hr hrow hs hocc e)
    refine ⟨hs, ?_⟩
    rw [Store.entryAt, Store.setWord_addr, if_neg hne]
    show ((st.setEntry _ _).entryAt r s).key = _
    rw [Store.setEntry_entryAt, if_neg hat]

/-- **One step.** -/
theorem UniqueKeys.step (h : UniqueKeys st) (hinv : StoreInv nkeys st) {op : NumaOp} (hg : KeepsUnique H st op)
    (hok : st.step H op = .ok st') : UniqueKeys st' := by
  cases op with
  | put laneId k v =>
      obtain ⟨st'', hok', hc⟩ := numaPut_cases H laneId k v hinv
      obtain rfl : st'' = st' := Except.ok.inj (hok'.symm.trans hok)
      cases hc with
      | noSpace s hs ha => exact h
      | insert s idx hs ha =>
          have hno : ¬ HeldElsewhere st k (fun _ _ => False) := by
            unfold KeepsUnique at hg
            simp only at hg
            split at hg
            · exact hg (by rw [ha]; rfl)
            · exact hg (by rw [ha]; rfl)
            · rename_i hst; simp [Store.putSlot, hst] at hs
            · rename_i hst; simp [Store.putSlot, hst] at hs
          exact h.insertEntry hinv ha hno
      | update hst hk => exact h.rewrite hk 64
      | dropped hst hk => exact h
      | overwrite hst =>
          unfold KeepsUnique at hg
          simp only [hst] at hg
          exact h.overwrite hinv hst _ hg
  | update k v =>
      rcases numaUpdate_cases hok with ⟨-, rfl⟩ | ⟨hk, rfl⟩
      · exact h
      · exact h.rewrite hk 64
  | remove k =>
      rcases numaRemove_cases hok with ⟨-, rfl⟩ | ⟨hk, rfl⟩
      · exact h
      · by_cases hocc : st.Occupied (st.lookup.row H k) (st.lookup.slot H k)
        · exact h.remove hinv hocc
        · have hzero : st.primaryEntry H k = st.packed.rawArray 0 := by
            rw [Store.primaryEntry, Store.entryAt, hinv.addr_of_empty (hinv.row_lt k) hocc]
          rw [hzero] at hk
          exact absurd hk (hg.resolve_left hocc)

end

/-! ## The bulk load -/

section BulkLoad

variable {H : HashFn} {cp : ExactLudo} {existKeys : List U64} {memThreads : Nat} {alien : U64 → Bool}
  {regMem : Nat → PackedStruct} {packedStruct : PackedStruct} {st : Store}

/-- An occupied slot of a bulk load refers to the entry of a loaded key. -/
theorem Loaded.occupied_key (h : Loaded H cp existKeys)
    (hok : setupLudoTable H cp existKeys memThreads alien regMem packedStruct = .ok st) {r : Nat} {s : Slot}
    (hr : r < st.lookup.numBuckets) (hs : st.Occupied r s) : ∃ i : Fin existKeys.length,
      st.addr r s = i ∧ (st.entryAt r s).key = existKeys.get i := by
  obtain ⟨st', hok', hlk, hbk, -, -, -, hload⟩ :=
    setupLudoTable_ok H cp existKeys memThreads alien regMem packedStruct
  obtain rfl : st' = st := Except.ok.inj (hok'.symm.trans hok)
  have hnb : st'.lookup.numBuckets = cp.numBuckets := by rw [hlk]; rfl
  rw [hnb] at hr
  have hocc : occ ((cp.remoteBuckets H).word r s) = true := by
    rw [Store.Occupied, Store.word, hbk] at hs; exact hs
  obtain ⟨t, ht, -, ha⟩ := h.occupied hr hocc
  have haddr : st'.addr r s = ((cp.buckets.get r).values t).toNat := by
    rw [Store.addr, Store.word, hbk]; exact ha
  refine ⟨⟨_, h.value_lt ht⟩, haddr, ?_⟩
  rw [Store.entryAt, haddr]
  exact congrArg PackedStruct.key (hload ⟨_, h.value_lt ht⟩)

/-- A key that was not loaded is in no slot. -/
theorem Loaded.not_held (h : Loaded H cp existKeys)
    (hok : setupLudoTable H cp existKeys memThreads alien regMem packedStruct = .ok st) {k : U64} (hk : k ∉ existKeys)
    (except : Nat → Slot → Prop) : ¬ HeldElsewhere st k except := by
  rintro ⟨r, s, hr, hs, hkey, -⟩
  obtain ⟨i, -, hi⟩ := h.occupied_key hok hr hs
  rw [hkey] at hi
  exact hk (hi ▸ List.get_mem ..)

/-- A bulk load of distinct keys stores each of them in one slot. -/
theorem Loaded.uniqueKeys (h : Loaded H cp existKeys) (hnd : existKeys.Nodup)
    (hok : setupLudoTable H cp existKeys memThreads alien regMem packedStruct = .ok st) : UniqueKeys st := by
  have hinv := h.storeInv hok
  intro r s r' s' hr hr' hs hs' hk
  obtain ⟨i, hi, hki⟩ := h.occupied_key hok hr hs
  obtain ⟨j, hj, hkj⟩ := h.occupied_key hok hr' hs'
  rw [hki, hkj] at hk
  have hij : i = j := hnd.injective_get hk
  exact hinv.distinct r s r' s' hr hr' hs hs' (by rw [hi, hj, hij])

/-! ## Every run -/

/-- **Key uniqueness.** In every store reached from a bulk load of distinct keys by operations that all meet
    `KeepsUnique`, no two occupied slots refer to entries with the same key. -/
theorem uniqueKeys_of_reached (hnd : existKeys.Nodup) (h : ReachedFrom H existKeys (KeepsUnique H) st) :
    UniqueKeys st := by
  obtain ⟨cp, memThreads, alien, regMem, packedStruct, st₀, hld, hok, hrun⟩ := h
  have hpair : StoreInv existKeys.length st ∧ UniqueKeys st := by
    refine hrun.invariant (P := fun st => StoreInv existKeys.length st ∧ UniqueKeys st)
      ⟨hld.storeInv hok, hld.uniqueKeys hnd hok⟩ ?_
    rintro s op t ⟨hinv, huniq⟩ hg hstep
    exact ⟨hinv.step hstep, huniq.step hinv hg hstep⟩
  exact hpair.2

end BulkLoad

/-- Two loaded keys of row 31, a put of the key 540, which goes there too, an update of one and a removal of the other. -/
theorem uniqueKeys_of_reached_three : ∃ st, ReachedFrom fastHasher64 [0, 301] (KeepsUnique fastHasher64) st ∧
    [(0 : U64), 301].Nodup ∧ (st.Occupied 31 1 ∧ st.entryAt 31 1 = ⟨0, 64, 6⟩) ∧
    (st.Occupied 31 3 ∧ st.entryAt 31 3 = ⟨540, 8, 5⟩) ∧ ¬ st.Occupied 31 2 ∧ UniqueKeys st := by
  have hok := rowStore_setup 31 0 [0, 301]
  have hput : KeepsUnique fastHasher64 (rowStore 31 0 [0, 301]) (.put 0 540 5) :=
    fun _ => rowTable_pair.not_held hok (by decide) _
  have hstart : Lib.Reaches (Store.step fastHasher64) (KeepsUnique fastHasher64) (rowStore 31 0 [0, 301]) _ := .refl
  have hrun₁ := hstart.snoc hput rfl
  have hrun₂ := hrun₁.snoc (a := .update 0 6) trivial rfl
  have hrun₃ := hrun₂.snoc (a := .remove 301) (Or.inl rfl) rfl
  have hreach := (⟨_, _, _, _, _, _, rowTable_pair, hok, hrun₃⟩ : ReachedFrom fastHasher64 [0, 301] _ _)
  exact ⟨_, hreach, by decide, by decide, by decide, by decide, uniqueKeys_of_reached (by decide) hreach⟩

/-- Loaded key 7, put of key 7: the bulk load's word has fingerprint 0, so the key gets a second slot. -/
theorem numaPut_duplicates : ∃ st, [(7 : U64)].Nodup ∧ ReachedFrom fastHasher64 [7] Lib.anyStep st ∧
    ¬ UniqueKeys st := by
  obtain ⟨cp, m, alien, mem, g, st₀, hld, hok, hrun⟩ := rowStore_seven Lib.anyStep
  refine ⟨_, by decide, ⟨cp, m, alien, mem, g, st₀, hld, hok, hrun.snoc (a := .put 0 7 99) trivial rfl⟩, ?_⟩
  intro h
  exact absurd (h 423 1 423 0 (by decide) (by decide) rfl rfl rfl).2 (by decide)

end Outback
