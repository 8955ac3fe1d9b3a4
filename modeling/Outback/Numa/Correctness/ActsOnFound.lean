import Outback.Numa.Correctness.SearchExact

/-!
# `Numa.Correctness.ActsOnFound` — update and remove on a key that a search finds

`numa_search` probes the primary slot and then scans the row; `numa_update` and `numa_remove` look at the primary slot
only. **`actsOnFound_iff`**: for a key that a search finds, an update is seen by the next search and a remove hides the
key exactly when the primary entry has the key, no other slot that the scan visits does, and what an emptied primary
slot reads, packed entry `0`, has another key afterwards.
-/

namespace Outback

/-- After `numa_update(k, w)` a search finds `w`, and after `numa_remove(k)` it finds nothing. -/
def ActsOnFound (H : HashFn) (st : Store) (k : U64) : Prop :=
  (∀ w, ∃ st', st.numaUpdate H k w = .ok st' ∧ st'.numaSearch H k = .ok (some w)) ∧
  ∃ st', st.numaRemove H k = .ok st' ∧ st'.numaSearch H k = .ok none

/-- The primary entry is the only one through which a search can find the key, also after it has been zeroed. -/
structure OnlyPrimary (H : HashFn) (st : Store) (k : U64) : Prop where
  primary : (st.primaryEntry H k).key = k
  others : ∀ s, s ≠ st.lookup.slot H k → st.addr (st.lookup.row H k) s ≠ 0 → (st.entryAt (st.lookup.row H k) s).key ≠ k
  /-- an emptied slot reads packed entry `0` -/
  first : if st.primaryAddr H k = 0 then k ≠ 0 else (st.packed.rawArray 0).key ≠ k

section

variable {H : HashFn} {nkeys : Nat} {st : Store} {k v : U64}

/-- A store with packed entries finishes every writing operation. -/
theorem StoreInv.step_returns (h : StoreInv nkeys st) (hn : 0 < nkeys) (op : NumaOp) : ∃ st', st.step H op = .ok st' :=
  Outback.step_returns st op (h.buckets ▸ h.row_lt op.key) (fun t => h.addr_lt hn t (h.row_lt op.key))
    (by rw [h.entries, h.packed])

/-- What an answered search has read lies in the packed array. -/
theorem StoreInv.nkeys_pos_of_search (h : StoreInv nkeys st) {res : Option U64} (hs : st.numaSearch H k = .ok res) :
    0 < nkeys := by
  obtain ⟨b, -, hrest⟩ := Lib.bind_eq_ok.mp hs
  obtain ⟨e, he, -⟩ := Lib.bind_eq_ok.mp hrest
  have hlt := (PackedData.entry_eq_ok he).1
  rw [h.packed] at hlt
  omega

/-- An update of the primary entry is what the next search answers. -/
theorem StoreInv.search_update (h : StoreInv nkeys st) (hn : 0 < nkeys) (hk : (st.primaryEntry H k).key = k) (w : U64) :
    ∃ st', st.numaUpdate H k w = .ok st' ∧ st'.numaSearch H k = .ok (some w) := by
  obtain ⟨st', hok⟩ := h.step_returns (H := H) hn (.update k w)
  refine ⟨st', hok, ?_⟩
  rcases numaUpdate_cases hok with ⟨hne, -⟩ | ⟨-, rfl⟩
  · exact absurd hk hne
  · have hent : (st.setEntry (st.primaryAddr H k) ⟨k, 64, w⟩).entryAt (st.lookup.row H k) (st.lookup.slot H k)
        = ⟨k, 64, w⟩ := by
      rw [Store.setEntry_entryAt]
      exact if_pos rfl
    rw [(h.setEntry _ _).numaSearch_ok hn k, Store.probe, Store.probeOrder]
    exact congrArg Except.ok ((answer_cons_of_eq (congrArg PackedStruct.key hent)).trans
      (congrArg (fun e => some e.data) hent))

/-- The store after a remove that took effect. -/
def Store.removed (H : HashFn) (st : Store) (k : U64) : Store :=
  (st.setEntry (st.primaryAddr H k) .zero).setWord (st.lookup.row H k) (st.lookup.slot H k) 0

theorem removed_addr (s : Slot) : (st.removed H k).addr (st.lookup.row H k) s
    = if s = st.lookup.slot H k then 0 else st.addr (st.lookup.row H k) s := by
  unfold Store.removed
  rw [Store.setWord_addr, addrOf_zero]
  simp only [true_and]
  rfl

/-- The emptied primary slot reads packed entry `0`. -/
theorem removed_primary : (st.removed H k).entryAt (st.lookup.row H k) (st.lookup.slot H k)
    = if st.primaryAddr H k = 0 then .zero else st.packed.rawArray 0 := by
  unfold Store.entryAt
  rw [removed_addr, if_pos rfl]
  change Function.update st.packed.rawArray (st.primaryAddr H k) .zero 0 = _
  rw [Function.update_apply]
  by_cases ha : st.primaryAddr H k = 0
  · rw [if_pos ha, if_pos ha.symm]
  · rw [if_neg ha, if_neg (Ne.symm ha)]

/-- The other visited slots keep their entries: none of them shares the primary slot's index. -/
theorem StoreInv.removed_other (h : StoreInv nkeys st) {s : Slot} (hs : s ≠ st.lookup.slot H k)
    (ha : st.addr (st.lookup.row H k) s ≠ 0) :
    (st.removed H k).entryAt (st.lookup.row H k) s = st.entryAt (st.lookup.row H k) s := by
  have hrow := h.row_lt (H := H) k
  have hne : st.addr (st.lookup.row H k) s ≠ st.primaryAddr H k := by
    intro heq
    have hocc := h.occupied_of_addr hrow ha
    have hoccp : st.Occupied (st.lookup.row H k) (st.lookup.slot H k) := h.occupied_of_addr hrow fun e => ha (heq.trans e)
    exact hs (h.distinct _ _ _ _ hrow hrow hocc hoccp heq).2
  unfold Store.entryAt
  rw [removed_addr, if_neg hs]
  exact Function.update_of_ne hne ..

/-- After a remove that took effect, a search finds nothing exactly under the other two conditions. -/
theorem StoreInv.search_removed (h : StoreInv nkeys st) (hn : 0 < nkeys) :
    (st.removed H k).numaSearch H k = .ok none ↔
      (∀ s, s ≠ st.lookup.slot H k → st.addr (st.lookup.row H k) s ≠ 0 →
        (st.entryAt (st.lookup.row H k) s).key ≠ k) ∧
      (if st.primaryAddr H k = 0 then k ≠ 0 else (st.packed.rawArray 0).key ≠ k) := by
  have hinv : StoreInv nkeys (st.removed H k) := (h.setEntry _ _).clear _ _
  have hsearch : (st.removed H k).numaSearch H k
      = .ok ((st.removed H k).probe (st.lookup.row H k) (st.lookup.slot H k) k) := hinv.numaSearch_ok hn k
  have hnone : (st.removed H k).numaSearch H k = .ok none ↔ ∀ s,
      (s = st.lookup.slot H k ∨ (st.removed H k).addr (st.lookup.row H k) s ≠ 0) →
      ((st.removed H k).entryAt (st.lookup.row H k) s).key ≠ k := by
    rw [hsearch]
    unfold Store.probe answer
    constructor
    · intro heq s hs
      have hfind := Option.map_eq_none_iff.mp (Except.ok.inj heq)
      simpa using List.find?_eq_none.mp hfind s (mem_probeOrder.mpr hs)
    · intro hall
      rw [List.find?_eq_none.mpr fun s hs => by simpa using hall s (mem_probeOrder.mp hs)]
      rfl
  have hprimary : ((st.removed H k).entryAt (st.lookup.row H k) (st.lookup.slot H k)).key ≠ k ↔
      if st.primaryAddr H k = 0 then k ≠ 0 else (st.packed.rawArray 0).key ≠ k := by
    rw [removed_primary]
    split
    · exact ne_comm
    · rfl
  rw [hnone]
  constructor
  · intro hall
    refine ⟨fun s hs ha => ?_, hprimary.mp (hall _ (.inl rfl))⟩
    rw [← h.removed_other hs ha]
    exact hall s (.inr (by rwa [removed_addr, if_neg hs]))
  · rintro ⟨hothers, hfirst⟩ s hs
    by_cases hsp : s = st.lookup.slot H k
    · subst hsp
      exact hprimary.mpr hfirst
    · have ha : st.addr (st.lookup.row H k) s ≠ 0 := by
        have := hs.resolve_left hsp
        rwa [removed_addr, if_neg hsp] at this
      rw [h.removed_other hsp ha]
      exact hothers s hsp ha

/-- **Update and remove of a found key.** In every store reached from a bulk load, for every key that a search finds. -/
theorem actsOnFound_iff {existKeys : List U64} (h : ReachedFrom H existKeys Lib.anyStep st)
    (hfound : st.numaSearch H k = .ok (some v)) : ActsOnFound H st k ↔ OnlyPrimary H st k := by
  have hinv := h.storeInv
  have hn := hinv.nkeys_pos_of_search hfound
  constructor
  · rintro ⟨-, st', hok, hnone⟩
    rcases numaRemove_cases hok with ⟨-, rfl⟩ | ⟨hk, rfl⟩
    · -- the remove did nothing
      rw [hfound] at hnone
      cases hnone
    · obtain ⟨hothers, hfirst⟩ := (hinv.search_removed hn).mp hnone
      exact ⟨hk, hothers, hfirst⟩
  · rintro ⟨hk, hothers, hfirst⟩
    refine ⟨hinv.search_update hn hk, ?_⟩
    obtain ⟨st', hok⟩ := hinv.step_returns (H := H) hn (.remove k)
    refine ⟨st', hok, ?_⟩
    rcases numaRemove_cases hok with ⟨hne, -⟩ | ⟨-, rfl⟩
    · exact absurd hk hne
    · exact (hinv.search_removed hn).mpr ⟨hothers, hfirst⟩

end

/-- Keys 0 and 301 share a row. An update and a remove of 301 take effect; a remove of 0 does not, since the entry that it
    zeroes still has the key. -/
theorem actsOnFound_iff_pair : (rowStore 31 0 [0, 301]).numaSearch fastHasher64 301 = .ok (some 1) ∧
    ActsOnFound fastHasher64 (rowStore 31 0 [0, 301]) 301 ∧
    (rowStore 31 0 [0, 301]).numaSearch fastHasher64 0 = .ok (some 0) ∧
    ¬ ActsOnFound fastHasher64 (rowStore 31 0 [0, 301]) 0 := by
  have hreach : ReachedFrom fastHasher64 [0, 301] Lib.anyStep (rowStore 31 0 [0, 301]) := rowStore_pair _
  have hfound : (rowStore 31 0 [0, 301]).numaSearch fastHasher64 301 = .ok (some 1) := by decide +kernel
  have hzero : (rowStore 31 0 [0, 301]).numaSearch fastHasher64 0 = .ok (some 0) := by decide +kernel
  refine ⟨hfound, (actsOnFound_iff hreach hfound).mpr ⟨?_, ?_, ?_⟩, hzero, fun hacts => ?_⟩
  · decide +kernel
  · decide +kernel
  · decide +kernel
  · have hfirst := ((actsOnFound_iff hreach hzero).mp hacts).first
    rw [if_pos (by decide +kernel)] at hfirst
    exact hfirst rfl

/-- Loaded key 7, put again: the put fills another slot of the row. After a remove, which empties the primary slot, the
    search finds the second entry, and neither an update nor a remove reaches it. -/
theorem found_not_acted_on : ∃ st, ReachedFrom fastHasher64 [7] Lib.anyStep st ∧
    st.numaSearch fastHasher64 7 = .ok (some 99) ∧ ¬ ActsOnFound fastHasher64 st 7 := by
  obtain ⟨st, hreach, htest⟩ := (rowStore_seven Lib.anyStep).exists_along
    (p := fun st => decide (st.numaSearch fastHasher64 7 = .ok (some 99) ∧
      (st.numaUpdate fastHasher64 7 5 >>= fun st' => st'.numaSearch fastHasher64 7) = .ok (some 99)))
    [.put 0 7 99, .remove 7] (by decide +kernel)
  obtain ⟨hfound, hupdated⟩ := of_decide_eq_true htest
  refine ⟨st, hreach, hfound, ?_⟩
  rintro ⟨hupdate, -⟩
  obtain ⟨st', hok, hsearch⟩ := hupdate 5
  rw [hok, Exec.ok_bind, hsearch] at hupdated
  exact absurd hupdated (by decide)

end Outback
