import Outback.Numa.Correctness.PutGet

/-!
# `Numa.Correctness.PutFrame` — when a put leaves the other keys alone

A put of `k` touches one entry and one slot of its row. Two things can reach another key: in a full row the
entry of the primary slot is overwritten and the row's seed moves on, and an empty slot reads as packed index
`0`, so that filling it takes the answer away from the key of entry `0`. **`numaPut_frame_iff`**: in every
reachable store the answers of all other keys stay the same exactly when neither happens (`PutFrames`).
-/

namespace Outback

namespace Store

variable (H : HashFn)

/-- The answer for `k` when the slots that refer to index `a` are passed over. -/
def answerWithout (st : Store) (r : Nat) (order : List Slot) (a : Nat) (k : U64) : Option U64 :=
  answer (st.entryAt r) (order.filter (fun s => st.addr r s ≠ a)) k

/-- The lookup unit after the reseeding of a full row. -/
def nextLookup (st : Store) (k : U64) : DataPlaneLudo :=
  st.lookup.updateSeed (st.lookup.row H k) (st.lookup.seeds (st.lookup.row H k) + 1)

end Store

/-- What the store must look like for `numa_put(k, _)` to leave every other key alone.
    * A put that fills slot `s` of row `r`: if the key of packed entry `0` has `s` as its primary slot, the row's
      other slots must answer that key with the same data.
    * A put into a full row: each key of the row, and the key of packed entry `0`, must be answered as before
      when the overwritten entry is passed over and the row is visited in the order of its next seed. -/
def PutFrames (H : HashFn) (st : Store) (laneId : Nat) (k : U64) : Prop :=
  let r := st.lookup.row H k
  let e₀ := st.packed.rawArray 0
  match st.status H k with
  | .maybeUpdate => True
  | .full => ∀ k' ∈ e₀.key :: (List.finRange 4).map (fun t => (st.entryAt r t).key), k' ≠ k →
      st.answerWithout (st.lookup.row H k') (st.probeOrder (st.lookup.row H k') ((st.nextLookup H k).slot H k'))
        (st.primaryAddr H k) k' = st.probe (st.lookup.row H k') (st.lookup.slot H k') k'
  | .good | .emptyExists => ∀ s, st.putSlot H k = some s → (st.nextIndex laneId).isSome → e₀.key ≠ k →
      st.lookup.row H e₀.key = r → st.lookup.slot H e₀.key = s →
      st.answerWithout r (st.probeOrder r s) 0 e₀.key = some e₀.data

section

variable {H : HashFn} {nkeys : Nat} {st st' : Store} {laneId : Nat} {k k' v : U64}

/-- Writing an entry of another key passes over the slots that refer to it. -/
theorem probe_setEntry {a : Nat} {e : PackedStruct} (he : e.key ≠ k') (r : Nat) (p : Slot) :
    (st.setEntry a e).probe r p k' = st.answerWithout r (st.probeOrder r p) a k' := by
  unfold Store.probe Store.answerWithout
  rw [show (st.setEntry a e).probeOrder r p = st.probeOrder r p from rfl,
    ← answer_filter (fun s => st.addr r s ≠ a)]
  · refine answer_congr fun t ht _ => ?_
    rw [Store.setEntry_entryAt, if_neg (by simpa using List.of_mem_filter ht)]
  · intro t _ hkeep
    rw [Store.setEntry_entryAt, if_pos (by simpa using hkeep)]
    exact he

/-- Passing over an index changes nothing for a key that no visited slot with that index has. -/
theorem answerWithout_eq {r a : Nat} {order : List Slot}
    (h : ∀ t ∈ order, st.addr r t = a → (st.entryAt r t).key ≠ k') :
    st.answerWithout r order a k' = answer (st.entryAt r) order k' :=
  answer_filter _ fun t ht hkeep => h t ht (by simpa using hkeep)

/-- An update of `k` is invisible to the other keys. -/
theorem probe_update (hk : (st.primaryEntry H k).key = k) (hne : k' ≠ k) {l : U32} (r : Nat) (p : Slot) :
    (st.setEntry (st.primaryAddr H k) ⟨k, l, v⟩).probe r p k' = st.probe r p k' := by
  rw [probe_setEntry (fun e => hne e.symm)]
  refine answerWithout_eq fun t _ ha => ?_
  have : st.entryAt r t = st.primaryEntry H k := by
    unfold Store.primaryEntry Store.entryAt
    rw [ha]
    rfl
  rw [this, hk]
  exact fun e => hne e.symm

/-- The visited slots after an insert at slot `s` of row `r`, `s` apart. -/
theorem StoreInv.others_insert (h : StoreInv nkeys st) {idx : Nat} (ha : st.nextIndex laneId = some idx)
    {s : Slot} (hs : st.putSlot H k = some s) (r : Nat) (p : Slot) (hne : k' ≠ k) (hr : r < st.lookup.numBuckets) :
    answer ((st.insertEntry H laneId k v s idx).entryAt r) ((st.insertEntry H laneId k v s idx).others r p) k'
      = answer (st.entryAt r) (st.others r p) k' := by
  -- slot `s` is visited now but has key `k`; before, it read as address `0` and was passed over
  have hzero : r = st.lookup.row H k → st.addr r s = 0 := fun e => by
    subst e
    exact h.addr_of_empty hr (not_occupied_putSlot hs)
  have hlist : st.others r p = ((st.insertEntry H laneId k v s idx).others r p).filter
      (fun t => ¬ (r = st.lookup.row H k ∧ t = s)) := by
    unfold Store.others
    rw [List.filter_filter]
    refine List.filter_congr fun t _ => ?_
    rw [h.insertEntry_addr ha]
    by_cases hts : r = st.lookup.row H k ∧ t = s
    · obtain ⟨rfl, rfl⟩ := hts
      simp [hzero rfl]
    · simp [hts]
  rw [hlist, ← answer_filter (fun t => ¬ (r = st.lookup.row H k ∧ t = s))]
  · refine answer_congr fun t ht _ => ?_
    rw [h.insertEntry_entryAt ha hr, if_neg (of_decide_eq_true (List.mem_filter.mp ht).2)]
  · intro t _ hkeep
    rw [h.insertEntry_entryAt ha hr, if_pos (by simpa using hkeep)]
    exact fun e => hne e.symm

/-- A search that does not start at the filled slot is unchanged. -/
theorem StoreInv.probe_insert_of_ne (h : StoreInv nkeys st) {idx : Nat} (ha : st.nextIndex laneId = some idx)
    {s : Slot} (hs : st.putSlot H k = some s) {r : Nat} {p : Slot} (hr : r < st.lookup.numBuckets) (hne : k' ≠ k)
    (hp : ¬ (r = st.lookup.row H k ∧ p = s)) :
    (st.insertEntry H laneId k v s idx).probe r p k' = st.probe r p k' := by
  unfold Store.probe Store.probeOrder
  have hent : (st.insertEntry H laneId k v s idx).entryAt r p = st.entryAt r p := by
    rw [h.insertEntry_entryAt ha hr, if_neg hp]
  by_cases hk : (st.entryAt r p).key = k'
  · rw [answer_cons_of_eq (hent ▸ hk), answer_cons_of_eq hk, hent]
  · rw [answer_cons_of_ne (hent ▸ hk), answer_cons_of_ne hk, h.others_insert ha hs r p hne hr]

/-- A search that starts at the filled slot answers from the others. -/
theorem StoreInv.probe_insert_of_eq (h : StoreInv nkeys st) {idx : Nat} (ha : st.nextIndex laneId = some idx)
    {s : Slot} (hs : st.putSlot H k = some s) (hne : k' ≠ k) :
    (st.insertEntry H laneId k v s idx).probe (st.lookup.row H k) s k'
      = answer (st.entryAt (st.lookup.row H k)) (st.others (st.lookup.row H k) s) k' := by
  have hr := h.row_lt (H := H) k
  unfold Store.probe Store.probeOrder
  rw [answer_cons_of_ne, h.others_insert ha hs _ s hne hr]
  rw [h.insertEntry_entryAt ha hr, if_pos ⟨rfl, rfl⟩]
  exact fun e => hne e.symm

/-- Passing over address `0` leaves the slots behind an empty primary one. -/
theorem answerWithout_zero {r : Nat} {s : Slot} (hs : st.addr r s = 0) :
    st.answerWithout r (st.probeOrder r s) 0 k' = answer (st.entryAt r) (st.others r s) k' := by
  unfold Store.answerWithout Store.probeOrder
  rw [List.filter_cons_of_neg (by simpa using hs)]
  congr 1
  refine List.filter_eq_self.mpr fun t ht => ?_
  have := of_decide_eq_true (List.mem_filter.mp ht).2
  simpa using this.2

/-- The condition on an inserting put. -/
theorem putFrames_insert {s : Slot} (hs : st.putSlot H k = some s) : PutFrames H st laneId k ↔
    ((st.nextIndex laneId).isSome → (st.packed.rawArray 0).key ≠ k →
      st.lookup.row H (st.packed.rawArray 0).key = st.lookup.row H k →
      st.lookup.slot H (st.packed.rawArray 0).key = s →
      st.answerWithout (st.lookup.row H k) (st.probeOrder (st.lookup.row H k) s) 0 (st.packed.rawArray 0).key
        = some (st.packed.rawArray 0).data) := by
  unfold PutFrames
  cases hst : st.status H k with
  | good => simp [hs]
  | emptyExists => simp [hs]
  | maybeUpdate => simp [Store.putSlot, hst] at hs
  | full => simp [Store.putSlot, hst] at hs

/-- The other keys after an inserting put. -/
theorem StoreInv.frame_insert (h : StoreInv nkeys st) {idx : Nat} (ha : st.nextIndex laneId = some idx)
    {s : Slot} (hs : st.putSlot H k = some s) :
    (∀ k', k' ≠ k → (st.insertEntry H laneId k v s idx).probe (st.lookup.row H k') (st.lookup.slot H k') k'
        = st.probe (st.lookup.row H k') (st.lookup.slot H k') k')
      ↔ ((st.packed.rawArray 0).key ≠ k → st.lookup.row H (st.packed.rawArray 0).key = st.lookup.row H k →
          st.lookup.slot H (st.packed.rawArray 0).key = s →
          st.answerWithout (st.lookup.row H k) (st.probeOrder (st.lookup.row H k) s) 0 (st.packed.rawArray 0).key
            = some (st.packed.rawArray 0).data) := by
  have hrow := h.row_lt (H := H) k
  have hzero : st.addr (st.lookup.row H k) s = 0 := h.addr_of_empty hrow (not_occupied_putSlot hs)
  have hent : st.entryAt (st.lookup.row H k) s = st.packed.rawArray 0 := by rw [Store.entryAt, hzero]
  constructor
  · intro hall hne hr hslot
    have := hall _ hne
    rw [hr, hslot, h.probe_insert_of_eq ha hs hne] at this
    rw [answerWithout_zero hzero, this, Store.probe, Store.probeOrder, answer_cons_of_eq (by rw [hent]), hent]
  · intro hcond k' hne
    by_cases hp : st.lookup.row H k' = st.lookup.row H k ∧ st.lookup.slot H k' = s
    · obtain ⟨hr, hslot⟩ := hp
      rw [hr, hslot, h.probe_insert_of_eq ha hs hne, Store.probe, Store.probeOrder]
      by_cases hk : (st.packed.rawArray 0).key = k'
      · subst hk
        rw [answer_cons_of_eq (by rw [hent]), hent, ← answerWithout_zero hzero]
        exact hcond hne hr hslot
      · rw [answer_cons_of_ne (by rw [hent]; exact hk)]
    · exact h.probe_insert_of_ne ha hs (h.row_lt k') hne hp

/-- The other keys after a put into a full row. -/
theorem StoreInv.frame_overwrite (h : StoreInv nkeys st) (hst : st.status H k = .full) :
    (∀ k', k' ≠ k → (st.setEntry (st.primaryAddr H k) ⟨k, 64, v⟩).probe (st.lookup.row H k')
          ((st.nextLookup H k).slot H k') k' = st.probe (st.lookup.row H k') (st.lookup.slot H k') k')
      ↔ PutFrames H st laneId k := by
  have hrow := h.row_lt (H := H) k
  unfold PutFrames
  rw [hst]
  simp only
  constructor
  · intro hall k' _ hne
    rw [← hall k' hne, probe_setEntry (fun e => hne e.symm)]
  · intro hcond k' hne
    rw [probe_setEntry (fun e => hne e.symm)]
    by_cases hmem : k' ∈ (st.packed.rawArray 0).key ::
        (List.finRange 4).map (fun t => (st.entryAt (st.lookup.row H k) t).key)
    · exact hcond k' hmem hne
    · -- a key that neither the row nor entry `0` has is answered from slots the put did not touch
      rw [List.mem_cons, not_or] at hmem
      have hother : ∀ t, (st.entryAt (st.lookup.row H k) t).key ≠ k' := fun t e =>
        hmem.2 (List.mem_map.mpr ⟨t, List.mem_finRange t, e⟩)
      by_cases hr : st.lookup.row H k' = st.lookup.row H k
      · rw [hr, answerWithout_eq (fun t _ _ => hother t)]
        unfold Store.probe answer
        rw [List.find?_eq_none.mpr (fun t _ => by simpa using hother t),
          List.find?_eq_none.mpr (fun t _ => by simpa using hother t)]
      · have hslot : (st.nextLookup H k).slot H k' = st.lookup.slot H k' := by
          unfold Store.nextLookup
          rw [DataPlaneLudo.updateSeed_slot, if_neg hr]
        rw [hslot, answerWithout_eq]
        · rfl
        · intro t _ hat
          by_cases hocc : st.Occupied (st.lookup.row H k') t
          · exact absurd (h.distinct _ _ _ _ (h.row_lt k') hrow hocc (occupied_of_full hst _) hat).1 hr
          · rw [Store.entryAt, h.addr_of_empty (h.row_lt k') hocc]
            exact fun e => hmem.1 e.symm

/-- A put that found no free index leaves every answer. -/
theorem numaSearch_takeIndex (k' : U64) : (st.takeIndex laneId).numaSearch H k' = st.numaSearch H k' := rfl

/-- **The frame of a put.** In every store reached from a bulk load, a put of `k` returns, and it leaves the answer
    of every other key unchanged exactly when `PutFrames` holds of the store before it. -/
theorem numaPut_frame_iff {existKeys : List U64} (h : ReachedFrom H existKeys Lib.anyStep st) :
    ∃ st', st.numaPut H laneId k v = .ok st' ∧
      ((∀ k', k' ≠ k → st'.numaSearch H k' = st.numaSearch H k') ↔ PutFrames H st laneId k) := by
  have hinv := h.storeInv
  have hok_iff : ∀ {a b : Option U64}, (Except.ok a : Exec (Option U64)) = .ok b ↔ a = b :=
    ⟨fun e => Except.ok.inj e, fun e => congrArg Except.ok e⟩
  have hrow := hinv.row_lt (H := H) k
  obtain ⟨st', hok, hc⟩ := numaPut_cases H laneId k v hinv
  refine ⟨st', hok, ?_⟩
  have hinv' := hinv.putCase hc
  cases hc with
  | noSpace s hs ha =>
      refine iff_of_true (fun k' _ => numaSearch_takeIndex k') ((putFrames_insert hs).mpr ?_)
      intro hsome
      simp [ha] at hsome
  | insert s idx hs ha =>
      have hpos := hinv.nkeys_pos_of_nextIndex ha
      simp only [hinv.numaSearch_ok hpos, hinv'.numaSearch_ok hpos, hok_iff]
      rw [putFrames_insert hs, ha]
      exact (hinv.frame_insert ha hs).trans ⟨fun hc _ => hc, fun hc => hc rfl⟩
  | update hst hk =>
      have hpos := hinv.nkeys_pos hrow (occupied_of_status_ne (by rw [hst]; decide))
      simp only [hinv.numaSearch_ok hpos, hinv'.numaSearch_ok hpos, hok_iff]
      refine iff_of_true (fun k' hne => probe_update hk hne _ _) ?_
      unfold PutFrames
      rw [hst]
      trivial
  | dropped hst hk =>
      refine iff_of_true (fun _ _ => rfl) ?_
      unfold PutFrames
      rw [hst]
      trivial
  | overwrite hst =>
      have hpos := hinv.nkeys_pos hrow (occupied_of_status_ne (by rw [hst]; decide))
      simp only [hinv.numaSearch_ok hpos, hinv'.numaSearch_ok hpos, hok_iff]
      exact hinv.frame_overwrite hst

end

/-- Loaded key 7, put of key 9: the answers of the other keys stay. -/
theorem numaPut_frame_iff_nine : ∃ st', (rowStore 423 0 [7]).numaPut fastHasher64 0 9 5 = .ok st' ∧
    ((∀ k', k' ≠ 9 → st'.numaSearch fastHasher64 k' = (rowStore 423 0 [7]).numaSearch fastHasher64 k')
      ↔ PutFrames fastHasher64 (rowStore 423 0 [7]) 0 9) :=
  numaPut_frame_iff (rowStore_seven _)

/-- Row 31 is full of loaded keys; putting a fifth key of the row overwrites the entry of key 540, which is then
    no longer found. -/
theorem numaPut_evicts : ∃ st', (rowStore 31 2 [0, 301, 540, 938]).numaPut fastHasher64 0 1379 99 = .ok st' ∧
    ReachedFrom fastHasher64 [0, 301, 540, 938] Lib.anyStep (rowStore 31 2 [0, 301, 540, 938]) ∧
    (rowStore 31 2 [0, 301, 540, 938]).numaSearch fastHasher64 540 = .ok (some 2) ∧
    st'.numaSearch fastHasher64 540 = .ok none :=
  ⟨_, rfl, rowStore_full _, rfl, rfl⟩

end Outback
