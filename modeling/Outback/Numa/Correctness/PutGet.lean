import Outback.Numa.Correctness.Steps
import Mathlib.Data.List.Find
import Mathlib.Data.List.TakeWhile

/-!
# `Numa.Correctness.PutGet` — when a search finds what a put wrote

A put writes the value into one slot of the row, chosen by `check_slots`; a search then answers from the first
slot it visits whose entry has the key. **`numaPut_numaSearch_iff`**: in every reachable store, a search after a
put finds the value exactly when no slot visited earlier hides it, which is `PutVisible` of the store before
the put. The slot words of the bulk load carry no fingerprint, so re-putting a loaded key makes a second entry
behind the first one (`numaPut_hidden`).
-/

namespace Outback

/-- What the store must look like for `numa_put(k, v)` to become visible. With `r` the row of `k` and `p` its
    primary slot:
    * an empty primary slot always does;
    * a fingerprint match does when the entry there has the key, or when the search answers `v` already;
    * in a row with an empty slot, no slot that is visited before that one may hold the key with other data;
    * in a full row, the new seed must not send the search to another entry of the key first. -/
def PutVisible (H : HashFn) (st : Store) (k v : U64) : Prop :=
  let r := st.lookup.row H k
  let p := st.lookup.slot H k
  match st.status H k with
  | .good => True
  | .maybeUpdate => (st.entryAt r p).key = k ∨
      ∃ s, (st.probeOrder r p).find? (fun s => (st.entryAt r s).key = k) = some s ∧ (st.entryAt r s).data = v
  | .emptyExists => ∀ s,
      (p :: ((List.finRange 4).takeWhile (fun s => st.Occupied r s)).filter
        (fun s => s ≠ p ∧ st.addr r s ≠ 0)).find? (fun s => (st.entryAt r s).key = k) = some s →
      (st.entryAt r s).data = v
  | .full => ∃ s,
      (st.probeOrder r (seedSlot H (st.lookup.seeds r + 1) k)).find?
        (fun s => s = p ∨ (st.entryAt r s).key = k) = some s ∧ (s = p ∨ (st.entryAt r s).data = v)

section

variable {H : HashFn} {nkeys : Nat} {st st' : Store} {laneId : Nat} {k v : U64}

/-- There are packed entries as soon as a slot is occupied. -/
theorem StoreInv.nkeys_pos (h : StoreInv nkeys st) {r : Nat} {s : Slot} (hr : r < st.lookup.numBuckets)
    (hs : st.Occupied r s) : 0 < nkeys := by
  have := (h.issued r s hr hs).1
  omega

theorem StoreInv.nkeys_pos_of_nextIndex (h : StoreInv nkeys st) {idx : Nat} (ha : st.nextIndex laneId = some idx) :
    0 < nkeys := by
  have := nextIndex_lt ha
  rw [h.entries] at this
  omega

/-- The index of a fresh entry is not the one an empty slot reads. -/
theorem StoreInv.addr_ne_nextIndex (h : StoreInv nkeys st) {idx : Nat} (ha : st.nextIndex laneId = some idx)
    {r : Nat} (hr : r < st.lookup.numBuckets) (t : Slot) : st.addr r t ≠ idx := by
  by_cases ht : st.Occupied r t
  · exact h.nextIndex_fresh ha hr ht
  · have hpos := h.nkeys_pos_of_nextIndex ha
    have hle := h.le_nextIndex ha
    rw [h.addr_of_empty hr ht]
    omega

/-- The addresses after an inserting put. -/
theorem StoreInv.insertEntry_addr (h : StoreInv nkeys st) {idx : Nat} (ha : st.nextIndex laneId = some idx)
    (r : Nat) (s t : Slot) : (st.insertEntry H laneId k v s idx).addr r t
      = if r = st.lookup.row H k ∧ t = s then idx else st.addr r t := by
  unfold Store.insertEntry
  rw [Store.setWord_addr, h.addrOf_insert ha]
  rfl

/-- The entries after an inserting put: the written slot has the new one, every other slot its own. -/
theorem StoreInv.insertEntry_entryAt (h : StoreInv nkeys st) {idx : Nat} (ha : st.nextIndex laneId = some idx)
    {r : Nat} (hr : r < st.lookup.numBuckets) (s t : Slot) : (st.insertEntry H laneId k v s idx).entryAt r t
      = if r = st.lookup.row H k ∧ t = s then ⟨k, 8, v⟩ else st.entryAt r t := by
  unfold Store.entryAt
  rw [h.insertEntry_addr ha]
  show Function.update st.packed.rawArray idx ⟨k, 8, v⟩ _ = _
  split
  · exact Function.update_self ..
  · exact Function.update_of_ne (h.addr_ne_nextIndex ha hr t) ..

/-- In a full row, writing the primary entry changes no other slot's entry. -/
theorem StoreInv.overwrite_entryAt (h : StoreInv nkeys st) (hfull : st.status H k = .full) (e : PackedStruct)
    (t : Slot) : (st.setEntry (st.primaryAddr H k) e).entryAt (st.lookup.row H k) t
      = if t = st.lookup.slot H k then e else st.entryAt (st.lookup.row H k) t := by
  have hrow := h.row_lt (H := H) k
  rw [Store.setEntry_entryAt]
  by_cases ht : t = st.lookup.slot H k
  · rw [if_pos ht, if_pos (by rw [ht]; rfl)]
  · rw [if_neg ht, if_neg]
    intro heq
    exact ht (h.distinct _ _ _ _ hrow hrow (occupied_of_full hfull t) (occupied_of_full hfull _) heq).2

/-- The row around the first empty slot: the slots before it are occupied. -/
theorem finRange_split {r : Nat} {s : Slot} (hs : (List.finRange 4).find? (fun s => ¬ st.Occupied r s) = some s) :
    ∃ bs, List.finRange 4 = (List.finRange 4).takeWhile (fun s => st.Occupied r s) ++ s :: bs := by
  obtain ⟨hp, as, bs, hl, has⟩ := List.find?_eq_some_iff_append.mp hs
  refine ⟨bs, ?_⟩
  have htake : (List.finRange 4).takeWhile (fun s => decide (st.Occupied r s)) = as := by
    rw [hl, List.takeWhile_append_of_pos (fun a ha => by simpa using has a ha),
      List.takeWhile_cons_of_neg (by simpa using hp), List.append_nil]
  rw [htake]
  exact hl

/-- The slots visited before the first empty one do not include it. -/
theorem ne_of_mem_before {r : Nat} {p s t : Slot} (hp : st.Occupied r p) (hs : ¬ st.Occupied r s)
    (ht : t ∈ p :: ((List.finRange 4).takeWhile (fun s => st.Occupied r s)).filter
      (fun s => s ≠ p ∧ st.addr r s ≠ 0)) : t ≠ s := by
  rintro rfl
  rcases List.mem_cons.mp ht with rfl | ht
  · exact hs hp
  · exact hs (by simpa using List.mem_takeWhile_imp (List.mem_of_mem_filter ht))

/-- The slot a search ends at after an insert into the first empty slot `s` of the row: a slot visited before
    `s` that has the key, else `s`. -/
theorem StoreInv.find_insert (h : StoreInv nkeys st) {idx : Nat} (ha : st.nextIndex laneId = some idx) {s : Slot}
    (hst : st.status H k = .emptyExists) (hs : st.putSlot H k = some s) :
    ((st.insertEntry H laneId k v s idx).probeOrder (st.lookup.row H k) (st.lookup.slot H k)).find?
        (fun t => ((st.insertEntry H laneId k v s idx).entryAt (st.lookup.row H k) t).key = k)
      = ((st.lookup.slot H k :: ((List.finRange 4).takeWhile (fun s => st.Occupied (st.lookup.row H k) s)).filter
          (fun s => s ≠ st.lookup.slot H k ∧ st.addr (st.lookup.row H k) s ≠ 0)).find?
          (fun s => (st.entryAt (st.lookup.row H k) s).key = k)).or (some s) := by
  have hrow := h.row_lt (H := H) k
  have hp : st.Occupied (st.lookup.row H k) (st.lookup.slot H k) := occupied_of_status_ne (by rw [hst]; decide)
  have hsocc := not_occupied_putSlot hs
  have hsp : s ≠ st.lookup.slot H k := fun e => hsocc (e ▸ hp)
  have hfirst : (List.finRange 4).find? (fun s => ¬ st.Occupied (st.lookup.row H k) s) = some s := by
    unfold Store.putSlot at hs
    rw [hst] at hs
    exact hs
  have hidx : idx ≠ 0 := by
    have h1 := h.nkeys_pos_of_nextIndex ha
    have h2 := h.le_nextIndex ha
    omega
  obtain ⟨bs, hsplit⟩ := finRange_split hfirst
  generalize hA : (List.finRange 4).takeWhile (fun s => decide (st.Occupied (st.lookup.row H k) s)) = as at hsplit ⊢
  -- the visited slots: those before `s` as they were, then `s`
  have hmem : ∀ t ∈ as, t ≠ s := fun t ht e => hsocc (by
    rw [← hA] at ht
    simpa [e] using List.mem_takeWhile_imp ht)
  have horder : (st.insertEntry H laneId k v s idx).probeOrder (st.lookup.row H k) (st.lookup.slot H k)
      = (st.lookup.slot H k :: as.filter (fun s => s ≠ st.lookup.slot H k ∧ st.addr (st.lookup.row H k) s ≠ 0))
        ++ s :: bs.filter (fun t => t ≠ st.lookup.slot H k ∧
          (st.insertEntry H laneId k v s idx).addr (st.lookup.row H k) t ≠ 0) := by
    unfold Store.probeOrder Store.others
    rw [hsplit, List.filter_append, List.filter_cons_of_pos (by simp [hsp, h.insertEntry_addr ha, hidx]),
      List.cons_append]
    congr 2
    refine List.filter_congr fun t ht => ?_
    rw [h.insertEntry_addr ha, if_neg (fun e => hmem t ht e.2)]
  rw [horder, List.find?_append, List.find?_cons_of_pos (l := List.filter _ bs)
    (by simp [h.insertEntry_entryAt ha hrow])]
  congr 1
  refine List.find?_congr fun t ht => ?_
  rw [← hA] at ht
  rw [h.insertEntry_entryAt ha hrow, if_neg (fun e => ne_of_mem_before hp hsocc ht e.2)]

theorem StoreInv.probe_insert (h : StoreInv nkeys st) {idx : Nat} (ha : st.nextIndex laneId = some idx) {s : Slot}
    (hs : st.putSlot H k = some s) :
    (st.insertEntry H laneId k v s idx).probe (st.lookup.row H k) (st.lookup.slot H k) k = some v
      ↔ PutVisible H st k v := by
  have hrow := h.row_lt (H := H) k
  unfold PutVisible
  cases hst : st.status H k with
  | good =>
      obtain rfl : st.lookup.slot H k = s := by
        unfold Store.putSlot at hs
        rw [hst] at hs
        exact Option.some.inj hs
      rw [Store.probe, Store.probeOrder,
        answer_cons_of_eq (by rw [h.insertEntry_entryAt ha hrow, if_pos ⟨rfl, rfl⟩]), h.insertEntry_entryAt ha hrow, if_pos ⟨rfl, rfl⟩]
      simp
  | emptyExists =>
      have hp : st.Occupied (st.lookup.row H k) (st.lookup.slot H k) := occupied_of_status_ne (by rw [hst]; decide)
      have hsocc := not_occupied_putSlot hs
      rw [Store.probe, answer_eq_some_iff, h.find_insert ha hst hs]
      simp only
      generalize hL : (st.lookup.slot H k :: ((List.finRange 4).takeWhile
          (fun s => decide (st.Occupied (st.lookup.row H k) s))).filter
          (fun s => decide (s ≠ st.lookup.slot H k ∧ st.addr (st.lookup.row H k) s ≠ 0))).find?
          (fun s => decide ((st.entryAt (st.lookup.row H k) s).key = k)) = found
      cases found with
      | none =>
          -- no slot before `s` has the key, so the search ends at the new entry
          refine iff_of_true ⟨s, rfl, ?_⟩ (fun t ht => by cases ht)
          rw [h.insertEntry_entryAt ha hrow, if_pos ⟨rfl, rfl⟩]
      | some t =>
          have hts : t ≠ s := ne_of_mem_before hp hsocc (List.mem_of_find?_eq_some hL)
          have hent : (st.insertEntry H laneId k v s idx).entryAt (st.lookup.row H k) t
              = st.entryAt (st.lookup.row H k) t := by
            rw [h.insertEntry_entryAt ha hrow, if_neg (fun e => hts e.2)]
          constructor
          · rintro ⟨u, hu, hv⟩ w hw
            obtain rfl : t = u := Option.some.inj hu
            obtain rfl : t = w := Option.some.inj hw
            rw [← hv, hent]
          · intro hall
            exact ⟨t, rfl, by rw [hent]; exact hall t rfl⟩
  | maybeUpdate => simp [Store.putSlot, hst] at hs
  | full => simp [Store.putSlot, hst] at hs

theorem StoreInv.probe_overwrite (h : StoreInv nkeys st) (hst : st.status H k = .full) :
    ((st.setEntry (st.primaryAddr H k) ⟨k, 64, v⟩).reseed (st.lookup.row H k)
        (st.lookup.seeds (st.lookup.row H k) + 1)).probe (st.lookup.row H k)
        (seedSlot H (st.lookup.seeds (st.lookup.row H k) + 1) k) k = some v ↔ PutVisible H st k v := by
  have hent := h.overwrite_entryAt hst ⟨k, 64, v⟩
  unfold PutVisible
  rw [hst, Store.probe, answer_eq_some_iff]
  simp only
  -- a slot has the key now exactly when it is the primary one or had it before
  have hkey : ∀ t, ((st.setEntry (st.primaryAddr H k) ⟨k, 64, v⟩).entryAt (st.lookup.row H k) t).key = k
      ↔ t = st.lookup.slot H k ∨ (st.entryAt (st.lookup.row H k) t).key = k := by
    intro t
    rw [hent t]
    by_cases ht : t = st.lookup.slot H k
    · simp [ht]
    · simp [ht]
  have hdata : ∀ t, ((st.setEntry (st.primaryAddr H k) ⟨k, 64, v⟩).entryAt (st.lookup.row H k) t).data = v
      ↔ t = st.lookup.slot H k ∨ (st.entryAt (st.lookup.row H k) t).data = v := by
    intro t
    rw [hent t]
    by_cases ht : t = st.lookup.slot H k
    · simp [ht]
    · simp [ht]
  refine exists_congr fun s => and_congr ?_ (hdata s)
  rw [← List.find?_congr (fun t _ => decide_eq_decide.mpr (hkey t))]
  rfl

/-- The search after each outcome of a put. -/
theorem StoreInv.probe_putCase (h : StoreInv nkeys st) (hc : PutCase H st laneId k v st')
    (halloc : (st.putSlot H k).isSome → (st.nextIndex laneId).isSome) :
    st'.probe (st'.lookup.row H k) (st'.lookup.slot H k) k = some v ↔ PutVisible H st k v := by
  cases hc with
  | noSpace s hs ha => simp [hs, ha] at halloc
  | insert s idx hs ha => exact h.probe_insert ha hs
  | update hst hk =>
      have hent : (st.setEntry (st.primaryAddr H k) ⟨k, 64, v⟩).entryAt (st.lookup.row H k) (st.lookup.slot H k)
          = ⟨k, 64, v⟩ := by rw [Store.setEntry_entryAt]; exact if_pos rfl
      refine iff_of_true ?_ ?_
      · exact (answer_cons_of_eq (congrArg PackedStruct.key hent)).trans (congrArg (fun e => some e.data) hent)
      · unfold PutVisible
        rw [hst]
        exact Or.inl hk
  | dropped hst hk =>
      unfold PutVisible
      rw [hst, Store.probe, answer_eq_some_iff]
      exact (or_iff_right hk).symm
  | overwrite hst =>
      have hslot := DataPlaneLudo.updateSeed_slot H st.lookup (st.lookup.row H k)
        (st.lookup.seeds (st.lookup.row H k) + 1) k
      rw [if_pos rfl] at hslot
      have := h.probe_overwrite (v := v) hst
      rw [← hslot] at this
      exact this

/-- A put that writes an entry finds packed entries to write to. -/
theorem StoreInv.nkeys_pos_of_put (h : StoreInv nkeys st)
    (halloc : (st.putSlot H k).isSome → (st.nextIndex laneId).isSome) : 0 < nkeys := by
  by_cases hocc : st.Occupied (st.lookup.row H k) (st.lookup.slot H k)
  · exact h.nkeys_pos (h.row_lt k) hocc
  · have hst : st.status H k = .good := checkSlots_good_iff_not_occupied.mpr hocc
    obtain ⟨idx, ha⟩ := Option.isSome_iff_exists.mp (halloc (by unfold Store.putSlot; rw [hst]; rfl))
    exact h.nkeys_pos_of_nextIndex ha

/-- **Put-then-get.** In every store reached from a bulk load, a put for which no allocation failed returns, and
    a search of the key then finds the value exactly when the store was `PutVisible`. -/
theorem numaPut_numaSearch_iff {existKeys : List U64} (h : ReachedFrom H existKeys Lib.anyStep st)
    (halloc : (st.putSlot H k).isSome → (st.nextIndex laneId).isSome) :
    ∃ st', st.numaPut H laneId k v = .ok st' ∧
      (st'.numaSearch H k = .ok (some v) ↔ PutVisible H st k v) := by
  have hinv := h.storeInv
  obtain ⟨st', hok, hc⟩ := numaPut_cases H laneId k v hinv
  refine ⟨st', hok, ?_⟩
  have hsearch := (hinv.putCase hc).numaSearch_ok (H := H) (hinv.nkeys_pos_of_put halloc) k
  rw [hsearch, ← hinv.probe_putCase hc halloc]
  exact ⟨fun e => Except.ok.inj e, fun e => congrArg Except.ok e⟩

end

/-- Loaded key 7, put of key 9 into its empty row: no allocation fails, and the search finds the value. -/
theorem numaPut_numaSearch_iff_nine : ∃ st', (rowStore 423 0 [7]).numaPut fastHasher64 0 9 5 = .ok st' ∧
    (st'.numaSearch fastHasher64 9 = .ok (some 5) ↔ PutVisible fastHasher64 (rowStore 423 0 [7]) 9 5) :=
  numaPut_numaSearch_iff (rowStore_seven _) (fun _ => by decide)

/-- Loaded key 7, put of key 7 again: the slot word of the bulk load has fingerprint 0, so the put makes a second
    entry in another slot, and the search still answers the loaded value from the primary slot. -/
theorem numaPut_hidden : ∃ st', (rowStore 423 0 [7]).numaPut fastHasher64 0 7 99 = .ok st' ∧
    ReachedFrom fastHasher64 [7] Lib.anyStep (rowStore 423 0 [7]) ∧
    ((rowStore 423 0 [7]).nextIndex 0).isSome ∧ st'.numaSearch fastHasher64 7 = .ok (some 0) :=
  ⟨_, rfl, rowStore_seven _, by decide, rfl⟩

end Outback
