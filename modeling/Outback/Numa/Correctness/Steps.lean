import Outback.Numa.Correctness.StoreInv

/-!
# `Numa.Correctness.Steps` — what one client operation can do to a store

Each operation is inverted once: `numaPut_inv` says that the result of a put is one of the five outcomes of `PutCase`;
`numaUpdate_cases` and `numaRemove_cases` do the same for the other two. Every invariant below is a case analysis on
these. **`numaPut_cases`** adds that a put of a reachable store returns.
-/

namespace Outback

namespace Store

variable (H : HashFn)

/-- What `check_slots` answers for the primary slot of a key. -/
def status (st : Store) (k : U64) : SlotStatus :=
  (st.buckets.bucketsArray (st.lookup.row H k)).checkSlots H k (st.lookup.slot H k)

/-- The empty slot an inserting put writes: the primary slot, else the first empty one of the row. -/
def putSlot (st : Store) (k : U64) : Option Slot :=
  match st.status H k with
  | .good => some (st.lookup.slot H k)
  | .emptyExists => (List.finRange 4).find? (fun s => ¬ st.Occupied (st.lookup.row H k) s)
  | .maybeUpdate => none
  | .full => none

/-- The index the next allocation on a lane returns. -/
def nextIndex (st : Store) (laneId : Nat) : Option Nat :=
  (st.lanes.allocRemoteDataSlot laneId st.numDataEntries).1

/-- The store after an inserting put. -/
def insertEntry (st : Store) (laneId : Nat) (k v : U64) (s : Slot) (idx : Nat) : Store :=
  ((st.takeIndex laneId).setEntry idx ⟨k, 8, v⟩).setWord (st.lookup.row H k) s
    (combine (fingerprint H k) 64 (BitVec.ofNat 64 idx))

/-- The entry of a key's primary slot. -/
def primaryEntry (st : Store) (k : U64) : PackedStruct := st.entryAt (st.lookup.row H k) (st.lookup.slot H k)

/-- The index of a key's primary slot. -/
def primaryAddr (st : Store) (k : U64) : Nat := st.addr (st.lookup.row H k) (st.lookup.slot H k)

end Store

/-- The outcomes of a put. -/
inductive PutCase (H : HashFn) (st : Store) (laneId : Nat) (k v : U64) : Store → Prop where
  /-- an empty slot, but the lane is exhausted -/
  | noSpace (s : Slot) (hs : st.putSlot H k = some s) (ha : st.nextIndex laneId = none) :
      PutCase H st laneId k v (st.takeIndex laneId)
  /-- a new entry in an empty slot -/
  | insert (s : Slot) (idx : Nat) (hs : st.putSlot H k = some s) (ha : st.nextIndex laneId = some idx) :
      PutCase H st laneId k v (st.insertEntry H laneId k v s idx)
  /-- the fingerprint matches and so does the key -/
  | update (hst : st.status H k = .maybeUpdate) (hk : (st.primaryEntry H k).key = k) :
      PutCase H st laneId k v (st.setEntry (st.primaryAddr H k) ⟨k, 64, v⟩)
  /-- the fingerprint matches, the key does not: nothing is written -/
  | dropped (hst : st.status H k = .maybeUpdate) (hk : (st.primaryEntry H k).key ≠ k) :
      PutCase H st laneId k v st
  /-- the row is full: the entry of the primary slot is overwritten and the row is reseeded -/
  | overwrite (hst : st.status H k = .full) :
      PutCase H st laneId k v ((st.setEntry (st.primaryAddr H k) ⟨k, 64, v⟩).reseed (st.lookup.row H k)
        (st.lookup.seeds (st.lookup.row H k) + 1))

/-! ## The four answers of `check_slots` -/

section Status

variable {H : HashFn} {st : Store} {k : U64}

theorem checkSlots_good_iff_not_occupied {s : Slot} :
    (st.buckets.bucketsArray (st.lookup.row H k)).checkSlots H k s = .good
      ↔ ¬ st.Occupied (st.lookup.row H k) s := by
  rw [LudoBucket.checkSlots_good_iff, Store.Occupied, Bool.not_eq_true]
  rfl

/-- The primary slot is occupied unless it is a good position. -/
theorem occupied_of_status_ne (h : st.status H k ≠ .good) : st.Occupied (st.lookup.row H k) (st.lookup.slot H k) := by
  by_contra hocc
  exact h (checkSlots_good_iff_not_occupied.mpr hocc)

theorem not_occupied_of_good (h : st.status H k = .good) :
    ¬ st.Occupied (st.lookup.row H k) (st.lookup.slot H k) :=
  checkSlots_good_iff_not_occupied.mp h

/-- A full row has no empty slot. -/
theorem occupied_of_full (h : st.status H k = .full) (s : Slot) : st.Occupied (st.lookup.row H k) s :=
  LudoBucket.occ_of_full h s

/-- Answer `2` promises an empty slot. -/
theorem exists_empty_of_emptyExists (h : st.status H k = .emptyExists) :
    ∃ s, ¬ st.Occupied (st.lookup.row H k) s := by
  obtain ⟨-, s, hs⟩ := LudoBucket.exists_empty_of_emptyExists h
  refine ⟨s, ?_⟩
  rw [Store.Occupied, Bool.not_eq_true]
  exact hs

/-- An inserting put writes an empty slot. -/
theorem not_occupied_putSlot {s : Slot} (h : st.putSlot H k = some s) : ¬ st.Occupied (st.lookup.row H k) s := by
  unfold Store.putSlot at h
  split at h
  · rename_i hst
    cases h
    exact not_occupied_of_good hst
  · simpa using List.find?_some h
  · cases h
  · cases h

/-- The loop of case `2` looks for the slot that an inserting put writes. -/
theorem find_eq_putSlot (h : st.status H k = .emptyExists) :
    (List.finRange 4).find? (fun s =>
      decide ((st.buckets.bucketsArray (st.lookup.row H k)).checkSlots H k s = .good)) = st.putSlot H k := by
  unfold Store.putSlot
  rw [h]
  simp only [checkSlots_good_iff_not_occupied]

/-- It finds one. -/
theorem exists_putSlot_of_emptyExists (h : st.status H k = .emptyExists) : ∃ s, st.putSlot H k = some s := by
  obtain ⟨s, hs⟩ := exists_empty_of_emptyExists h
  unfold Store.putSlot
  rw [h]
  rw [← Option.isSome_iff_exists, List.find?_isSome]
  exact ⟨s, List.mem_finRange s, by simpa using hs⟩

end Status

/-! ## Inversion -/

section Inversion

variable {H : HashFn} {nkeys : Nat} {st st' : Store} {laneId : Nat} {k v : U64}

/-- An issued index is below the current epoch's entries. -/
theorem nextIndex_lt {idx : Nat} (h : st.nextIndex laneId = some idx) : idx < st.numDataEntries := by
  unfold Store.nextIndex Lanes.allocRemoteDataSlot at h
  simp only at h
  split at h
  · cases h
  · cases h; omega

/-- The index an allocation returns is the counter of its lane. -/
theorem nextIndex_eq {idx : Nat} (h : st.nextIndex laneId = some idx) :
    idx = st.lanes.laneNextFreeIndex (laneId % st.lanes.lanes) := by
  unfold Store.nextIndex Lanes.allocRemoteDataSlot at h
  simp only at h
  split at h
  · cases h
  · cases h; rfl

/-- The body of the inserting cases. -/
theorem insertAt_inv {s : Slot} (hs : st.putSlot H k = some s)
    (hok : st.insertAt H laneId k v (st.lookup.row H k) s = .ok st') : PutCase H st laneId k v st' := by
  unfold Store.insertAt at hok
  cases ha : st.nextIndex laneId with
  | none =>
      rw [show st.lanes.allocRemoteDataSlot laneId st.numDataEntries
        = (none, (st.lanes.allocRemoteDataSlot laneId st.numDataEntries).2) from Prod.ext ha rfl] at hok
      cases hok
      exact .noSpace s hs ha
  | some idx =>
      rw [show st.lanes.allocRemoteDataSlot laneId st.numDataEntries
        = (some idx, (st.lanes.allocRemoteDataSlot laneId st.numDataEntries).2) from Prod.ext ha rfl] at hok
      obtain ⟨pd, hpd, hok⟩ := Lib.bind_eq_ok.mp hok
      obtain ⟨-, rfl⟩ := PackedData.updateData_eq_ok hpd
      cases hok
      exact .insert s idx hs ha

/-- A put that returns has one of the five outcomes. -/
theorem numaPut_inv (hok : st.numaPut H laneId k v = .ok st') : PutCase H st laneId k v st' := by
  unfold Store.numaPut at hok
  obtain ⟨b, hb, hok⟩ := Lib.bind_eq_ok.mp hok
  obtain ⟨-, rfl⟩ := LudoBuckets.row_eq_ok hb
  simp only [Store.addrOf_slots] at hok
  cases hst : st.status H k with
  | good =>
      rw [show LudoBucket.checkSlots H _ k _ = .good from hst] at hok
      exact insertAt_inv (by unfold Store.putSlot; rw [hst]) hok
  | maybeUpdate =>
      rw [show LudoBucket.checkSlots H _ k _ = .maybeUpdate from hst] at hok
      obtain ⟨e, he, hok⟩ := Lib.bind_eq_ok.mp hok
      obtain rfl : e = st.primaryEntry H k := (PackedData.entry_eq_ok he).2
      by_cases hk : (st.primaryEntry H k).key = k
      · rw [if_pos hk] at hok
        obtain ⟨pd, hpd, hok⟩ := Lib.bind_eq_ok.mp hok
        obtain ⟨-, rfl⟩ := PackedData.updateData_eq_ok hpd
        cases hok
        exact .update hst hk
      · rw [if_neg hk] at hok
        cases hok
        exact .dropped hst hk
  | emptyExists =>
      rw [show LudoBucket.checkSlots H _ k _ = .emptyExists from hst] at hok
      obtain ⟨s, hs⟩ := exists_putSlot_of_emptyExists hst
      simp only [find_eq_putSlot hst, hs] at hok
      exact insertAt_inv hs hok
  | full =>
      rw [show LudoBucket.checkSlots H _ k _ = .full from hst] at hok
      obtain ⟨pd, hpd, hok⟩ := Lib.bind_eq_ok.mp hok
      obtain ⟨-, rfl⟩ := PackedData.updateData_eq_ok hpd
      cases hok
      exact .overwrite hst

/-- The body of the inserting cases returns: an issued index lies in the packed array. -/
theorem insertAt_returns (hle : st.numDataEntries ≤ st.packed.numElements) (laneId : Nat) (k v : U64) (r : Nat)
    (s : Slot) : ∃ st', st.insertAt H laneId k v r s = .ok st' := by
  unfold Store.insertAt
  cases ha : st.nextIndex laneId with
  | none =>
      rw [show st.lanes.allocRemoteDataSlot laneId st.numDataEntries
        = (none, (st.lanes.allocRemoteDataSlot laneId st.numDataEntries).2) from Prod.ext ha rfl]
      exact ⟨_, rfl⟩
  | some idx =>
      have hidx : idx < st.packed.numElements := (nextIndex_lt ha).trans_le hle
      rw [show st.lanes.allocRemoteDataSlot laneId st.numDataEntries
        = (some idx, (st.lanes.allocRemoteDataSlot laneId st.numDataEntries).2) from Prod.ext ha rfl]
      simp only [PackedData.updateData_ok hidx]
      exact ⟨_, rfl⟩

/-- A put returns when its row is in range, and the address of its primary slot where that slot is occupied. -/
theorem numaPut_returns (hrow : st.lookup.row H k < st.buckets.numElements)
    (haddr : st.status H k ≠ .good → st.addr (st.lookup.row H k) (st.lookup.slot H k) < st.packed.numElements)
    (hle : st.numDataEntries ≤ st.packed.numElements) (laneId : Nat) (v : U64) :
    ∃ st', st.numaPut H laneId k v = .ok st' := by
  unfold Store.numaPut
  simp only [LudoBuckets.row_ok hrow, Exec.ok_bind, Store.addrOf_slots]
  cases hst : st.status H k with
  | good =>
      rw [show LudoBucket.checkSlots H _ k _ = .good from hst]
      exact insertAt_returns hle ..
  | maybeUpdate =>
      rw [show LudoBucket.checkSlots H _ k _ = .maybeUpdate from hst]
      have hlt := haddr (by rw [hst]; decide)
      simp only [PackedData.entry_ok hlt, Exec.ok_bind, PackedData.updateData_ok hlt]
      split
      · exact ⟨_, rfl⟩
      · exact ⟨_, rfl⟩
  | emptyExists =>
      rw [show LudoBucket.checkSlots H _ k _ = .emptyExists from hst]
      obtain ⟨s, hs⟩ := exists_putSlot_of_emptyExists hst
      simp only [find_eq_putSlot hst, hs]
      exact insertAt_returns hle ..
  | full =>
      rw [show LudoBucket.checkSlots H _ k _ = .full from hst]
      have hlt := haddr (by rw [hst]; decide)
      simp only [PackedData.updateData_ok hlt]
      exact ⟨_, rfl⟩

/-- A put of a reachable store returns. -/
theorem numaPut_ok (h : StoreInv nkeys st) (laneId : Nat) (k v : U64) : ∃ st', st.numaPut H laneId k v = .ok st' := by
  refine numaPut_returns (h.buckets ▸ h.row_lt k) ?_ (by rw [h.entries, h.packed]) laneId v
  -- the two branches that go through the primary slot's address find that slot occupied
  intro hne
  rw [h.packed]
  exact (h.issued _ _ (h.row_lt k) (occupied_of_status_ne hne)).1

/-- **Every put of a reachable store returns, with one of the five outcomes.** -/
theorem numaPut_cases (H : HashFn) (laneId : Nat) (k v : U64) (h : StoreInv nkeys st) :
    ∃ st', st.numaPut H laneId k v = .ok st' ∧ PutCase H st laneId k v st' := by
  obtain ⟨st', hok⟩ := numaPut_ok h laneId k v
  exact ⟨st', hok, numaPut_inv hok⟩

/-- An update that returns wrote the primary entry or nothing. -/
theorem numaUpdate_cases (hok : st.numaUpdate H k v = .ok st') : (st.primaryEntry H k).key ≠ k ∧ st' = st ∨
    (st.primaryEntry H k).key = k ∧ st' = st.setEntry (st.primaryAddr H k) ⟨k, 64, v⟩ := by
  unfold Store.numaUpdate at hok
  obtain ⟨b, hb, hok⟩ := Lib.bind_eq_ok.mp hok
  obtain ⟨-, rfl⟩ := LudoBuckets.row_eq_ok hb
  simp only [Store.addrOf_slots] at hok
  obtain ⟨e, he, hok⟩ := Lib.bind_eq_ok.mp hok
  obtain rfl : e = st.primaryEntry H k := (PackedData.entry_eq_ok he).2
  by_cases hk : (st.primaryEntry H k).key = k
  · rw [if_pos hk] at hok
    obtain ⟨pd, hpd, hok⟩ := Lib.bind_eq_ok.mp hok
    obtain ⟨-, rfl⟩ := PackedData.updateData_eq_ok hpd
    exact Or.inr ⟨hk, (Except.ok.inj hok).symm⟩
  · rw [if_neg hk] at hok
    exact Or.inl ⟨hk, (Except.ok.inj hok).symm⟩

/-- A remove that returns cleared the primary entry and its slot, or nothing. -/
theorem numaRemove_cases (hok : st.numaRemove H k = .ok st') : (st.primaryEntry H k).key ≠ k ∧ st' = st ∨
    (st.primaryEntry H k).key = k ∧
      st' = (st.setEntry (st.primaryAddr H k) .zero).setWord (st.lookup.row H k) (st.lookup.slot H k) 0 := by
  unfold Store.numaRemove PackedData.removeDataWithKeyCheck at hok
  obtain ⟨b, hb, hok⟩ := Lib.bind_eq_ok.mp hok
  obtain ⟨-, rfl⟩ := LudoBuckets.row_eq_ok hb
  simp only [Store.addrOf_slots] at hok
  obtain ⟨r, hr, hok⟩ := Lib.bind_eq_ok.mp hok
  obtain ⟨e, he, hr⟩ := Lib.bind_eq_ok.mp hr
  obtain rfl : e = st.primaryEntry H k := (PackedData.entry_eq_ok he).2
  by_cases hk : (st.primaryEntry H k).key = k
  · rw [if_neg (not_not.mpr hk)] at hr
    cases hr
    exact Or.inr ⟨hk, (Except.ok.inj hok).symm⟩
  · rw [if_pos hk] at hr
    cases hr
    exact Or.inl ⟨hk, (Except.ok.inj hok).symm⟩

/-- All an operation does to the lanes is to use up an index. -/
theorem step_lanes {op : NumaOp} (hok : st.step H op = .ok st') :
    st'.lanes = st.lanes ∨ ∃ laneId, st'.lanes = (st.takeIndex laneId).lanes := by
  cases op with
  | put laneId k v =>
      cases numaPut_inv hok with
      | noSpace s hs ha => exact Or.inr ⟨laneId, rfl⟩
      | insert s idx hs ha => exact Or.inr ⟨laneId, rfl⟩
      | update hst hk | dropped hst hk | overwrite hst => exact Or.inl rfl
  | update k v =>
      rcases numaUpdate_cases hok with ⟨-, rfl⟩ | ⟨-, rfl⟩ <;> exact Or.inl rfl
  | remove k =>
      rcases numaRemove_cases hok with ⟨-, rfl⟩ | ⟨-, rfl⟩ <;> exact Or.inl rfl

/-- No operation changes the number of rows. -/
theorem step_numBuckets {op : NumaOp} (hok : st.step H op = .ok st') :
    st'.lookup.numBuckets = st.lookup.numBuckets := by
  cases op with
  | put laneId key val =>
      cases numaPut_inv hok with
      | noSpace => rfl
      | insert => rfl
      | update => rfl
      | dropped => rfl
      | overwrite => rfl
  | update key val =>
      rcases numaUpdate_cases hok with ⟨-, rfl⟩ | ⟨-, rfl⟩
      · rfl
      · rfl
  | remove key =>
      rcases numaRemove_cases hok with ⟨-, rfl⟩ | ⟨-, rfl⟩
      · rfl
      · rfl

end Inversion

/-! ## An operation in range returns -/

/-- The key of an operation. -/
def NumaOp.key : NumaOp → U64
  | .put _ key _ => key
  | .update key _ => key
  | .remove key => key

/-- A writing operation returns when its row and the addresses of the row are in range. -/
theorem step_returns {H : HashFn} (st : Store) (op : NumaOp) (hrow : st.lookup.row H op.key < st.buckets.numElements)
    (haddr : ∀ t, st.addr (st.lookup.row H op.key) t < st.packed.numElements)
    (hle : st.numDataEntries ≤ st.packed.numElements) : ∃ st', st.step H op = .ok st' := by
  cases op with
  | put laneId k v => exact numaPut_returns hrow (fun _ => haddr _) hle laneId v
  | update k v =>
      have hlt := haddr (st.lookup.slot H k)
      have hrow : st.lookup.row H k < st.buckets.numElements := hrow
      change ∃ st', st.numaUpdate H k v = .ok st'
      unfold Store.numaUpdate
      simp only [LudoBuckets.row_ok hrow, Exec.ok_bind, Store.addrOf_slots]
      rw [show st.packed.entry (st.addr (st.lookup.row H k) (st.lookup.slot H k)) = _ from PackedData.entry_ok hlt,
        Exec.ok_bind]
      split
      · rw [show st.packed.updateData (st.addr (st.lookup.row H k) (st.lookup.slot H k)) k 64 v = _
          from PackedData.updateData_ok hlt k 64 v]
        exact ⟨_, rfl⟩
      · exact ⟨_, rfl⟩
  | remove k =>
      have hlt := haddr (st.lookup.slot H k)
      have hrow : st.lookup.row H k < st.buckets.numElements := hrow
      change ∃ st', st.numaRemove H k = .ok st'
      unfold Store.numaRemove PackedData.removeDataWithKeyCheck
      simp only [LudoBuckets.row_ok hrow, Exec.ok_bind, Store.addrOf_slots]
      rw [show st.packed.entry (st.addr (st.lookup.row H k) (st.lookup.slot H k)) = _ from PackedData.entry_ok hlt,
        Exec.ok_bind]
      split <;> exact ⟨_, rfl⟩

/-! ## The invariant along a run -/

section Preservation

variable {H : HashFn} {nkeys : Nat} {st st' : Store} {laneId : Nat} {k v : U64}

/-- A fresh index is held by no occupied slot. -/
theorem StoreInv.nextIndex_fresh (h : StoreInv nkeys st) {idx : Nat} (ha : st.nextIndex laneId = some idx)
    {r : Nat} {s : Slot} (hr : r < st.lookup.numBuckets) (hs : st.Occupied r s) : st.addr r s ≠ idx := by
  have hlane : laneId % st.lanes.lanes < st.lanes.lanes := Nat.mod_lt _ st.lanes.lanes_pos
  rw [nextIndex_eq ha]
  intro heq
  rcases (h.issued r s hr hs).2 with hlt | hiss
  · have := h.strided.base_le hlane
    omega
  · rw [heq] at hiss
    exact h.strided.not_issued hlane hiss

/-- A fresh index lies behind the loaded keys. -/
theorem StoreInv.le_nextIndex (h : StoreInv nkeys st) {idx : Nat} (ha : st.nextIndex laneId = some idx) :
    nkeys ≤ idx := by
  rw [nextIndex_eq ha]
  exact h.strided.base_le (Nat.mod_lt _ st.lanes.lanes_pos)

/-- The slot word of an inserting put names the new index. -/
theorem StoreInv.addrOf_insert (h : StoreInv nkeys st) {idx : Nat} (ha : st.nextIndex laneId = some idx)
    (finger : U8) : addrOf (combine finger 64 (BitVec.ofNat 64 idx)) = idx := by
  have hlt : idx < 2 ^ 40 := lt_of_lt_of_le (nextIndex_lt ha) (h.entries ▸ h.bound)
  rw [addrOf_insertWord, Nat.mod_eq_of_lt hlt]

theorem occ_insert (finger : U8) (addr : U64) : occ (combine finger 64 addr) = true :=
  occ_combine (by decide)

/-- A slot of any row filled with the index that a lane hands out. -/
theorem StoreInv.insertWord (h : StoreInv nkeys st) {idx : Nat} (ha : st.nextIndex laneId = some idx) (e : PackedStruct)
    (r : Nat) (s : Slot) (finger : U8) : StoreInv nkeys (((st.takeIndex laneId).setEntry idx e).setWord r s
      (combine finger 64 (BitVec.ofNat 64 idx))) := by
  have hlane : laneId % st.lanes.lanes < st.lanes.lanes := Nat.mod_lt _ st.lanes.lanes_pos
  have haddr := h.addrOf_insert ha finger
  refine ((h.takeIndex laneId).setEntry idx e).fill (occ_insert _ _) ?_ ?_ ?_
  · rw [haddr, ← h.entries]
    exact nextIndex_lt ha
  · rw [haddr, nextIndex_eq ha]
    exact h.strided.issued_next hlane
  · intro r' s' hr' hs'
    rw [haddr]
    exact h.nextIndex_fresh ha hr' hs'

theorem StoreInv.insertEntry (h : StoreInv nkeys st) {idx : Nat} (ha : st.nextIndex laneId = some idx) (s : Slot) :
    StoreInv nkeys (st.insertEntry H laneId k v s idx) := h.insertWord ha _ _ s _

theorem StoreInv.putCase (h : StoreInv nkeys st) (hc : PutCase H st laneId k v st') : StoreInv nkeys st' := by
  cases hc with
  | noSpace s hs ha => exact h.takeIndex laneId
  | insert s idx hs ha => exact h.insertEntry ha s
  | update hst hk => exact h.setEntry _ _
  | dropped hst hk => exact h
  | overwrite hst => exact (h.setEntry _ _).reseed _ _

/-- **One step.** Every client operation keeps the invariant. -/
theorem StoreInv.step (h : StoreInv nkeys st) {op : NumaOp} (hok : st.step H op = .ok st') :
    StoreInv nkeys st' := by
  cases op with
  | put laneId k v =>
      exact h.putCase (numaPut_inv hok)
  | update k v =>
      rcases numaUpdate_cases hok with ⟨-, rfl⟩ | ⟨-, rfl⟩
      · exact h
      · exact h.setEntry _ _
  | remove k =>
      rcases numaRemove_cases hok with ⟨-, rfl⟩ | ⟨-, rfl⟩
      · exact h
      · exact (h.setEntry _ _).clear _ _

end Preservation

/-! ## The bulk load -/

section BulkLoad

variable {H : HashFn} {cp : ExactLudo} {existKeys : List U64} {memThreads : Nat} {alien : U64 → Bool}
  {regMem : Nat → PackedStruct} {packedStruct : PackedStruct} {st : Store}

theorem setupLanes_lanes (nkeys memThreads : Nat) :
    (setupLanes nkeys memThreads).lanes = effectiveMemThreads memThreads := by
  unfold Lanes.lanes setupLanes effectiveMemThreads kMaxNumaLanes
  simp only
  split <;> omega

theorem setupLanes_strided (nkeys memThreads : Nat) :
    Lib.Strided (setupLanes nkeys memThreads).lanes nkeys (setupLanes nkeys memThreads).laneNextFreeIndex := by
  rw [setupLanes_lanes]
  intro i hi
  exact ⟨0, by simp [setupLanes, hi]⟩

/-- The bulk load returns; entry `i` of the packed array holds key `i` with data `i`. -/
theorem setupLudoTable_ok (H : HashFn) (cp : ExactLudo) (existKeys : List U64) (memThreads : Nat)
    (alien : U64 → Bool) (regMem : Nat → PackedStruct) (packedStruct : PackedStruct) :
    ∃ st, setupLudoTable H cp existKeys memThreads alien regMem packedStruct = .ok st ∧
      st.lookup = cp.dataPlane alien ∧ st.buckets = cp.remoteBuckets H ∧
      st.lanes = setupLanes existKeys.length memThreads ∧ st.numDataEntries = 2 * existKeys.length ∧
      st.packed.numElements = 2 * existKeys.length ∧
      ∀ i : Fin existKeys.length, st.packed.rawArray i = ⟨existKeys.get i, 8, BitVec.ofNat 64 i⟩ := by
  obtain ⟨pd, hpd, -, hel, hload, -⟩ := PackedData.bulkLoadAll_ok existKeys
    (PackedData.ofRegMem regMem (2 * existKeys.length) packedStruct)
    (by simp only [PackedData.ofRegMem]; omega)
  refine ⟨⟨cp.dataPlane alien, cp.remoteBuckets H, pd, setupLanes existKeys.length memThreads,
    2 * existKeys.length⟩, ?_, rfl, rfl, rfl, rfl, hel, ?_⟩
  · unfold setupLudoTable
    rw [hpd]
    rfl
  · intro i
    have hi := hload i i.isLt
    simp only [PackedData.ofRegMem, Nat.zero_add] at hi
    exact hi

/-- The counter stands behind the loaded keys. -/
theorem setupLudoTable_num (hok : setupLudoTable H cp existKeys memThreads alien regMem packedStruct = .ok st) :
    st.packed.num = existKeys.length := by
  obtain ⟨pd, hpd, hnum, -⟩ := PackedData.bulkLoadAll_ok existKeys
    (PackedData.ofRegMem regMem (2 * existKeys.length) packedStruct)
    (by simp only [PackedData.ofRegMem]; omega)
  unfold setupLudoTable at hok
  rw [hpd] at hok
  cases hok
  rw [hnum]
  exact Nat.zero_add _

theorem Loaded.storeInv (h : Loaded H cp existKeys)
    (hok : setupLudoTable H cp existKeys memThreads alien regMem packedStruct = .ok st) :
    StoreInv existKeys.length st := by
  obtain ⟨st', hok', hlk, hbk, hln, hent, hel, -⟩ :=
    setupLudoTable_ok H cp existKeys memThreads alien regMem packedStruct
  obtain rfl : st' = st := Except.ok.inj (hok'.symm.trans hok)
  have hnb : st'.lookup.numBuckets = cp.numBuckets := by rw [hlk]; rfl
  have hword : ∀ r s, st'.word r s = (cp.remoteBuckets H).word r s := fun r s => by rw [Store.word, hbk]
  have hocc : ∀ r s, st'.Occupied r s → occ ((cp.remoteBuckets H).word r s) = true := fun r s hs => by
    rw [Store.Occupied, hword] at hs; exact hs
  have hbound := h.bound
  refine ⟨by omega, hent, hel, by rw [hbk, hnb]; rfl, by rw [hnb]; exact h.inv.numBuckets_pos,
    by rw [hln]; exact setupLanes_strided _ _, ?_, ?_, ?_⟩
  · intro r s hr hs
    rw [hnb] at hr
    rw [Store.Occupied, hword] at hs
    rw [hword]
    rcases h.inv.seedsSeparate.remoteBuckets_word hr s with hz | ⟨s', hs', -, hw⟩
    · exact hz
    · have hlt := h.value_lt hs'
      rw [hw] at hs
      exact absurd (occ_bulkWord (by omega)) hs
  · intro r s hr hs
    rw [hnb] at hr
    obtain ⟨s', hs', -, ha⟩ := h.occupied hr (hocc r s hs)
    have hlt := h.value_lt hs'
    rw [Store.addr, hword, ha]
    exact ⟨by omega, Or.inl hlt⟩
  · intro r s r' s' hr hr' hs hs' ha
    rw [hnb] at hr hr'
    obtain ⟨t, ht, htslot, hta⟩ := h.occupied hr (hocc r s hs)
    obtain ⟨t', ht', htslot', hta'⟩ := h.occupied hr' (hocc r' s' hs')
    rw [Store.addr, Store.addr, hword, hword, hta, hta'] at ha
    obtain ⟨rfl, rfl⟩ := h.distinct r t r' t' ht ht' (BitVec.eq_of_toNat_eq ha)
    exact ⟨rfl, htslot.symm.trans htslot'⟩

/-- **The whole run.** Every store reached from a bulk load keeps the invariant. -/
theorem ReachedFrom.storeInv {C : Store → NumaOp → Prop} (h : ReachedFrom H existKeys C st) :
    StoreInv existKeys.length st := by
  obtain ⟨cp, memThreads, alien, regMem, packedStruct, st₀, hld, hok, hrun⟩ := h
  exact hrun.invariant (hld.storeInv hok) (fun _ _ _ hinv _ hstep => hinv.step hstep)

end BulkLoad

end Outback
