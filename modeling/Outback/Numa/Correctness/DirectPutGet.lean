import Outback.Numa.Correctness.DirectTable

/-!
# `Numa.Correctness.DirectPutGet` — a get behind an acknowledged put, at the server's handlers

`outback_put_direct` acknowledges in three places: the primary slot, any other empty slot of the row, and the LRU cache.
`outback_get_direct` reads the entry behind the primary slot and compares no key. **`put_then_get_iff`**: in every reachable
server process, a put that replies `status = true` is seen by a get of its key, and leaves the get of every other stored key
alone, exactly where `PutSeen` holds. That is the rule for an empty primary slot and for a key that is already there; where
another key is in the way, the get answers with that key's data. `put_lost` is a put into a full row.
-/

namespace Outback

/-! ## What is asked of a put -/

/-- The calls are puts, updates and removes, each at the location of its key. -/
def OwnLoc (H : HashFn) (s : NumaServer) : DirectCall → Prop
  | .get _ => False
  | .put loc k _ _ | .update loc k _ | .remove loc k => loc = 4 * s.orch.lookup.row H k + s.orch.lookup.slot H k

/-- The data that the word of a new entry refers to: an index of 32 bits. -/
def SlotTable.newData (t : SlotTable) (v : U64) : U64 :=
  if t.packed.num < 2 ^ 32 then v else (t.packed.rawArray (t.packed.num % 2 ^ 32)).data

namespace NumaServer

variable (H : HashFn)

/-- `outback_get_direct` at `lookup_slot(k)`. -/
def getOwn (s : NumaServer) (k : U64) : Exec ReplyValue :=
  s.outbackGetDirect (4 * s.orch.lookup.row H k + s.orch.lookup.slot H k)

/-- The entry of a key's primary slot. -/
def primaryEntry (s : NumaServer) (k : U64) : PackedStruct :=
  s.table.entryAt (s.orch.lookup.row H k) (s.orch.lookup.slot H k)

/-- The server holds the key: a slot of its row does, or the LRU cache. -/
def Stores (s : NumaServer) (k : U64) : Prop :=
  (∃ t, s.table.Occupied (s.orch.lookup.row H k) t ∧ (s.table.entryAt (s.orch.lookup.row H k) t).key = k) ∨
    k ∈ s.lruCache.keys.map Prod.fst

/-- Slot `t` of the row of `k` is the primary slot of no other stored key, or their get reads `data` there. -/
def SlotUnread (s : NumaServer) (k : U64) (t : Slot) (data : U64) : Prop :=
  ∀ k', k' ≠ k → s.Stores H k' → s.orch.lookup.row H k' = s.orch.lookup.row H k → s.orch.lookup.slot H k' = t →
    (s.primaryEntry H k').data = data

/-- Where an acknowledged put of `v` under `k` is seen, and by no other key. -/
def PutSeen (s : NumaServer) (k v : U64) : Prop :=
  match s.status H (s.orch.lookup.row H k) k with
  | .good => s.table.newData v = v ∧ s.SlotUnread H k (s.orch.lookup.slot H k) v
  | .maybeUpdate => (s.primaryEntry H k).key = k → ∀ k', k' ≠ k → s.Stores H k' →
      s.table.addr (s.orch.lookup.row H k') (s.orch.lookup.slot H k')
        = s.table.addr (s.orch.lookup.row H k) (s.orch.lookup.slot H k) → (s.primaryEntry H k').data = v
  | .emptyExists => (s.primaryEntry H k).data = v ∧ ∀ t, s.firstEmpty (s.orch.lookup.row H k) = some t →
      s.SlotUnread H k t (s.table.newData v)
  | .full => (s.primaryEntry H k).data = v

end NumaServer

/-- The get of `k` answers `v`, and those of the other stored keys what they answered before. -/
structure PutThenGet (H : HashFn) (s s' : NumaServer) (k v : U64) : Prop where
  own : s'.getOwn H k = .ok ⟨true, v⟩
  others : ∀ k', k' ≠ k → s.Stores H k' → s'.getOwn H k' = s.getOwn H k'

/-! ## A get in terms of the entries -/

section PutGet

variable {H : HashFn} {s s' : NumaServer} {k v : U64} {rep : ReplyValue}

theorem DirectInv.row_lt (h : DirectInv s) (k : U64) : s.orch.lookup.row H k < s.table.buckets.numElements :=
  lt_of_lt_of_eq (DataPlaneLudo.row_lt H h.pos k) h.rows.symm

theorem DirectInv.getOwn_ok (h : DirectInv s) (hpos : 0 < s.table.packed.numElements) (k : U64) :
    s.getOwn H k = .ok ⟨true, (s.primaryEntry H k).data⟩ := h.getDirect_ok hpos (h.row_lt k)

/-- The entries after the put: `v` for `k`, and for the other stored keys the data that was there. -/
def EntriesSeen (H : HashFn) (s s' : NumaServer) (k v : U64) : Prop :=
  (s'.primaryEntry H k).data = v ∧ ∀ k', k' ≠ k → s.Stores H k' → (s'.primaryEntry H k').data = (s.primaryEntry H k').data

/-- In terms of the entries. -/
theorem putThenGet_iff (h : DirectInv s) (h' : DirectInv s') (hpos : 0 < s.table.packed.numElements)
    (hpos' : 0 < s'.table.packed.numElements) : PutThenGet H s s' k v ↔ EntriesSeen H s s' k v := by
  have hdata : ∀ a b : U64, (Except.ok ⟨true, a⟩ : Exec ReplyValue) = .ok ⟨true, b⟩ ↔ a = b := by
    intro a b
    constructor
    · intro heq
      exact (ReplyValue.mk.inj (Except.ok.inj heq)).2
    · rintro rfl
      rfl
  constructor
  · rintro ⟨hown, hothers⟩
    rw [h'.getOwn_ok hpos', hdata] at hown
    refine ⟨hown, fun k' hne hk' => ?_⟩
    have hget := hothers k' hne hk'
    rwa [h'.getOwn_ok hpos', h.getOwn_ok hpos, hdata] at hget
  · rintro ⟨hown, hothers⟩
    refine ⟨by rw [h'.getOwn_ok hpos', hdata]; exact hown, fun k' hne hk' => ?_⟩
    rw [h'.getOwn_ok hpos', h.getOwn_ok hpos, hdata]
    exact hothers k' hne hk'

theorem newData_eq (t : SlotTable) (r : Nat) (q : Slot) (k v : U64) :
    ((t.insertAt H r q k v).entryAt r q).data = t.newData v := by
  rw [SlotTable.insertAt_entryAt_new]
  unfold SlotTable.newData
  split <;> rfl

/-! ## The branches of a put -/

section Cases

variable (h : DirectInv s) (hlookup : s'.orch.lookup = s.orch.lookup)
include hlookup

theorem primaryEntry_eq (k' : U64) :
    s'.primaryEntry H k' = s'.table.entryAt (s.orch.lookup.row H k') (s.orch.lookup.slot H k') := by
  unfold NumaServer.primaryEntry
  rw [hlookup]

include h

/-- What the other keys see of a new entry in slot `q`. -/
theorem insertAt_unread (hroom : s.table.packed.num < s.table.packed.numElements) {q : Slot}
    (htable : s'.table = s.table.insertAt H (s.orch.lookup.row H k) q k v) :
    (∀ k', k' ≠ k → s.Stores H k' → (s'.primaryEntry H k').data = (s.primaryEntry H k').data) ↔
      s.SlotUnread H k q (s.table.newData v) := by
  have hnew : ∀ k', s.orch.lookup.row H k' = s.orch.lookup.row H k → s.orch.lookup.slot H k' = q →
      (s'.primaryEntry H k').data = s.table.newData v := by
    intro k' hrow hslot
    rw [primaryEntry_eq hlookup, htable, hrow, hslot, newData_eq]
  constructor
  · intro hothers k' hne hk' hrow hslot
    rw [← hothers k' hne hk', hnew k' hrow hslot]
  · intro hunread k' hne hk'
    by_cases hslot : s.orch.lookup.row H k' = s.orch.lookup.row H k ∧ s.orch.lookup.slot H k' = q
    · rw [hnew k' hslot.1 hslot.2, hunread k' hne hk' hslot.1 hslot.2]
    · rw [primaryEntry_eq hlookup, htable, h.table.insertAt_entryAt hroom (h.row_lt k') hslot]
      rfl

/-- A new entry in the empty primary slot. -/
theorem entriesSeen_good (hroom : s.table.packed.num < s.table.packed.numElements)
    (htable : s'.table = s.table.insertAt H (s.orch.lookup.row H k) (s.orch.lookup.slot H k) k v) :
    EntriesSeen H s s' k v ↔ s.table.newData v = v ∧ s.SlotUnread H k (s.orch.lookup.slot H k) v := by
  unfold EntriesSeen
  rw [insertAt_unread h hlookup hroom htable, primaryEntry_eq hlookup, htable, newData_eq]
  constructor
  · rintro ⟨hnew, hunread⟩
    exact ⟨hnew, hnew ▸ hunread⟩
  · rintro ⟨hnew, hunread⟩
    exact ⟨hnew, hnew.symm ▸ hunread⟩

/-- A new entry in another slot of the row. -/
theorem entriesSeen_fill (hroom : s.table.packed.num < s.table.packed.numElements) {q : Slot}
    (hq : q ≠ s.orch.lookup.slot H k) (htable : s'.table = s.table.insertAt H (s.orch.lookup.row H k) q k v) :
    EntriesSeen H s s' k v ↔ (s.primaryEntry H k).data = v ∧ s.SlotUnread H k q (s.table.newData v) := by
  have hown : s'.primaryEntry H k = s.primaryEntry H k := by
    rw [primaryEntry_eq hlookup, htable, h.table.insertAt_entryAt hroom (h.row_lt k) (fun heq => hq heq.2.symm)]
    rfl
  unfold EntriesSeen
  rw [insertAt_unread h hlookup hroom htable, hown]

omit h

/-- The entry of the primary slot rewritten. -/
theorem entriesSeen_update
    (htable : s'.table = s.table.setEntry (s.table.addr (s.orch.lookup.row H k) (s.orch.lookup.slot H k)) ⟨k, 64, v⟩) :
    EntriesSeen H s s' k v ↔ ∀ k', k' ≠ k → s.Stores H k' →
      s.table.addr (s.orch.lookup.row H k') (s.orch.lookup.slot H k')
        = s.table.addr (s.orch.lookup.row H k) (s.orch.lookup.slot H k) → (s.primaryEntry H k').data = v := by
  have hset : ∀ k', s'.primaryEntry H k' = if s.table.addr (s.orch.lookup.row H k') (s.orch.lookup.slot H k')
      = s.table.addr (s.orch.lookup.row H k) (s.orch.lookup.slot H k) then ⟨k, 64, v⟩ else s.primaryEntry H k' := by
    intro k'
    rw [primaryEntry_eq hlookup, htable]
    exact SlotTable.setEntry_entryAt
  constructor
  · rintro ⟨-, hothers⟩ k' hne hk' ha
    rw [← hothers k' hne hk', hset, if_pos ha]
  · intro hunread
    refine ⟨by rw [hset, if_pos rfl], fun k' hne hk' => ?_⟩
    rw [hset]
    split
    · rename_i ha
      exact (hunread k' hne hk' ha).symm
    · rfl

/-- The cachebit of the primary slot set, for a value in the LRU cache. -/
theorem entriesSeen_full (htable : s'.table = s.table.setCachebit (s.orch.lookup.row H k) (s.orch.lookup.slot H k)) :
    EntriesSeen H s s' k v ↔ (s.primaryEntry H k).data = v := by
  have hsame : ∀ k', s'.primaryEntry H k' = s.primaryEntry H k' := by
    intro k'
    rw [primaryEntry_eq hlookup, htable]
    exact congrArg s.table.packed.rawArray SlotTable.setCachebit_fields.1
  unfold EntriesSeen
  rw [hsame]
  exact ⟨fun hp => hp.1, fun hdata => ⟨hdata, fun k' _ _ => by rw [hsame]⟩⟩

end Cases

/-! ## Every put -/

/-- What a put of `k` leaves, in the terms of its outcome: what the get of `k` reads, and what the others do. -/
theorem DirectPut.seen_iff (h : DirectInv s) (h' : DirectInv s') (hlookup : s'.orch.lookup = s.orch.lookup)
    (hput : DirectPut H s (s.orch.lookup.row H k) k v s'.table s'.lruCache rep) :
    (rep.status = true → PutThenGet H s s' k v) ↔ s.PutSeen H k v := by
  -- a put that returns has an entry to work with
  have hiff : 0 < s.table.packed.numElements → s'.table.packed.numElements = s.table.packed.numElements →
      rep.status = true → ((rep.status = true → PutThenGet H s s' k v) ↔ EntriesSeen H s s' k v) := by
    intro hpos hsize hst
    rw [← putThenGet_iff h h' hpos (hsize ▸ hpos)]
    exact ⟨fun hp => hp hst, fun hp _ => hp⟩
  have hposOcc : s.table.Occupied (s.orch.lookup.row H k) (s.orch.lookup.slot H k) → 0 < s.table.packed.numElements := by
    intro hocc
    exact lt_of_lt_of_le (lt_of_le_of_lt (Nat.zero_le _) (h.table.below _ _ (h.row_lt k) hocc)) h.table.room
  unfold NumaServer.PutSeen
  generalize htable : s'.table = t, s'.lruCache = c at hput
  cases hput with
  | good hst hroom =>
      rw [hst, hiff (Nat.zero_lt_of_lt hroom) (by rw [htable]; rfl) rfl]
      exact entriesSeen_good h hlookup hroom htable
  | update hst hk =>
      rw [hst, hiff (hposOcc (LudoBucket.checkSlots_maybeUpdate_iff.mp hst).1) (by rw [htable]; rfl) rfl,
        entriesSeen_update hlookup htable]
      exact ⟨fun hunread _ => hunread, fun hunread => hunread hk⟩
  | mismatch hst hk =>
      rw [hst]
      exact iff_of_true (fun hfalse => Bool.noConfusion hfalse) (fun heq => absurd heq hk)
  | @fill hst q hq hroom =>
      -- the primary slot is occupied, the filled one is not
      have hslot : q ≠ s.orch.lookup.slot H k := by
        rintro rfl
        have hempty := List.find?_some hq
        rw [decide_eq_true_eq] at hempty
        exact hempty (LudoBucket.exists_empty_of_emptyExists hst).1
      rw [hst, hiff (Nat.zero_lt_of_lt hroom) (by rw [htable]; rfl) rfl, entriesSeen_fill h hlookup hroom hslot htable]
      constructor
      · rintro ⟨hdata, hunread⟩
        refine ⟨hdata, fun t ht => ?_⟩
        obtain rfl : q = t := Option.some.inj (hq.symm.trans ht)
        exact hunread
      · rintro ⟨hdata, hunread⟩
        exact ⟨hdata, hunread q hq⟩
  | full hst =>
      rw [hst, hiff (hposOcc (LudoBucket.occ_of_full hst _)) (by rw [htable]; rfl) rfl]
      exact entriesSeen_full hlookup htable

/-- **A put, then a get.** In every server process reached by calls, for a put at the location of its key. -/
theorem put_then_get_iff {existKeys : List U64} {C : NumaServer → DirectCall → Prop} {reply : ReplyValue}
    (hreach : DirectReachedFrom H existKeys C s)
    (hput : s.outbackPutDirect H (4 * s.orch.lookup.row H k + s.orch.lookup.slot H k) k v reply = .ok (s', rep)) :
    (rep.status = true → PutThenGet H s s' k v) ↔ s.PutSeen H k v := by
  have hinv := hreach.inv
  have hinv' : DirectInv s' := hinv.call (c := .put _ k v reply) (congrArg (Except.map Prod.fst) hput)
  rw [hinv.putDirect] at hput
  obtain ⟨-, hcase⟩ := applyPut_case hput
  rw [locRow_slot] at hcase
  obtain ⟨regions, num, cache, -, hkeeps⟩ := applyPut_keeps hput
  have hlookup : s'.orch.lookup = s.orch.lookup := by rw [show s' = _ from hkeeps]
  exact hcase.seen_iff hinv hinv' hlookup

end PutGet

/-! ## A put that is seen and two that are not -/

/-- The server process of two keys of row 31. -/
def pairDirect : NumaServer := (rowStore 31 0 [0, 301]).numaServer 1 1

/-- Key 540 goes to the free slot 3 of row 31 and is seen. Key 2172, whose slot that is as well, is put next to it and is not
    seen: a get of it answers the data of key 540. -/
theorem put_then_get_iff_pair : ∃ (t u : NumaServer) (rep rep' : ReplyValue),
    DirectReachedFrom fastHasher64 [0, 301] (OwnLoc fastHasher64) pairDirect ∧
    pairDirect.outbackPutDirect fastHasher64 127 540 5 ⟨false, 0⟩ = .ok (t, rep) ∧ rep.status = true ∧
    PutThenGet fastHasher64 pairDirect t 540 5 ∧
    t.outbackPutDirect fastHasher64 127 2172 6 ⟨false, 0⟩ = .ok (u, rep') ∧ rep'.status = true ∧
    ¬ PutThenGet fastHasher64 t u 2172 6 := by
  have hreach : DirectReachedFrom fastHasher64 [0, 301] (OwnLoc fastHasher64) pairDirect :=
    rowStore_direct _ rowTable_pair
  have hloc : 4 * pairDirect.orch.lookup.row fastHasher64 540 + pairDirect.orch.lookup.slot fastHasher64 540 = 127 := by
    decide +kernel
  obtain ⟨⟨t, rep⟩, hput, htest⟩ := Lib.exists_of_passes
    (x := pairDirect.outbackPutDirect fastHasher64 127 540 5 ⟨false, 0⟩)
    (p := fun r : NumaServer × ReplyValue => decide (r.2.status = true ∧
        4 * r.1.orch.lookup.row fastHasher64 2172 + r.1.orch.lookup.slot fastHasher64 2172 = 127 ∧
        r.1.status fastHasher64 (r.1.orch.lookup.row fastHasher64 2172) 2172 = .emptyExists ∧
        (r.1.primaryEntry fastHasher64 2172).data = 5) &&
      Lib.passes (fun r' : NumaServer × ReplyValue => r'.2.status) (r.1.outbackPutDirect fastHasher64 127 2172 6 ⟨false, 0⟩)) (by decide +kernel)
  rw [Bool.and_eq_true, decide_eq_true_eq] at htest
  obtain ⟨⟨hack, hloc', hstatus, hdata⟩, hnext⟩ := htest
  obtain ⟨⟨u, rep'⟩, hput', hack'⟩ := Lib.exists_of_passes hnext
  have hreach' : DirectReachedFrom fastHasher64 [0, 301] (OwnLoc fastHasher64) t := by
    obtain ⟨cp, memThreads, alien, regMem, g, st, sSlow, sStop, hld, hok, hrun⟩ := hreach
    exact ⟨cp, memThreads, alien, regMem, g, st, sSlow, sStop, hld, hok,
      hrun.snoc (a := .put 127 540 5 ⟨false, 0⟩) hloc.symm (congrArg (Except.map Prod.fst) hput)⟩
  refine ⟨t, u, rep, rep', hreach, hput, hack, ?_, hput', hack', fun hseen => ?_⟩
  · refine (put_then_get_iff hreach (by rw [hloc]; exact hput)).mpr ?_ hack
    rw [NumaServer.PutSeen, show pairDirect.status fastHasher64 _ 540 = .good from by decide +kernel]
    refine ⟨by decide +kernel, fun k' _ hk' hrow hslot => ?_⟩
    -- the keys that the row holds have other slots
    rcases hk' with ⟨q, hocc, hkey⟩ | hcached
    · rw [hrow] at hocc hkey
      have hheld : ∀ q, pairDirect.table.Occupied (pairDirect.orch.lookup.row fastHasher64 540) q →
          pairDirect.orch.lookup.slot fastHasher64
            (pairDirect.table.entryAt (pairDirect.orch.lookup.row fastHasher64 540) q).key
            ≠ pairDirect.orch.lookup.slot fastHasher64 540 := by decide +kernel
      exact absurd (hkey ▸ hslot) (hheld q hocc)
    · exact absurd hcached List.not_mem_nil
  · have hseen' := (put_then_get_iff hreach' (by rw [hloc']; exact hput')).mp fun _ => hseen
    rw [NumaServer.PutSeen, hstatus] at hseen'
    exact absurd (hdata.symm.trans hseen'.1) (by decide)

/-- Row 31 is full. A put of key 1379 is acknowledged, and a get of it answers the data of key 540. -/
theorem put_lost : ∃ (s s' : NumaServer) (rep : ReplyValue),
    DirectReachedFrom fastHasher64 [0, 301, 540, 938] (OwnLoc fastHasher64) s ∧
    s.outbackPutDirect fastHasher64 (4 * s.orch.lookup.row fastHasher64 1379 + s.orch.lookup.slot fastHasher64 1379)
      1379 99 ⟨false, 0⟩ = .ok (s', rep) ∧ rep.status = true ∧ s'.getOwn fastHasher64 1379 = .ok ⟨true, 2⟩ ∧
    ¬ PutThenGet fastHasher64 s s' 1379 99 := by
  refine ⟨_, _, _, rowStore_direct _ rowTable_full, rfl, rfl, rfl, fun hseen => ?_⟩
  exact absurd hseen.own (by decide +kernel)

end Outback
