import Outback.SlotTable
import Outback.Numa.Correctness.Handlers

/-!
# `Numa.Correctness.DirectTable` — the table behind the server's handlers

Without a resize `ludo_buckets` and `packed_data` stay on region 1, nothing is blocked, and the lookup unit never changes:
`outback_put_direct` announces a seed but installs none. **`DirectReachedFrom.inv`** is what every run of calls keeps,
`applyPut_case` inverts a put into its five outcomes, and `getDirect_ok` says what a get reads.
-/

namespace Outback

/-- One call, its reply left out. -/
def NumaServer.callStep (H : HashFn) (s : NumaServer) (c : DirectCall) : Exec NumaServer := (s.call H c).map Prod.fst

/-- The server processes reached from a bulk load by calls that all meet the guard `C`. -/
def DirectReachedFrom (H : HashFn) (existKeys : List U64) (C : NumaServer → DirectCall → Prop) (s : NumaServer) : Prop :=
  ∃ cp memThreads alien regMem packedStruct st sSlow sStop, Loaded H cp existKeys ∧
    setupLudoTable H cp existKeys memThreads alien regMem packedStruct = .ok st ∧
    Lib.Reaches (NumaServer.callStep H) C (st.numaServer sSlow sStop) s

namespace NumaServer

/-- What the two globals refer to. -/
def table (s : NumaServer) : SlotTable where
  buckets := ⟨(s.orch.shared.regions s.ludoBuckets.ver).buckets, s.ludoBuckets.numElements⟩
  packed := ⟨(s.orch.shared.regions s.packedData.ver).packed, s.packedData.num, s.packedData.numElements⟩

variable (H : HashFn)

/-- The slot of a key in row `r` under the server's seed. -/
def slot (s : NumaServer) (r : Nat) (k : U64) : Slot := seedSlot H (s.orch.lookup.seeds r) k

/-- `check_slots` of a put. -/
def status (s : NumaServer) (r : Nat) (k : U64) : SlotStatus :=
  (s.table.buckets.bucketsArray r).checkSlots H k (s.slot H r k)

/-- The first empty slot of a row. -/
def firstEmpty (s : NumaServer) (r : Nat) : Option Slot := (List.finRange 4).find? fun t => ¬ s.table.Occupied r t

end NumaServer

/-- The outcomes of a put into row `r`: the table and the cache behind it, and its reply. -/
inductive DirectPut (H : HashFn) (s : NumaServer) (r : Nat) (k v : U64) : SlotTable → Cache U64 U64 → ReplyValue → Prop where
  /-- the primary slot is empty -/
  | good (hst : s.status H r k = .good) (hroom : s.table.packed.num < s.table.packed.numElements) :
      DirectPut H s r k v (s.table.insertAt H r (s.slot H r k) k v) s.lruCache ⟨true, 0⟩
  /-- the fingerprint matches and so does the key -/
  | update (hst : s.status H r k = .maybeUpdate) (hk : (s.table.entryAt r (s.slot H r k)).key = k) :
      DirectPut H s r k v (s.table.setEntry (s.table.addr r (s.slot H r k)) ⟨k, 64, v⟩) s.lruCache ⟨true, 1⟩
  /-- the fingerprint matches, the key does not -/
  | mismatch (hst : s.status H r k = .maybeUpdate) (hk : (s.table.entryAt r (s.slot H r k)).key ≠ k) :
      DirectPut H s r k v s.table s.lruCache ⟨false, 0⟩
  /-- another slot is empty -/
  | fill (hst : s.status H r k = .emptyExists) {t : Slot} (ht : s.firstEmpty r = some t)
      (hroom : s.table.packed.num < s.table.packed.numElements) :
      DirectPut H s r k v (s.table.insertAt H r t k v) s.lruCache ⟨true, 2⟩
  /-- no slot is empty: to the LRU cache -/
  | full (hst : s.status H r k = .full) :
      DirectPut H s r k v (s.table.setCachebit r (s.slot H r k)) (s.lruCache.insert k v)
        ⟨true, (1 : U64) <<< 8 ||| (s.orch.lookup.seeds r).setWidth 64⟩

/-- The handlers serve: their regions are mapped, nothing is blocked, and the table is in order. -/
structure DirectInv (s : NumaServer) : Prop where
  buckets : s.orch.Mapped s.ludoBuckets.ver
  packed : s.orch.Mapped s.packedData.ver
  unblocked : s.orch.mutationsBlocked = false
  rows : s.table.buckets.numElements = s.orch.lookup.numBuckets
  pos : 0 < s.orch.lookup.numBuckets
  table : s.table.Allotted

section Call

variable {H : HashFn} {s s' : NumaServer} {r : Nat} {k v : U64} {rep : ReplyValue}

/-! ## The globals -/

theorem putBuckets_table (s : NumaServer) (b : Nat → LudoBucket) (n : Nat) :
    (s.putBuckets ⟨b, n⟩).table = ⟨⟨b, s.ludoBuckets.numElements⟩, s.table.packed⟩ := by
  unfold NumaServer.putBuckets NumaServer.table
  simp only [Shared.setRegion_self]
  by_cases hv : s.packedData.ver = s.ludoBuckets.ver
  · rw [hv, Shared.setRegion_self]
  · rw [Shared.setRegion_of_ne _ _ hv]

theorem putPacked_table (s : NumaServer) (pd : PackedData) (hn : pd.numElements = s.packedData.numElements) :
    (s.putPacked pd).table = ⟨s.table.buckets, pd⟩ := by
  unfold NumaServer.putPacked NumaServer.table
  simp only [Shared.setRegion_self]
  rw [← hn]
  by_cases hv : s.ludoBuckets.ver = s.packedData.ver
  · rw [hv, Shared.setRegion_self]
  · rw [Shared.setRegion_of_ne _ _ hv]

/-- `ludo_buckets` was followed. -/
theorem buckets_eq_ok {lbs : LudoBuckets} (h : s.buckets = .ok lbs) : lbs = s.table.buckets := by
  unfold NumaServer.buckets at h
  split at h
  · exact (Except.ok.inj h).symm
  · cases h

/-- `packed_data` was followed. -/
theorem packed_eq_ok {pd : PackedData} (h : s.packed = .ok pd) : pd = s.table.packed := by
  unfold NumaServer.packed at h
  split at h
  · exact (Except.ok.inj h).symm
  · cases h

/-! ## Inversion -/

theorem insertDirect_table {t : Slot} {replyVal : U64}
    (h : s.insertDirect H s.table.buckets k v r t replyVal = .ok (s', rep)) :
    s.table.packed.num < s.table.packed.numElements ∧ s'.table = s.table.insertAt H r t k v ∧
      s'.lruCache = s.lruCache ∧ rep = ⟨true, replyVal⟩ := by
  unfold NumaServer.insertDirect at h
  obtain ⟨pd, hpd, h⟩ := Lib.bind_eq_ok.mp h
  obtain rfl := packed_eq_ok hpd
  obtain ⟨q, hq, h⟩ := Lib.bind_eq_ok.mp h
  obtain ⟨hroom, rfl⟩ := PackedData.bulkLoadData_eq_ok hq
  cases h
  refine ⟨hroom, ?_, rfl, rfl⟩
  show ((s.putPacked _).putBuckets _).table = _
  rw [putBuckets_table, putPacked_table s _ rfl]
  rfl

/-- What the loop of case 2 looks for. -/
theorem find_firstEmpty (s : NumaServer) (r : Nat) (k : U64) : (List.finRange 4).find? (fun t =>
    decide ((s.table.buckets.bucketsArray r).checkSlots H k t = .good)) = s.firstEmpty r := by
  unfold NumaServer.firstEmpty
  congr 1
  funext t
  rw [decide_eq_decide, LudoBucket.checkSlots_good_iff, ← Bool.not_eq_true]
  rfl

theorem exists_firstEmpty (h : s.status H r k = .emptyExists) : ∃ t, s.firstEmpty r = some t := by
  obtain ⟨-, t, ht⟩ := LudoBucket.exists_empty_of_emptyExists h
  unfold NumaServer.firstEmpty
  rw [← Option.isSome_iff_exists, List.find?_isSome]
  refine ⟨t, List.mem_finRange t, ?_⟩
  have hocc : ¬ s.table.Occupied r t := by
    rw [SlotTable.Occupied, Bool.not_eq_true]
    exact ht
  simpa using hocc

/-- **What a put can do.** -/
theorem applyPut_case {loc : Nat} {reply : ReplyValue} (h : s.applyPut H loc k v reply = .ok (s', rep)) :
    locRow loc < s.table.buckets.numElements ∧ DirectPut H s (locRow loc) k v s'.table s'.lruCache rep := by
  unfold NumaServer.applyPut at h
  obtain ⟨lbs, hlbs, h⟩ := Lib.bind_eq_ok.mp h
  obtain rfl := buckets_eq_ok hlbs
  obtain ⟨b, hb, h⟩ := Lib.bind_eq_ok.mp h
  obtain ⟨hrow, rfl⟩ := LudoBuckets.row_eq_ok hb
  refine ⟨hrow, ?_⟩
  have hdef : (s.table.buckets.bucketsArray (locRow loc)).checkSlots H k (seedSlot H (s.orch.lookup.seeds (locRow loc)) k)
      = s.status H (locRow loc) k := rfl
  simp only [hdef] at h
  cases hst : s.status H (locRow loc) k with
  | good =>
      simp only [hst] at h
      obtain ⟨hroom, htable, hcache, rfl⟩ := insertDirect_table h
      rw [htable, hcache]
      exact .good hst hroom
  | maybeUpdate =>
      simp only [hst] at h
      obtain ⟨pd, hpd, h⟩ := Lib.bind_eq_ok.mp h
      obtain rfl := packed_eq_ok hpd
      obtain ⟨key, hkey, h⟩ := Lib.bind_eq_ok.mp h
      obtain ⟨hlt, rfl⟩ := PackedData.readKey_eq_ok hkey
      split at h
      · rename_i hk
        rw [PackedData.updateData_ok hlt] at h
        cases h
        rw [putPacked_table s _ rfl]
        exact .update hst hk
      · rename_i hk
        cases h
        exact .mismatch hst hk
  | emptyExists =>
      simp only [hst] at h
      obtain ⟨t, ht⟩ := exists_firstEmpty hst
      rw [find_firstEmpty, ht] at h
      obtain ⟨hroom, htable, hcache, rfl⟩ := insertDirect_table h
      rw [htable, hcache]
      exact .fill hst ht hroom
  | full =>
      simp only [hst] at h
      cases h
      have htable : (s.putBuckets (s.table.buckets.setCachebit (locRow loc) (s.slot H (locRow loc) k))).table
          = s.table.setCachebit (locRow loc) (s.slot H (locRow loc) k) := putBuckets_table ..
      have hcase := DirectPut.full (v := v) hst
      rw [← htable] at hcase
      exact hcase

/-- An update rewrites the entry its slot refers to, or nothing. -/
theorem updateDirect_table {loc : Nat} (h : s.outbackUpdateDirect loc k v = .ok (s', rep)) :
    s'.table = s.table ∨ s'.table = s.table.setEntry (s.table.addr (locRow loc) (locSlot loc)) ⟨k, 64, v⟩ := by
  unfold NumaServer.outbackUpdateDirect at h
  obtain ⟨lbs, hlbs, h⟩ := Lib.bind_eq_ok.mp h
  obtain rfl := buckets_eq_ok hlbs
  obtain ⟨b, hb, h⟩ := Lib.bind_eq_ok.mp h
  obtain ⟨-, rfl⟩ := LudoBuckets.row_eq_ok hb
  obtain ⟨pd, hpd, h⟩ := Lib.bind_eq_ok.mp h
  obtain rfl := packed_eq_ok hpd
  obtain ⟨key, hkey, h⟩ := Lib.bind_eq_ok.mp h
  obtain ⟨hlt, rfl⟩ := PackedData.readKey_eq_ok hkey
  split at h
  · rw [PackedData.updateData_ok hlt] at h
    cases h
    right
    rw [putPacked_table s _ rfl]
    rfl
  · cases h
    exact Or.inl rfl

/-- A remove is `removeAt` of the slot it is given. -/
theorem applyRemove_table {loc : Nat} (h : s.applyRemove loc k = .ok (s', rep)) :
    locRow loc < s.table.buckets.numElements ∧ s'.table = s.table.removeAt (locRow loc) (locSlot loc) k := by
  unfold NumaServer.applyRemove PackedData.removeDataWithKeyCheck at h
  obtain ⟨lbs, hlbs, h⟩ := Lib.bind_eq_ok.mp h
  obtain rfl := buckets_eq_ok hlbs
  obtain ⟨b, hb, h⟩ := Lib.bind_eq_ok.mp h
  obtain ⟨hrow, rfl⟩ := LudoBuckets.row_eq_ok hb
  refine ⟨hrow, ?_⟩
  obtain ⟨pd, hpd, h⟩ := Lib.bind_eq_ok.mp h
  obtain rfl := packed_eq_ok hpd
  obtain ⟨q, hq, h⟩ := Lib.bind_eq_ok.mp h
  obtain ⟨e, he, hq⟩ := Lib.bind_eq_ok.mp hq
  obtain ⟨-, rfl⟩ := PackedData.entry_eq_ok he
  unfold SlotTable.removeAt
  split at hq
  · rename_i hk
    have hne : (s.table.entryAt (locRow loc) (locSlot loc)).key ≠ k := hk
    cases hq
    cases h
    rw [if_neg hne]
  · rename_i hk
    have heq : (s.table.entryAt (locRow loc) (locSlot loc)).key = k := not_not.mp hk
    cases hq
    cases h
    rw [if_pos heq, show NumaServer.table (NumaServer.putBuckets _ _) = _ from putBuckets_table ..,
      putPacked_table s _ rfl]
    rfl

/-! ## The invariant -/

/-- Only the table matters behind a call that is not deferred. -/
theorem DirectInv.keeps (h : DirectInv s) (hk : DataKeeps s s') (ht : s'.table.Allotted) : DirectInv s' := by
  obtain ⟨regions, num, cache, -, rfl⟩ := hk
  exact ⟨h.buckets, h.packed, h.unblocked, h.rows, h.pos, ht⟩

theorem DirectPut.allotted (hp : DirectPut H s r k v s'.table s'.lruCache rep) (h : s.table.Allotted) :
    s'.table.Allotted := by
  generalize s'.table = t, s'.lruCache = c at hp
  cases hp with
  | good hst hroom => exact h.insertAt hroom ..
  | update hst hk => exact h.setEntry ..
  | mismatch hst hk => exact h
  | fill hst ht hroom => exact h.insertAt hroom ..
  | full hst => exact h.setCachebit ..

/-- Nothing is blocked: a put is applied. -/
theorem DirectInv.putDirect (h : DirectInv s) (loc : Nat) (k v : U64) (reply : ReplyValue) :
    s.outbackPutDirect H loc k v reply = s.applyPut H loc k v reply := by
  unfold NumaServer.outbackPutDirect
  rw [h.unblocked]
  rfl

theorem DirectInv.removeDirect (h : DirectInv s) (loc : Nat) (k : U64) :
    s.outbackRemoveDirect loc k = s.applyRemove loc k := by
  unfold NumaServer.outbackRemoveDirect
  rw [h.unblocked]
  rfl

theorem DirectInv.call (h : DirectInv s) {c : DirectCall} (hc : s.callStep H c = .ok s') : DirectInv s' := by
  obtain ⟨⟨u, rep⟩, hr, hc⟩ := Lib.bind_eq_ok.mp hc
  cases hc
  cases c with
  | get loc =>
      obtain ⟨_, -, hr⟩ := Lib.bind_eq_ok.mp hr
      cases hr
      exact h
  | put loc k v reply =>
      have hput : s.applyPut H loc k v reply = .ok (u, rep) := (h.putDirect loc k v reply).symm.trans hr
      exact h.keeps (applyPut_keeps hput) ((applyPut_case hput).2.allotted h.table)
  | update loc k v =>
      refine h.keeps (outbackUpdateDirect_keeps hr) ?_
      rcases updateDirect_table hr with heq | heq
      · rw [heq]
        exact h.table
      · rw [heq]
        exact h.table.setEntry ..
  | remove loc k =>
      have hremove : s.applyRemove loc k = .ok (u, rep) := (h.removeDirect loc k).symm.trans hr
      refine h.keeps (applyRemove_keeps hremove) ?_
      rw [(applyRemove_table hremove).2]
      exact h.table.removeAt ..

theorem Loaded.directInv {cp : ExactLudo} {existKeys : List U64} {memThreads : Nat} {alien : U64 → Bool}
    {regMem : Nat → PackedStruct} {packedStruct : PackedStruct} {st : Store} (h : Loaded H cp existKeys)
    (hok : setupLudoTable H cp existKeys memThreads alien regMem packedStruct = .ok st) (sSlow sStop : Nat) :
    DirectInv (st.numaServer sSlow sStop) := by
  have hnum := setupLudoTable_num hok
  obtain ⟨st', hok', hlk, hbk, -, -, hel, -⟩ := setupLudoTable_ok H cp existKeys memThreads alien regMem packedStruct
  obtain rfl : st' = st := Except.ok.inj (hok'.symm.trans hok)
  have hnb : st'.lookup.numBuckets = cp.numBuckets := by rw [hlk]; rfl
  have htable : (st'.numaServer sSlow sStop).table = ⟨cp.remoteBuckets H, st'.packed⟩ := by
    rw [← hbk]
    rfl
  refine ⟨Or.inl rfl, Or.inl rfl, rfl, ?_, ?_, ?_⟩
  · rw [htable]
    exact hnb.symm
  · show 0 < st'.lookup.numBuckets
    rw [hnb]
    exact h.inv.numBuckets_pos
  · rw [htable]
    exact h.allotted hnum hel

/-- **The whole run.** -/
theorem DirectReachedFrom.inv {existKeys : List U64} {C : NumaServer → DirectCall → Prop}
    (h : DirectReachedFrom H existKeys C s) : DirectInv s := by
  obtain ⟨cp, memThreads, alien, regMem, packedStruct, st, sSlow, sStop, hld, hok, hrun⟩ := h
  exact hrun.invariant (hld.directInv hok sSlow sStop) (fun _ _ _ hinv _ hstep => hinv.call hstep)

/-! ## What a get reads -/

/-- A get answers with the data of the entry its slot refers to. -/
theorem DirectInv.getDirect_ok (h : DirectInv s) (hpos : 0 < s.table.packed.numElements) {t : Slot}
    (hr : r < s.table.buckets.numElements) :
    s.outbackGetDirect (4 * r + t.val) = .ok ⟨true, (s.table.entryAt r t).data⟩ := by
  have hlt := h.table.addr_lt hpos t hr
  unfold NumaServer.outbackGetDirect
  rw [show s.buckets = .ok s.table.buckets from if_pos h.buckets, Exec.ok_bind, locRow_slot, locSlot_slot,
    LudoBuckets.row_ok hr, Exec.ok_bind, show s.packed = .ok s.table.packed from if_pos h.packed, Exec.ok_bind,
    show addrOf ((s.table.buckets.bucketsArray r).slots t) = s.table.addr r t from rfl, PackedData.entry_ok hlt]
  rfl

end Call

/-- The server process of a one-bucket store. -/
theorem rowStore_direct {b : Nat} {seed : U8} {existKeys : List U64} (C : NumaServer → DirectCall → Prop)
    (hld : Loaded fastHasher64 (rowTable b seed existKeys) existKeys) :
    DirectReachedFrom fastHasher64 existKeys C ((rowStore b seed existKeys).numaServer 1 1) :=
  ⟨rowTable b seed existKeys, 1, fun _ => false, fun _ => .zero, .zero, _, 1, 1, hld, rowStore_setup b seed existKeys,
    .refl⟩

theorem directServer_seven (C : NumaServer → DirectCall → Prop) :
    DirectReachedFrom fastHasher64 [7] C ((rowStore 423 0 [7]).numaServer 1 1) :=
  rowStore_direct C rowTable_seven

end Outback
