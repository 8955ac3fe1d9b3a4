import Outback.Numa.Correctness.ClientSteps
import Outback.Numa.Correctness.ResizeCopy

/-!
# `Numa.Correctness.Ownership` — no packed entry belongs to two slots

Slots are filled from strided lane counters that all clients share; a resize copies the slots and restarts the counters
behind the copied entries. **`addresses_owned`**: in every world reached from a bulk load by connects, client operations
and ticks, with any number of resizes, no two occupied slots of the current region hold the same address, and no lane
can still issue the address of an occupied slot.

The invariant is `StoreInv` of the current region's own table (`Server.table`), all rows of it: a client's rows come from
its lookup unit, and which rows those are does not matter. A write through wrappers of another version reaches another
region; all it does to the current one is to use up an index.
-/

namespace Outback

namespace Server

/-- The current region as a store of all its rows. The lookup unit only says how many there are. -/
def table (s : Server) : Store := s.store ⟨s.geometry.numBuckets, 0, fun _ => false, fun _ => 0⟩

end Server

/-- The arrays and the lanes of `st`, with the bounds of `t`. -/
def Store.within (st t : Store) : Store :=
  { t with
    buckets := ⟨st.buckets.bucketsArray, t.buckets.numElements⟩
    packed := ⟨st.packed.rawArray, 0, t.packed.numElements⟩
    lanes := st.lanes }

/-! ## One operation -/

section Within

variable {H : HashFn} {n : Nat} {st st' t : Store}

/-- An index that the operation gets is one the table has. -/
theorem nextIndex_within {laneId idx : Nat} (hle : st.numDataEntries ≤ t.numDataEntries)
    (ha : st.nextIndex laneId = some idx) : (st.within t).nextIndex laneId = some idx := by
  have hlt := nextIndex_lt ha
  have hidx := nextIndex_eq ha
  have hnot : ¬ idx ≥ t.numDataEntries := by omega
  show (if st.lanes.laneNextFreeIndex (laneId % st.lanes.lanes) ≥ t.numDataEntries then none
    else some (st.lanes.laneNextFreeIndex (laneId % st.lanes.lanes))) = some idx
  rw [← hidx, if_neg hnot]

/-- **One operation**, whatever rows its lookup unit names. -/
theorem StoreInv.stepWithin (h : StoreInv n (st.within t)) (hle : st.numDataEntries ≤ t.numDataEntries) {op : NumaOp}
    (hok : st.step H op = .ok st') : StoreInv n (st'.within t) := by
  cases op with
  | put laneId k v =>
      cases numaPut_inv hok with
      | noSpace s hs ha => exact h.takeIndex laneId
      | insert s idx hs ha => exact h.insertWord (nextIndex_within hle ha) _ _ s _
      | update hst hk => exact h.setEntry _ _
      | dropped hst hk => exact h
      | overwrite hst => exact h.setEntry _ _
  | update k v =>
      rcases numaUpdate_cases hok with ⟨-, rfl⟩ | ⟨-, rfl⟩
      · exact h
      · exact h.setEntry _ _
  | remove k =>
      rcases numaRemove_cases hok with ⟨-, rfl⟩ | ⟨-, rfl⟩
      · exact h
      · exact (h.setEntry _ _).clear _ _

/-- The same without a registry: no index is found, and the counters are not written back. -/
theorem StoreInv.stepUnmapped (h : StoreInv n (st.within t)) (hzero : st.numDataEntries = 0) {op : NumaOp}
    (hok : st.step H op = .ok st') : StoreInv n ({ st' with lanes := st.lanes }.within t) := by
  cases op with
  | put laneId k v =>
      cases numaPut_inv hok with
      | noSpace s hs ha => exact h
      | insert s idx hs ha =>
          have hlt := nextIndex_lt ha
          rw [hzero] at hlt
          exact absurd hlt (Nat.not_lt_zero _)
      | update hst hk => exact h.setEntry _ _
      | dropped hst hk => exact h
      | overwrite hst => exact h.setEntry _ _
  | update k v =>
      rcases numaUpdate_cases hok with ⟨-, rfl⟩ | ⟨-, rfl⟩
      · exact h
      · exact h.setEntry _ _
  | remove k =>
      rcases numaRemove_cases hok with ⟨-, rfl⟩ | ⟨-, rfl⟩
      · exact h
      · exact (h.setEntry _ _).clear _ _

end Within

/-! ## Layout -/

/-- An even number of buckets needs no padding: `do_copy` derives the bucket size of the first region. -/
theorem bucketSizeEach_layout {n N : Nat} (hpos : 0 < N) (heven : N % 2 = 0) :
    (Geometry.layout n N sizeofLudoBucket).bucketSizeEach = sizeofLudoBucket := by
  unfold Geometry.bucketSizeEach
  have hN : (Geometry.layout n N sizeofLudoBucket).numBuckets = N := rfl
  have hspan : (Geometry.layout n N sizeofLudoBucket).lockArrayOffset
      - (Geometry.layout n N sizeofLudoBucket).ludoBucketsOffset = N * sizeofLudoBucket := by
    unfold Geometry.layout alignUp sizeofLudoBucket
    simp only
    omega
  rw [hN, if_pos hpos, hspan, Nat.mul_div_cancel_left _ hpos]

/-- The current region is laid out for an even number of buckets. -/
structure LaidOut (s : Server) : Prop where
  layout : s.geometry = .layout s.geometry.numDataEntries s.geometry.numBuckets sizeofLudoBucket
  pos : 0 < s.geometry.numBuckets
  even : s.geometry.numBuckets % 2 = 0

namespace LaidOut

variable {s s' : Server}

theorem bucketSizeEach (h : LaidOut s) : s.geometry.bucketSizeEach = sizeofLudoBucket := by
  rw [h.layout]
  exact bucketSizeEach_layout h.pos h.even

/-- The copied range is the bucket array. -/
theorem copiedBuckets (h : LaidOut s) :
    (s.registry.copyPlan s.registry.currentVersion).copiedBuckets = s.geometry.numBuckets := by
  show s.geometry.numBuckets * s.geometry.bucketSizeEach / sizeofLudoBucket = s.geometry.numBuckets
  rw [h.bucketSizeEach, Nat.mul_div_cancel _ (by decide : 0 < sizeofLudoBucket)]

/-- The geometry that a completed copy publishes. -/
theorem copied_geometry (h : LaidOut s) (g : PackedStruct) : (s.copied s.registry.currentVersion g).geometry
    = .layout (s.geometry.numDataEntries * 2) (s.geometry.numBuckets * 2) sizeofLudoBucket := by
  have hgeo : (s.copied s.registry.currentVersion g).geometry = .layout (s.geometry.numDataEntries * 2)
      (s.geometry.numBuckets * 2) s.geometry.bucketSizeEach := (copied_registry s _ g).2.2.2.2.2.1
  rw [hgeo, h.bucketSizeEach]

theorem copied (h : LaidOut s) (g : PackedStruct) : LaidOut (s.copied s.registry.currentVersion g) := by
  have hgeo := h.copied_geometry g
  have hpos := h.pos
  refine ⟨?_, ?_, ?_⟩
  · rw [hgeo]
    rfl
  · rw [hgeo]
    show 0 < s.geometry.numBuckets * 2
    omega
  · rw [hgeo]
    show s.geometry.numBuckets * 2 % 2 = 0
    omega

theorem congr (h : LaidOut s) (hgeo : s'.geometry = s.geometry) : LaidOut s' :=
  ⟨by rw [hgeo]; exact h.layout, by rw [hgeo]; exact h.pos, by rw [hgeo]; exact h.even⟩

end LaidOut

/-! ## The invariant -/

structure Owned (s : Server) : Prop where
  srvRegion : s.srvRegion = s.registry.currentVersion
  layout : s.geometry = .layout s.geometry.numDataEntries s.geometry.numBuckets sizeofLudoBucket
  pos : 0 < s.geometry.numBuckets
  even : s.geometry.numBuckets % 2 = 0
  noInserts : s.deferredInserts = []
  noDeletes : s.deferredDeletes = []
  lanes : 0 < s.registry.lanes.memThreads ∧ s.registry.lanes.memThreads ≤ kMaxNumaLanes
  /-- as long as an address fits into its 40 bits -/
  table : s.geometry.numDataEntries < 2 ^ 40 → ∃ base, StoreInv base s.table

section Steps

variable {H : HashFn} {s s' : Server}

/-- A step that keeps geometry, slot words and lanes. -/
theorem Owned.congr (h : Owned s) (hver : s'.srvRegion = s'.registry.currentVersion) (hgeo : s'.geometry = s.geometry)
    (hbuckets : s'.region.buckets = s.region.buckets) (hlanes : s'.registry.lanes = s.registry.lanes)
    (hi : s'.deferredInserts = []) (hd : s'.deferredDeletes = []) : Owned s' := by
  have hlaid : LaidOut s' := LaidOut.congr ⟨h.layout, h.pos, h.even⟩ hgeo
  refine ⟨hver, hlaid.layout, hlaid.pos, hlaid.even, hi, hd,
    by rw [hlanes]; exact h.lanes, fun hsmall => ?_⟩
  rw [hgeo] at hsmall
  obtain ⟨base, hb⟩ := h.table hsmall
  have htable : s'.table = { s.table with packed := ⟨s'.region.packed, 0, s.geometry.numDataEntries⟩ } := by
    unfold Server.table Server.store
    rw [hgeo, hbuckets, hlanes]
  refine ⟨base, ?_⟩
  rw [htable]
  exact ⟨hb.bound, hb.entries, hb.packed, hb.buckets, hb.pos, hb.strided, hb.empty, hb.issued, hb.distinct⟩

/-- A version check or a connect. -/
theorem Owned.attach (h : Owned s) {sh : Shared} (hk : AttachKeeps s.shared sh) : Owned { s with shared := sh } := by
  have hver : sh.registry.currentVersion = s.registry.currentVersion := hk.registry.currentVersion
  refine h.congr (h.srvRegion.trans hver.symm) hk.currentEpoch ?_ hk.registry.lanes h.noInserts h.noDeletes
  show (sh.regions sh.registry.currentVersion).buckets = (s.shared.regions s.registry.currentVersion).buckets
  rw [hver, hk.buckets]

/-- The lanes behind an operation: without a registry they stay. -/
def ClientView.lanesAfter (c : ClientView) (st : Store) : Lanes :=
  if c.process.registryMapped then st.lanes else c.shared.registry.lanes

/-- The table behind an operation on the current region. -/
theorem table_commit_self {c : ClientView} {w : Wrappers} (st : Store) (hw : w.ver = c.shared.registry.currentVersion) :
    Server.table { s with shared := (c.commit w st).shared }
      = ({ st with lanes := c.lanesAfter st }).within (Server.table { s with shared := c.shared }) := by
  have hregion : ((c.commit w st).shared.regions c.shared.registry.currentVersion)
      = ⟨st.packed.rawArray, st.buckets.bucketsArray⟩ := by
    rw [← hw]
    exact Shared.setRegion_self _ _ _
  unfold Store.within Server.table Server.store
  show Store.mk _ ⟨((c.commit w st).shared.regions c.shared.registry.currentVersion).buckets, _⟩
    ⟨((c.commit w st).shared.regions c.shared.registry.currentVersion).packed, 0, _⟩ _ _ = _
  rw [hregion]
  rfl

/-- The table behind an operation on another region. -/
theorem table_commit_of_ne {c : ClientView} {w : Wrappers} (st : Store) (hw : w.ver ≠ c.shared.registry.currentVersion) :
    Server.table { s with shared := (c.commit w st).shared }
      = { Server.table { s with shared := c.shared } with lanes := c.lanesAfter st } := by
  have hregion : ((c.commit w st).shared.regions c.shared.registry.currentVersion)
      = c.shared.regions c.shared.registry.currentVersion := Shared.setRegion_of_ne _ _ (Ne.symm hw)
  unfold Server.table Server.store
  show Store.mk _ ⟨((c.commit w st).shared.regions c.shared.registry.currentVersion).buckets, _⟩
    ⟨((c.commit w st).shared.regions c.shared.registry.currentVersion).packed, 0, _⟩ _ _ = _
  rw [hregion]
  rfl

/-- What an operation commits. -/
theorem Owned.commit {c : ClientView} {w : Wrappers} {op : NumaOp} {st : Store} (h : Owned { s with shared := c.shared })
    (hst : (c.store w).step H op = .ok st) : Owned { s with shared := (c.commit w st).shared } := by
  have hlanes' : (c.lanesAfter st).memThreads = c.shared.registry.lanes.memThreads := by
    unfold ClientView.lanesAfter
    split
    · rcases step_lanes hst with hl | ⟨laneId, hl⟩ <;> rw [hl] <;> rfl
    · rfl
  refine ⟨h.srvRegion, h.layout, h.pos, h.even, h.noInserts, h.noDeletes, ?_, fun hsmall => ?_⟩
  · show 0 < (c.lanesAfter st).memThreads ∧ (c.lanesAfter st).memThreads ≤ kMaxNumaLanes
    rw [hlanes']
    exact h.lanes
  · obtain ⟨base, hb⟩ := h.table hsmall
    refine ⟨base, ?_⟩
    by_cases hw : w.ver = c.shared.registry.currentVersion
    · -- the operation works on the current region
      have hstart : (c.store w).within (Server.table { s with shared := c.shared })
          = Server.table { s with shared := c.shared } := by
        unfold Store.within ClientView.store
        rw [hw]
        rfl
      rw [table_commit_self st hw]
      rw [← hstart] at hb
      unfold ClientView.lanesAfter
      by_cases hm : c.process.registryMapped = true
      · simp only [hm, if_true]
        refine hb.stepWithin ?_ hst
        show (if c.process.registryMapped then c.shared.registry.currentEpoch.geometry.numDataEntries else 0)
          ≤ c.shared.registry.currentEpoch.geometry.numDataEntries
        rw [if_pos hm]
      · simp only [hm]
        refine hb.stepUnmapped ?_ hst
        show (if c.process.registryMapped then c.shared.registry.currentEpoch.geometry.numDataEntries else 0) = 0
        rw [if_neg hm]
    · -- another region: an index is used up at most
      rw [table_commit_of_ne st hw]
      unfold ClientView.lanesAfter
      split
      · rcases step_lanes hst with hl | ⟨laneId, hl⟩
        · rw [hl]
          exact hb
        · rw [hl]
          exact hb.takeIndex laneId
      · exact hb

theorem Owned.laidOut (h : Owned s) : LaidOut s := ⟨h.layout, h.pos, h.even⟩

/-- The table after a copy: the old words in the old rows, nothing in the added ones. -/
theorem Owned.copied_word (h : Owned s) (g : PackedStruct) (r : Nat) (t : Slot) :
    (s.copied s.registry.currentVersion g).table.word r t
      = if r < s.geometry.numBuckets then s.table.word r t else 0 := by
  have hbuckets := (copied_region g h.srvRegion).2 r
  rw [h.laidOut.copiedBuckets] at hbuckets
  show ((s.copied s.registry.currentVersion g).region.buckets r).slots t = _
  rw [hbuckets]
  split <;> rfl

/-- A completed copy starts over with the old entries as the base of the lanes. -/
theorem StoreInv.copied {base : Nat} (h : Owned s) (hb : StoreInv base s.table) (g : PackedStruct)
    (hsmall : s.geometry.numDataEntries * 2 < 2 ^ 40) :
    StoreInv s.geometry.numDataEntries (s.copied s.registry.currentVersion g).table := by
  have hgeo := h.laidOut.copied_geometry g
  have hentries : s.geometry.numDataEntries = 2 * base := hb.entries
  have hnew : (s.copied s.registry.currentVersion g).geometry.numDataEntries = 2 * s.geometry.numDataEntries := by
    rw [hgeo, Nat.mul_comm]
    rfl
  have hrows : (s.copied s.registry.currentVersion g).geometry.numBuckets = s.geometry.numBuckets * 2 := by
    rw [hgeo]
    rfl
  -- an occupied slot is an old one
  have hocc : ∀ r t, (s.copied s.registry.currentVersion g).table.Occupied r t → r < s.geometry.numBuckets ∧
      s.table.Occupied r t ∧ (s.copied s.registry.currentVersion g).table.addr r t = s.table.addr r t := by
    intro r t ht
    have hword := h.copied_word g r t
    rw [Store.Occupied, hword] at ht
    rw [Store.addr, hword]
    split at ht
    · rename_i hr
      rw [if_pos hr]
      exact ⟨hr, ht, rfl⟩
    · exact absurd ht (by decide)
  refine ⟨by omega, hnew, hnew, rfl, ?_, ?_, ?_, ?_, ?_⟩
  · show 0 < (s.copied s.registry.currentVersion g).geometry.numBuckets
    rw [hrows]
    have := h.pos
    omega
  · intro i hi
    refine ⟨0, ?_⟩
    have hlane : i < s.effectiveLanes := by
      rw [effectiveLanes_eq h.lanes.2]
      exact hi
    rw [Nat.zero_mul, Nat.add_zero]
    exact (copied_registry s s.registry.currentVersion g).2.2.2.2.1 i hlane
  · intro r t hr ht
    rw [Store.Occupied, h.copied_word g] at ht
    rw [h.copied_word g]
    split at ht
    · rename_i hlt
      rw [if_pos hlt]
      exact hb.empty r t hlt ht
    · rename_i hlt
      rw [if_neg hlt]
  · intro r t hr ht
    obtain ⟨hlt, hold, haddr⟩ := hocc r t ht
    have hissued := (hb.issued r t hlt hold).1
    rw [haddr]
    exact ⟨by omega, Or.inl (by omega)⟩
  · intro r t r' t' hr hr' ht ht' heq
    obtain ⟨hlt, hold, haddr⟩ := hocc r t ht
    obtain ⟨hlt', hold', haddr'⟩ := hocc r' t' ht'
    rw [haddr, haddr'] at heq
    exact hb.distinct r t r' t' hlt hlt' hold hold' heq

theorem Owned.copied (h : Owned s) (g : PackedStruct) : Owned (s.copied s.registry.currentVersion g) := by
  have hlaid := h.laidOut.copied g
  refine ⟨rfl, hlaid.layout, hlaid.pos, hlaid.even, h.noInserts, h.noDeletes, h.lanes, ?_⟩
  intro hsmall
  rw [h.laidOut.copied_geometry g] at hsmall
  have hsmall : s.geometry.numDataEntries * 2 < 2 ^ 40 := hsmall
  obtain ⟨base, hb⟩ := h.table (by omega)
  exact ⟨_, hb.copied h g hsmall⟩

/-- A tick. -/
theorem Owned.tick (h : Owned s) {inp : TickInput} (hok : s.checkState H inp = .ok s') : Owned s' := by
  rcases checkState_cases hok with hq | ⟨-, rfl⟩
  · obtain ⟨hi, hd, hr⟩ := hq.regions h.noInserts h.noDeletes
    refine h.congr ?_ ?_ ?_ hq.lanes hi hd
    · rw [hq.srvRegion, hq.currentVersion, h.srvRegion]
    · unfold Server.geometry SharedNumaRegistry.currentEpoch
      rw [hq.currentVersion, hq.geometry]
    · unfold Server.region
      rw [hq.currentVersion, hr]
  · exact h.copied _

/-- **One step of a world.** -/
theorem Owned.step {w w' : World} {a : AtomicStep} (h : Owned w.server) (hok : w.atomic H a = .ok w') :
    Owned w'.server := by
  cases a with
  | connect tid env =>
      cases hok
      exact h.attach (connect_data (w.view tid) tid env)
  | client tid env op =>
      obtain ⟨c, hc, hok⟩ := Lib.bind_eq_ok.mp hok
      cases hok
      have hcheck := h.attach (maybeCheckVersion_data (w.view tid) tid env)
      rcases clientStep_inv hc with rfl | ⟨wr, numaOp, st, -, -, hst, rfl⟩
      · exact hcheck
      · exact hcheck.commit hst
  | tick inp =>
      obtain ⟨s, hs, hok⟩ := Lib.bind_eq_ok.mp hok
      cases hok
      exact h.tick hs

end Steps

/-! ## From the bulk load on -/

section BulkLoad

variable {H : HashFn} {cp : ExactLudo} {existKeys : List U64} {memThreads : Nat} {alien : U64 → Bool}
  {regMem : Nat → PackedStruct} {packedStruct : PackedStruct} {st : Store}

theorem Loaded.owned (h : Loaded H cp existKeys)
    (hok : setupLudoTable H cp existKeys memThreads alien regMem packedStruct = .ok st) (sSlow sStop : Nat) :
    Owned (st.server sSlow sStop) := by
  have hinv := h.storeInv hok
  obtain ⟨st', hok', hlk, hbk, hln, hent, hel, -⟩ :=
    setupLudoTable_ok H cp existKeys memThreads alien regMem packedStruct
  obtain rfl : st' = st := Except.ok.inj (hok'.symm.trans hok)
  have hrows : st'.buckets.numElements = cp.numBuckets := by rw [hbk]; rfl
  have hnb : st'.lookup.numBuckets = st'.buckets.numElements := hinv.buckets.symm
  refine ⟨rfl, rfl, ?_, ?_, rfl, rfl, ?_, fun _ => ⟨existKeys.length, ?_⟩⟩
  · show 0 < st'.buckets.numElements
    rw [hinv.buckets]
    exact hinv.pos
  · show st'.buckets.numElements % 2 = 0
    obtain ⟨j, hj⟩ := h.inv.pow
    rw [hrows, hj]
    omega
  · show 0 < st'.lanes.memThreads ∧ st'.lanes.memThreads ≤ kMaxNumaLanes
    rw [hln]
    show 0 < effectiveMemThreads memThreads ∧ effectiveMemThreads memThreads ≤ kMaxNumaLanes
    unfold effectiveMemThreads kMaxNumaLanes
    omega
  · refine ⟨hinv.bound, hel, hel, rfl, ?_, hinv.strided, ?_, ?_, ?_⟩
    · show 0 < st'.buckets.numElements
      rw [hinv.buckets]
      exact hinv.pos
    · intro r t hr
      exact hinv.empty r t (hnb ▸ hr)
    · intro r t hr
      exact hinv.issued r t (hnb ▸ hr)
    · intro r t r' t' hr hr'
      exact hinv.distinct r t r' t' (hnb ▸ hr) (hnb ▸ hr')

end BulkLoad

/-- No packed entry of the current region belongs to two occupied slots, and none that a lane can still issue belongs to
    one. -/
structure AddressesOwned (s : Server) : Prop where
  distinct : ∀ r t r' t', r < s.geometry.numBuckets → r' < s.geometry.numBuckets → s.table.Occupied r t →
    s.table.Occupied r' t' → s.table.addr r t = s.table.addr r' t' → r = r' ∧ t = t'
  free : ∀ i j r t, i < s.registry.lanes.lanes → r < s.geometry.numBuckets → s.table.Occupied r t →
    s.registry.lanes.laneNextFreeIndex i + j * s.registry.lanes.lanes < s.geometry.numDataEntries →
    s.table.addr r t ≠ s.registry.lanes.laneNextFreeIndex i + j * s.registry.lanes.lanes

/-- **Packed-address ownership.** From any bulk load, with any number of client processes and threads, whatever lookup
    units they hold, after any connects, client operations and ticks with any number of resizes: as long as the entries
    of the current region stay below `2 ^ 40`, its addresses are owned. -/
theorem addresses_owned {H : HashFn} {cp : ExactLudo} {existKeys : List U64} {memThreads : Nat} {alien : U64 → Bool}
    {regMem : Nat → PackedStruct} {packedStruct : PackedStruct} {st : Store} {sSlow sStop : Nat}
    {lookup : Nat → DataPlaneLudo} {proc lane : Nat → Nat} {w : World} (hld : Loaded H cp existKeys)
    (hok : setupLudoTable H cp existKeys memThreads alien regMem packedStruct = .ok st)
    (hrun : Lib.Reaches (World.atomic H) Lib.anyStep ((st.server sSlow sStop).world lookup proc lane) w)
    (hsmall : w.server.geometry.numDataEntries < 2 ^ 40) : AddressesOwned w.server := by
  have howned : Owned w.server := by
    refine hrun.invariant (P := fun w => Owned w.server) (hld.owned hok sSlow sStop) ?_
    intro v a v' hv _ hstep
    exact hv.step hstep
  obtain ⟨base, hb⟩ := howned.table hsmall
  refine ⟨hb.distinct, ?_⟩
  intro i j r t hi hr ht _ heq
  rcases (hb.issued r t hr ht).2 with hlt | hissued
  · have hle := hb.strided.base_le (i := i) hi
    have hnext : base ≤ w.server.registry.lanes.laneNextFreeIndex i := hle
    omega
  · rw [heq] at hissued
    exact hb.strided.not_issued_later hi j hissued

/-- One process over the one-key store, both thresholds at `1`. -/
def sevenWorld : World :=
  ((rowStore 423 0 [7]).server 1 1).world (fun _ => (rowStore 423 0 [7]).lookup) (fun _ => 0) (fun _ => 0)

/-- The client connects and puts key 9, the store is resized, and the client puts key 12. -/
theorem addresses_owned_seven : ∃ w, Lib.Reaches (World.atomic fastHasher64) Lib.anyStep sevenWorld w ∧
    w.server.geometry.numDataEntries = 4 ∧ w.server.table.Occupied 423 1 ∧ w.server.table.Occupied 320 3 ∧
    AddressesOwned w.server := by
  have hsetup := rowStore_setup 423 0 [7]
  have h₂ : Lib.Reaches (World.atomic fastHasher64) Lib.anyStep sevenWorld _ :=
    (Lib.Reaches.snoc .refl (a := .connect 0 ⟨true, true, .zero, 1⟩) trivial rfl).snoc
      (a := .client 0 ⟨true, true, .zero, 1⟩ (.write (.put 0 9 5))) trivial rfl
  have h₄ := (h₂.snoc (a := .tick calmTick) trivial rfl).snoc (a := .tick calmTick) trivial rfl
  have h₅ := h₄.snoc (a := .client 0 ⟨true, true, .zero, 1⟩ (.write (.put 0 12 6))) trivial rfl
  exact ⟨_, h₅, rfl, rfl, rfl, addresses_owned rowTable_seven hsetup h₅ (by decide)⟩

end Outback
