import Outback.Numa.Registry

/-!
# `Numa.Resize` — the resize orchestrator (`outback/outback_resize.hh`)

`check_state` is one tick of the background thread; it drives the registry's `resize_state` through `NORMAL`,
`PRE_RESIZE`, `COPYING`, `READY_TO_SWITCH`, `DRAIN_OLD` and `GC_PENDING`. `do_copy` is split into the steps that
other processes can see between: enter `COPYING` and create the region, copy the packed array, copy the buckets,
fill the epoch, reset the lanes, store the version, bump the generation, and finish. `doCopy` runs them in order.

The outcome of `create_shared_numa_region`, the memory-pressure answer, the indeterminate local of the `PackedData`
constructor and the clock readings of a tick are inputs.

A bucket is `sizeof(LudoBucket)` bytes, and `do_copy` copies `num_buckets * bucket_size_each` bytes of the old
region, where `bucket_size_each` is the distance between two aligned offsets divided by the number of buckets. The
model copies the whole buckets of that range; what is left of it lies in the padding behind the array.
-/

namespace Outback

/-! ## Planning the copy -/

/-- What `do_copy` computes before it creates the region. -/
structure CopyPlan where
  oldVer : Nat
  newVer : Nat
  /-- `old_ep.num_data_entries` -/
  oldDataEntries : Nat
  /-- the number of whole buckets in the copied range -/
  copiedBuckets : Nat
  geometry : Geometry

/-- The version after `oldVer`: slot 0 of the epoch table is skipped. -/
def nextVersion (oldVer : Nat) : Nat :=
  if (oldVer + 1) % kMaxEpochSlots = 0 then oldVer + 2 else oldVer + 1

def Geometry.bucketSizeEach (geo : Geometry) : Nat :=
  if geo.numBuckets > 0 then (geo.lockArrayOffset - geo.ludoBucketsOffset) / geo.numBuckets else sizeofLudoBucket

def SharedNumaRegistry.copyPlan (reg : SharedNumaRegistry) (oldVer : Nat) : CopyPlan :=
  let old := (reg.epochOf oldVer).geometry
  { oldVer := oldVer
    newVer := nextVersion oldVer
    oldDataEntries := old.numDataEntries
    copiedBuckets := old.numBuckets * old.bucketSizeEach / sizeofLudoBucket
    geometry := .layout (old.numDataEntries * 2) (old.numBuckets * 2) old.bucketSizeEach }

/-! ## The orchestrator -/

/-- What `create_shared_numa_region` did: a failure after `shm_open` leaves the name linked. -/
inductive CreateOutcome where
  | shmOpenFailed
  | mapFailed
  | created
  deriving DecidableEq, Repr

/-- `new_ludo_buckets_` and `new_packed_data_` with its own counter. -/
structure ReplayWrappers where
  ver : Nat
  numBuckets : Nat
  numDataEntries : Nat
  num : Nat
  deriving DecidableEq

/-- The server process as the orchestrator sees it. -/
structure Server where
  shared : Shared
  /-- `ludo_lookup_` -/
  lookup : DataPlaneLudo
  /-- the version of `srv_state_->shared_region_base` -/
  srvRegion : Nat
  /-- `g_structural_mutations_blocked` -/
  mutationsBlocked : Bool
  newWrappers : Option ReplayWrappers
  deferredInserts : List (U64 × U64)
  deferredDeletes : List U64
  pendingOldVer : Nat
  /-- the version of the region `pending_old_base_` points to -/
  pendingOldBase : Option Nat
  pendingOldSize : Nat
  ackWaitStart : U64
  gcStartTime : U64

/-- The inputs of one tick. `clockNs i` is the `i`-th reading of the clock. -/
structure TickInput where
  clockNs : Nat → U64
  memoryPressureOk : Bool
  create : CreateOutcome
  packedStruct : PackedStruct

def TickInput.nowMs (inp : TickInput) (i : Nat) : U64 := inp.clockNs i / 1000000

/-- `kZombieThresholdNs`, `kAckGraceMs` and `kGcGraceMs`. -/
def kZombieThresholdNs : U64 := 30000000000
def kAckGraceMs : U64 := 5000
def kGcGraceMs : U64 := 2000

/-- `kMaxDeferredDepth`. -/
def kMaxDeferredDepth : Nat := 1000000

namespace Server

def registry (s : Server) : SharedNumaRegistry := s.shared.registry

def withRegistry (s : Server) (reg : SharedNumaRegistry) : Server := { s with shared := s.shared.withRegistry reg }

/-- The server has the region of `version` mapped: as its own, or as the old one to be reclaimed. -/
def Mapped (s : Server) (version : Nat) : Prop := version = s.srvRegion ∨ s.pendingOldBase = some version

instance (s : Server) (version : Nat) : Decidable (s.Mapped version) := inferInstanceAs (Decidable (_ ∨ _))

/-- `set_state`. -/
def setState (s : Server) (st : ResizeState) : Server :=
  { s with
    mutationsBlocked := st = .copying ∨ st = .readyToSwitch ∨ st = .drainOld
    shared := s.shared.withRegistry
      { s.registry with resizeState := st, generation := s.registry.generation + 1 } }

/-! ### The deferred queues -/

/-- `defer_insert`: `false` when the queue is full. The enqueue time is read by nobody. -/
def deferInsert (s : Server) (key val : U64) : Bool × Server :=
  if s.deferredInserts.length ≥ kMaxDeferredDepth then (false, s)
  else (true, { s with deferredInserts := s.deferredInserts ++ [(key, val)] })

def deferDelete (s : Server) (key : U64) : Bool × Server :=
  if s.deferredDeletes.length ≥ kMaxDeferredDepth then (false, s)
  else (true, { s with deferredDeletes := s.deferredDeletes ++ [key] })

/-! ### The steps of `do_copy` -/

/-- Enter `COPYING` and create the region; a failure goes back to `NORMAL`. -/
def enterCopying (s : Server) (plan : CopyPlan) (create : CreateOutcome) : Server :=
  let s := s.setState .copying
  match create with
  | .shmOpenFailed => s.setState .normal
  | .mapFailed => { s with shared := { s.shared with
      linked := Function.update s.shared.linked plan.newVer true } }.setState .normal
  | .created => { s with shared := { s.shared.setRegion plan.newVer .zero with
      linked := Function.update s.shared.linked plan.newVer true } }

/-- `memcpy` of the old packed entries. -/
def copyPacked (s : Server) (plan : CopyPlan) : Server :=
  let old := s.shared.regions s.srvRegion
  let new := s.shared.regions plan.newVer
  { s with shared := s.shared.setRegion plan.newVer { new with
      packed := fun i => if i < plan.oldDataEntries then old.packed i else new.packed i } }

/-- `memcpy` of the old buckets, `memset` of as many behind them. -/
def copyBuckets (s : Server) (plan : CopyPlan) : Server :=
  let old := s.shared.regions s.srvRegion
  let new := s.shared.regions plan.newVer
  { s with shared := s.shared.setRegion plan.newVer { new with
      buckets := fun b => if b < plan.copiedBuckets then old.buckets b
        else if b < 2 * plan.copiedBuckets then .zero else new.buckets b } }

/-- Fill the new epoch's slot, its `published` flag apart. -/
def fillEpoch (s : Server) (plan : CopyPlan) : Server :=
  s.withRegistry (s.registry.setEpoch plan.newVer
    { version := plan.newVer
      geometry := plan.geometry
      clientsPendingAck := s.registry.registeredClients
      activeReaders := 0
      activeWriters := 0
      published := (s.registry.epochOf plan.newVer).published
      cleanupAllowed := false })

/-- The number of lanes the orchestrator looks at: `mem_threads`, or one. -/
def effectiveLanes (s : Server) : Nat := if s.registry.lanes.memThreads = 0 then 1 else s.registry.lanes.memThreads

def resetLanes (s : Server) (plan : CopyPlan) : Server :=
  s.withRegistry { s.registry with
    lanes := { s.registry.lanes with
      laneNextFreeIndex := fun i =>
        if i < s.effectiveLanes then plan.oldDataEntries + i else s.registry.lanes.laneNextFreeIndex i } }

/-- Store `published`, `previous_version` and `current_version`. -/
def publish (s : Server) (plan : CopyPlan) : Server :=
  s.withRegistry
    { s.registry.setEpoch plan.newVer { s.registry.epochOf plan.newVer with published := true } with
      previousVersion := plan.oldVer
      currentVersion := plan.newVer }

def bumpGeneration (s : Server) : Server :=
  s.withRegistry { s.registry with generation := s.registry.generation + 1 }

/-- The rest: `READY_TO_SWITCH`, the server's own switch, and the typed wrappers over the new region. -/
def finishCopy (s : Server) (plan : CopyPlan) (packedStruct : PackedStruct) : Server :=
  let s := s.setState .readyToSwitch
  { s with
    pendingOldVer := plan.oldVer
    pendingOldBase := some s.srvRegion
    pendingOldSize := (s.registry.epochOf plan.oldVer).geometry.regionSize
    srvRegion := plan.newVer
    gcStartTime := 0
    shared := s.shared.newPackedData plan.newVer plan.geometry.numDataEntries packedStruct
    newWrappers := some ⟨plan.newVer, plan.geometry.numBuckets, plan.geometry.numDataEntries, 0⟩ }

/-- The steps between the creation of the region and the end, in order. -/
def copyInto (s : Server) (plan : CopyPlan) (packedStruct : PackedStruct) : Server :=
  ((((((s.copyPacked plan).copyBuckets plan).fillEpoch plan).resetLanes plan).publish plan).bumpGeneration).finishCopy
    plan packedStruct

/-- `do_copy(old_ver)`. -/
def doCopy (s : Server) (oldVer : Nat) (inp : TickInput) : Server :=
  let plan := s.registry.copyPlan oldVer
  let s := s.enterCopying plan inp.create
  if inp.create = .created then s.copyInto plan inp.packedStruct else s

/-! ### `NORMAL` and `PRE_RESIZE` -/

/-- The highest lane counter. -/
def maxIdx (s : Server) : Nat :=
  (List.range s.effectiveLanes).foldl (fun m i => max m (s.registry.lanes.laneNextFreeIndex i)) 0

def maybeTriggerPreResize (s : Server) : Server :=
  if s.registry.sSlow = 0 then s
  else if s.maxIdx ≥ s.registry.sSlow then s.setState .preResize
  else s

def maybeStartCopying (s : Server) (inp : TickInput) : Server :=
  if s.registry.sSlow = 0 then s
  else if s.maxIdx < s.registry.sStop then s
  else if inp.memoryPressureOk = false then s
  else s.doCopy s.registry.currentVersion inp

/-! ### `READY_TO_SWITCH` -/

/-- The active clients whose last heartbeat is too old. -/
def zombies (s : Server) (now : U64) : Nat :=
  ((List.range kMaxClients).filter fun i =>
    (s.registry.clients i).active && decide (now - (s.registry.clients i).lastHeartbeatNs > kZombieThresholdNs)).length

/-- Store `clients_pending_ack = 0` in the current epoch and go to `DRAIN_OLD`. -/
def forceDrain (s : Server) : Server :=
  let ver := s.registry.currentVersion
  (s.withRegistry (s.registry.setEpoch ver { s.registry.epochOf ver with clientsPendingAck := 0 })).setState .drainOld

def waitForAcksOrTimeout (s : Server) (inp : TickInput) : Server :=
  let pending := s.registry.currentEpoch.clientsPendingAck
  if pending = 0 then s.setState .drainOld
  else if pending.toNat ≤ s.zombies (inp.clockNs 0) then s.forceDrain
  else
    let s := if s.ackWaitStart = 0 then { s with ackWaitStart := inp.nowMs 1 } else s
    let elapsed := inp.nowMs 2 - s.ackWaitStart
    if elapsed > kAckGraceMs then { s.forceDrain with ackWaitStart := 0 } else s

/-! ### `DRAIN_OLD` -/

/-- The body of `replay_insert` on the typed views of the new region. -/
def replayPut (H : HashFn) (lookup : DataPlaneLudo) (lbs : LudoBuckets) (pd : PackedData) (key val : U64) :
    Exec (PackedData × LudoBuckets) := do
  let row := lookup.row H key
  let slot := lookup.slot H key
  let b ← lbs.row row
  match b.checkSlots H key slot with
  | .good =>
      let (pd, addr) ← pd.bulkLoadData key 8 val
      return (pd, lbs.writeAddr H key row slot (addr.setWidth 64))
  | .maybeUpdate =>
      let e ← pd.entry (addrOf (b.slots slot))
      if e.key = key then
        let pd ← pd.updateData (addrOf (b.slots slot)) key 8 val
        return (pd, lbs)
      else return (pd, lbs)
  | .emptyExists =>
      match (List.finRange 4).find? (fun t => b.checkSlots H key t = .good) with
      | some t =>
          let (pd, addr) ← pd.bulkLoadData key 8 val
          return (pd, lbs.writeAddr H key row t (addr.setWidth 64))
      | none => return (pd, lbs)
  | .full => return (pd, lbs)

/-- `replay_insert` into the new region. -/
def replayInsert (H : HashFn) (s : Server) (key val : U64) : Exec Server :=
  match s.newWrappers with
  | none => .ok s
  | some w => do
      let reg := s.shared.regions w.ver
      let (pd, lbs) ← replayPut H s.lookup ⟨reg.buckets, w.numBuckets⟩ ⟨reg.packed, w.num, w.numDataEntries⟩ key val
      return { s with
        shared := s.shared.setRegion w.ver ⟨pd.rawArray, lbs.bucketsArray⟩
        newWrappers := some { w with num := pd.num } }

/-- The scan of `replay_delete` behind the primary slot. -/
def replayScan (lbs : LudoBuckets) (pd : PackedData) (key : U64) (row : Nat) (primary : Slot) :
    List Slot → Exec (PackedData × LudoBuckets)
  | [] => .ok (pd, lbs)
  | t :: ts =>
      if t = primary then replayScan lbs pd key row primary ts
      else if addrOf (lbs.word row t) = 0 then replayScan lbs pd key row primary ts
      else do
        let (pd', res) ← pd.removeDataWithKeyCheck (addrOf (lbs.word row t)) key
        if res then return (pd', lbs.removeAddr row t)
        replayScan lbs pd key row primary ts

/-- The body of `replay_delete`: the primary slot, then the rest of the bucket. -/
def replayRemove (H : HashFn) (lookup : DataPlaneLudo) (lbs : LudoBuckets) (pd : PackedData) (key : U64) :
    Exec (PackedData × LudoBuckets) := do
  let row := lookup.row H key
  let slot := lookup.slot H key
  let b ← lbs.row row
  let (pd', res) ← pd.removeDataWithKeyCheck (addrOf (b.slots slot)) key
  if res then return (pd', lbs.removeAddr row slot)
  replayScan lbs pd key row slot (List.finRange 4)

/-- `replay_delete` in the new region. -/
def replayDelete (H : HashFn) (s : Server) (key : U64) : Exec Server :=
  match s.newWrappers with
  | none => .ok s
  | some w => do
      let reg := s.shared.regions w.ver
      let (pd, lbs) ← replayRemove H s.lookup ⟨reg.buckets, w.numBuckets⟩ ⟨reg.packed, w.num, w.numDataEntries⟩ key
      return { s with shared := s.shared.setRegion w.ver ⟨pd.rawArray, lbs.bucketsArray⟩ }

/-- Replay the queued inserts, then the queued deletes. -/
def replayInserts (H : HashFn) : List (U64 × U64) → Server → Exec Server
  | [], s => .ok { s with deferredInserts := [] }
  | (key, val) :: rest, s => do replayInserts H rest (← s.replayInsert H key val)

def replayDeletes (H : HashFn) : List U64 → Server → Exec Server
  | [], s => .ok { s with deferredDeletes := [] }
  | key :: rest, s => do replayDeletes H rest (← s.replayDelete H key)

def drainOld (H : HashFn) (s : Server) (inp : TickInput) : Exec Server := do
  if s.pendingOldVer > 0 ∧ (s.registry.epochOf s.pendingOldVer).activeWriters > 0 then return s
  let s ← replayInserts H s.deferredInserts s
  let s ← replayDeletes H s.deferredDeletes s
  let s := if s.pendingOldVer > 0 then
      s.withRegistry (s.registry.setEpoch s.pendingOldVer
        { s.registry.epochOf s.pendingOldVer with cleanupAllowed := true })
    else s
  return { s with gcStartTime := inp.nowMs 0 }.setState .gcPending

/-! ### `GC_PENDING` -/

def maybeGc (s : Server) (inp : TickInput) : Server :=
  let s := if s.gcStartTime = 0 then { s with gcStartTime := inp.nowMs 0 } else s
  if inp.nowMs 1 - s.gcStartTime < kGcGraceMs then s
  else if s.pendingOldVer > 0 ∧ (s.registry.epochOf s.pendingOldVer).activeReaders > 0 then s
  else
    { s with
      pendingOldBase := if s.pendingOldSize > 0 then none else s.pendingOldBase
      pendingOldVer := 0
      pendingOldSize := 0
      gcStartTime := 0
      shared := { s.shared with
        linked := if s.pendingOldVer > 0 then Function.update s.shared.linked s.pendingOldVer false
          else s.shared.linked
        registry := { s.registry with previousVersion := 0, generation := s.registry.generation + 1 } } }.setState
      .normal

/-- `check_state`: one tick of the monitor loop. -/
def checkState (H : HashFn) (s : Server) (inp : TickInput) : Exec Server :=
  match s.registry.resizeState with
  | .normal => .ok s.maybeTriggerPreResize
  | .preResize => .ok (s.maybeStartCopying inp)
  | .copying => .ok s
  | .readyToSwitch => .ok (s.waitForAcksOrTimeout inp)
  | .drainOld => s.drainOld H inp
  | .gcPending => .ok (s.maybeGc inp)

/-- The tick calls `do_copy`, which creates its region and returns from the end. -/
def CompletesCopy (s : Server) (inp : TickInput) : Prop :=
  s.registry.resizeState = .preResize ∧ s.registry.sSlow ≠ 0 ∧ s.registry.sStop ≤ s.maxIdx ∧
    inp.memoryPressureOk = true ∧ inp.create = .created

theorem checkState_of_completesCopy (H : HashFn) {s : Server} {inp : TickInput} (h : s.CompletesCopy inp) :
    s.checkState H inp = .ok (s.doCopy s.registry.currentVersion inp) := by
  obtain ⟨hst, hslow, hstop, hmem, -⟩ := h
  have hstop : ¬ s.maxIdx < s.registry.sStop := Nat.not_lt.mpr hstop
  unfold checkState
  rw [hst]
  simp only [maybeStartCopying, if_neg hslow, if_neg hstop, hmem, Bool.true_eq_false, if_false]

end Server

/-! ## The server and its surroundings -/

/-- What clients can change in the registry between two ticks. -/
structure ClientWrites where
  laneNextFreeIndex : Nat → Nat
  clients : Nat → ClientLiveness
  registeredClients : U64
  clientsPendingAck : Nat → U64

/-- A step of the server side: a tick of the orchestrator, or whatever the clients did to the registry. -/
inductive ServerStep where
  | tick (inp : TickInput)
  | clients (w : ClientWrites)

def Server.clientsWrite (s : Server) (w : ClientWrites) : Server :=
  s.withRegistry { s.registry with
    clients := w.clients
    registeredClients := w.registeredClients
    lanes := { s.registry.lanes with laneNextFreeIndex := w.laneNextFreeIndex }
    epoch := fun i => { s.registry.epoch i with clientsPendingAck := w.clientsPendingAck i } }

def Server.step (H : HashFn) (s : Server) : ServerStep → Exec Server
  | .tick inp => s.checkState H inp
  | .clients w => .ok (s.clientsWrite w)

/-- The server when `register_numa_server` starts the orchestrator. -/
def Store.server (st : Store) (sSlow sStop : Nat) : Server where
  shared := st.publish sSlow sStop
  lookup := st.lookup
  srvRegion := 1
  mutationsBlocked := false
  newWrappers := none
  deferredInserts := []
  deferredDeletes := []
  pendingOldVer := 0
  pendingOldBase := none
  pendingOldSize := 0
  ackWaitStart := 0
  gcStartTime := 0

/-- The server of key 7 alone, before any resize. -/
def sevenServer : Server := (rowStore 423 0 [7]).server 1 1

/-- The input of an undisturbed tick; the constructor's local happens to be zero. -/
def calmTick : TickInput := ⟨fun _ => 0, true, .created, .zero⟩

end Outback
