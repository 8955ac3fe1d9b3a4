import Outback.Numa.Resize

/-!
# `Numa.Stores` — a tick of the orchestrator, store by store (`outback/outback_resize.hh`)

`check_state` looks at the state and then makes its stores one after the other: to the registry, to the block flag, to the
regions, and to the orchestrator's own members. `tickStores` is the list of them, `exec` makes one. Other threads run
between any two. The replay loops of `drain_old` hold `defer_mu_` and are one store here; so is the filling of an epoch
slot, which nobody reads before its publication.
-/

namespace Outback

/-- One store of the orchestrator. -/
inductive OrchStore where
  /-- `g_structural_mutations_blocked` -/
  | blocked (b : Bool)
  | resizeState (st : ResizeState)
  /-- `generation.fetch_add(1)` -/
  | generation
  /-- `create_shared_numa_region` -/
  | createRegion (plan : CopyPlan) (create : CreateOutcome)
  | copyPacked (plan : CopyPlan)
  | copyBuckets (plan : CopyPlan)
  | fillEpoch (plan : CopyPlan)
  | resetLanes (plan : CopyPlan)
  | published (version : Nat)
  | previousVersion (version : Nat)
  | currentVersion (version : Nat)
  /-- `pending_old_*_` and `srv_state_` -/
  | switchRegion (plan : CopyPlan)
  | newWrappers (plan : CopyPlan) (packedStruct : PackedStruct)
  /-- `clients_pending_ack.store(0)` -/
  | dropPendingAck (version : Nat)
  | ackWaitStart (ms : U64)
  /-- both loops of `drain_old` -/
  | replay
  | cleanupAllowed (version : Nat)
  | gcStartTime (ms : U64)
  /-- unmap and unlink the old region, and forget it -/
  | reclaimOld

namespace Server

/-- One store made. -/
def exec (H : HashFn) (s : Server) : OrchStore → Exec Server
  | .blocked b => .ok { s with mutationsBlocked := b }
  | .resizeState st => .ok (s.withRegistry { s.registry with resizeState := st })
  | .generation => .ok s.bumpGeneration
  | .createRegion plan create =>
      -- a failure behind `shm_open` leaves the name linked
      match create with
      | .shmOpenFailed => .ok s
      | .mapFailed => .ok { s with shared := { s.shared with
          linked := Function.update s.shared.linked plan.newVer true } }
      | .created => .ok { s with shared := { s.shared.setRegion plan.newVer .zero with
          linked := Function.update s.shared.linked plan.newVer true } }
  | .copyPacked plan => .ok (s.copyPacked plan)
  | .copyBuckets plan => .ok (s.copyBuckets plan)
  | .fillEpoch plan => .ok (s.fillEpoch plan)
  | .resetLanes plan => .ok (s.resetLanes plan)
  | .published version =>
      .ok (s.withRegistry (s.registry.setEpoch version { s.registry.epochOf version with published := true }))
  | .previousVersion version => .ok (s.withRegistry { s.registry with previousVersion := version })
  | .currentVersion version => .ok (s.withRegistry { s.registry with currentVersion := version })
  | .switchRegion plan =>
      .ok { s with
        pendingOldVer := plan.oldVer
        pendingOldBase := some s.srvRegion
        pendingOldSize := (s.registry.epochOf plan.oldVer).geometry.regionSize
        srvRegion := plan.newVer
        gcStartTime := 0 }
  | .newWrappers plan packedStruct =>
      .ok { s with
        shared := s.shared.newPackedData plan.newVer plan.geometry.numDataEntries packedStruct
        newWrappers := some ⟨plan.newVer, plan.geometry.numBuckets, plan.geometry.numDataEntries, 0⟩ }
  -- over whatever clients have left in it since the load
  | .dropPendingAck version =>
      .ok (s.withRegistry (s.registry.setEpoch version { s.registry.epochOf version with clientsPendingAck := 0 }))
  | .ackWaitStart ms => .ok { s with ackWaitStart := ms }
  | .replay => do
      let s ← replayInserts H s.deferredInserts s
      replayDeletes H s.deferredDeletes s
  | .cleanupAllowed version =>
      .ok (s.withRegistry (s.registry.setEpoch version { s.registry.epochOf version with cleanupAllowed := true }))
  | .gcStartTime ms => .ok { s with gcStartTime := ms }
  | .reclaimOld =>
      .ok { s with
        pendingOldBase := if s.pendingOldSize > 0 then none else s.pendingOldBase
        pendingOldVer := 0
        pendingOldSize := 0
        shared := { s.shared with
          linked := if s.pendingOldVer > 0 then Function.update s.shared.linked s.pendingOldVer false
            else s.shared.linked } }

end Server

namespace OrchStore

/-- The stores of `set_state`. -/
def setState (st : ResizeState) : List OrchStore :=
  [.blocked (st = .copying ∨ st = .readyToSwitch ∨ st = .drainOld), .resizeState st, .generation]

/-- The publication of a version. -/
def publish (plan : CopyPlan) : List OrchStore :=
  [.published plan.newVer, .previousVersion plan.oldVer, .currentVersion plan.newVer]

/-- `READY_TO_SWITCH` and the rest of `do_copy`. -/
def finishCopy (plan : CopyPlan) (packedStruct : PackedStruct) : List OrchStore :=
  setState .readyToSwitch ++ [.switchRegion plan, .newWrappers plan packedStruct]

/-- The stores of `do_copy` behind the creation of the region. -/
def copyInto (plan : CopyPlan) (packedStruct : PackedStruct) : List OrchStore :=
  .copyPacked plan :: .copyBuckets plan :: .fillEpoch plan :: .resetLanes plan :: (publish plan ++
    .generation :: finishCopy plan packedStruct)

/-- The stores of `do_copy`. -/
def doCopy (plan : CopyPlan) (inp : TickInput) : List OrchStore :=
  setState .copying ++ .createRegion plan inp.create ::
    if inp.create = .created then copyInto plan inp.packedStruct else setState .normal

/-- `clients_pending_ack` stored as 0, and on to `DRAIN_OLD`. -/
def forceDrain (version : Nat) : List OrchStore := .dropPendingAck version :: setState .drainOld

/-- The end of `drain_old`, behind the replays. -/
def finishDrain (pendingOldVer : Nat) (now : U64) : List OrchStore :=
  (if pendingOldVer > 0 then [.cleanupAllowed pendingOldVer] else []) ++ .gcStartTime now :: setState .gcPending

/-- The stores of `maybe_gc` behind its two early returns. -/
def reclaim : List OrchStore :=
  [.reclaimOld, .previousVersion 0, .generation, .gcStartTime 0] ++ setState .normal

end OrchStore

namespace Server

def waitStores (s : Server) (inp : TickInput) : List OrchStore :=
  let pending := s.registry.currentEpoch.clientsPendingAck
  if pending = 0 then OrchStore.setState .drainOld
  else if pending.toNat ≤ s.zombies (inp.clockNs 0) then OrchStore.forceDrain s.registry.currentVersion
  else
    let start := if s.ackWaitStart = 0 then inp.nowMs 1 else s.ackWaitStart
    (if s.ackWaitStart = 0 then [.ackWaitStart (inp.nowMs 1)] else []) ++
      if inp.nowMs 2 - start > kAckGraceMs then OrchStore.forceDrain s.registry.currentVersion ++ [.ackWaitStart 0]
      else []

def drainStores (s : Server) (inp : TickInput) : List OrchStore :=
  if s.pendingOldVer > 0 ∧ (s.registry.epochOf s.pendingOldVer).activeWriters > 0 then []
  else .replay :: OrchStore.finishDrain s.pendingOldVer (inp.nowMs 0)

def gcStores (s : Server) (inp : TickInput) : List OrchStore :=
  -- the clock is read once more when the grace period has not begun
  let start := if s.gcStartTime = 0 then inp.nowMs 0 else s.gcStartTime
  (if s.gcStartTime = 0 then [.gcStartTime (inp.nowMs 0)] else []) ++
    if inp.nowMs 1 - start < kGcGraceMs then []
    else if s.pendingOldVer > 0 ∧ (s.registry.epochOf s.pendingOldVer).activeReaders > 0 then []
    else OrchStore.reclaim

/-- The stores of `check_state`, as the state it finds decides them. -/
def tickStores (s : Server) (inp : TickInput) : List OrchStore :=
  match s.registry.resizeState with
  | .normal =>
      if s.registry.sSlow ≠ 0 ∧ s.registry.sSlow ≤ s.maxIdx then OrchStore.setState .preResize else []
  | .preResize =>
      if s.registry.sSlow ≠ 0 ∧ s.registry.sStop ≤ s.maxIdx ∧ inp.memoryPressureOk = true then
        OrchStore.doCopy (s.registry.copyPlan s.registry.currentVersion) inp
      else []
  | .copying => []
  | .readyToSwitch => s.waitStores inp
  | .drainOld => s.drainStores inp
  | .gcPending => s.gcStores inp

end Server

end Outback
