import Outback.Numa.Correctness.ResizeCopy
import Outback.Numa.Correctness.Replay
import Outback.Numa.Correctness.Steps

/-!
# `Numa.Correctness.Orchestrator` — the resize cycle

The six handlers of `check_state` update registry words, private bookkeeping, the block flag and the mappings in separate
statements. **`checkState_move`** says what a tick amounts to: it waits, or it makes one of the six moves of `TickMove`.
`OrchInv` ties the words together at every tick boundary, and **`orchestrator_invariant`** reads off it: which moves there
are, that the old version is kept exactly from the copy to the reclaiming, that the two versions in use have published
slots of their own in the epoch table, which regions are mapped, when mutations are blocked, and that every change of
state or version moves the generation.
-/

namespace Outback

namespace ResizeState

/-- The states in which an old region is still around. -/
def keepsOld : ResizeState → Bool
  | .readyToSwitch | .drainOld | .gcPending => true
  | .normal | .preResize | .copying => false

/-- The moves of the cycle from one tick boundary to the next. -/
inductive Move : ResizeState → ResizeState → Prop where
  | stay (st : ResizeState) : Move st st
  | trigger : Move .normal .preResize
  | copied : Move .preResize .readyToSwitch
  | aborted : Move .preResize .normal
  | acked : Move .readyToSwitch .drainOld
  | drained : Move .drainOld .gcPending
  | reclaimed : Move .gcPending .normal

end ResizeState

/-- The epoch slot of `version` is published and carries its number. -/
def SharedNumaRegistry.Published (reg : SharedNumaRegistry) (version : Nat) : Prop :=
  (reg.epochOf version).published = true ∧ (reg.epochOf version).version = version

/-! ## What a tick amounts to -/

namespace Server

/-- `clients_pending_ack` of the current epoch stored. -/
def setPendingAck (s : Server) (pending : U64) : Server :=
  s.withRegistry (s.registry.setEpoch s.registry.currentVersion
    { s.registry.currentEpoch with clientsPendingAck := pending })

/-- `maybe_gc` behind its two early returns. -/
def reclaim (s : Server) : Server :=
  { s with
    pendingOldBase := if s.pendingOldSize > 0 then none else s.pendingOldBase
    pendingOldVer := 0
    pendingOldSize := 0
    gcStartTime := 0
    shared := { s.shared with
      linked := if s.pendingOldVer > 0 then Function.update s.shared.linked s.pendingOldVer false
        else s.shared.linked
      registry := { s.registry with previousVersion := 0, generation := s.registry.generation + 1 } } }.setState
    .normal

end Server

/-- What a tick can do, each with the state it is done in. -/
inductive TickMove (s : Server) : Server → Prop where
  | wait (ack gc : U64) : TickMove s { s with ackWaitStart := ack, gcStartTime := gc }
  | trigger (hst : s.registry.resizeState = .normal) : TickMove s (s.setState .preResize)
  | abort (hst : s.registry.resizeState = .preResize) (linked : Nat → Bool)
      (hlinked : ∀ v, s.shared.linked v = true → linked v = true) :
      TickMove s ({ s.setState .copying with
        shared := { (s.setState .copying).shared with linked := linked } }.setState .normal)
  | copy (hst : s.registry.resizeState = .preResize) (g : PackedStruct) :
      TickMove s (s.copied s.registry.currentVersion g)
  | acked (hst : s.registry.resizeState = .readyToSwitch) (pending ack : U64) :
      TickMove s { (s.setPendingAck pending).setState .drainOld with ackWaitStart := ack }
  | drained (hst : s.registry.resizeState = .drainOld) {t : Server} (inp : TickInput)
      (hkeep : ReplayKeeps (s.withQueues [] []) t) : TickMove s (t.finishDrain inp)
  | reclaimed (hst : s.registry.resizeState = .gcPending) : TickMove s s.reclaim

section Moves

variable {H : HashFn} {s s' : Server} {inp : TickInput}

theorem TickMove.refl (s : Server) : TickMove s s := .wait s.ackWaitStart s.gcStartTime

/-- Storing what is there changes nothing. -/
theorem setPendingAck_self (s : Server) : s.setPendingAck s.registry.currentEpoch.clientsPendingAck = s := by
  unfold Server.setPendingAck SharedNumaRegistry.setEpoch
  rw [show Function.update s.registry.epoch (s.registry.currentVersion % kMaxEpochSlots)
    { s.registry.currentEpoch with clientsPendingAck := s.registry.currentEpoch.clientsPendingAck } = s.registry.epoch
    from Function.update_eq_self _ _]
  rfl

theorem maybeStartCopying_move (hst : s.registry.resizeState = .preResize) : TickMove s (s.maybeStartCopying inp) := by
  unfold Server.maybeStartCopying
  split
  · exact .refl s
  · split
    · exact .refl s
    · split
      · exact .refl s
      · cases hcr : inp.create with
        | created =>
            rw [doCopy_created s _ inp hcr]
            exact .copy hst _
        | shmOpenFailed =>
            simp only [Server.doCopy, hcr, reduceCtorEq, if_false]
            exact .abort hst s.shared.linked (fun _ h => h)
        | mapFailed =>
            simp only [Server.doCopy, hcr, reduceCtorEq, if_false]
            refine .abort hst _ ?_
            intro v hv
            by_cases hnew : v = (s.registry.copyPlan s.registry.currentVersion).newVer
            · rw [hnew]
              exact Function.update_self ..
            · exact (Function.update_of_ne hnew _ _).trans hv

theorem waitForAcks_move (hst : s.registry.resizeState = .readyToSwitch) :
    TickMove s (s.waitForAcksOrTimeout inp) := by
  unfold Server.waitForAcksOrTimeout
  simp only
  split
  · have hmove := TickMove.acked hst s.registry.currentEpoch.clientsPendingAck s.ackWaitStart
    rw [setPendingAck_self] at hmove
    exact hmove
  · split
    · exact .acked hst 0 s.ackWaitStart
    · -- the two readings of the clock differ only in what is remembered of the start
      split <;> split
      · exact .acked hst 0 0
      · exact .wait _ s.gcStartTime
      · exact .acked hst 0 0
      · exact .refl s

theorem drainOld_move (hst : s.registry.resizeState = .drainOld) (h : s.drainOld H inp = .ok s') : TickMove s s' := by
  unfold Server.drainOld at h
  split at h
  · cases h
    exact .refl s
  · obtain ⟨t, ht, h⟩ := Lib.bind_eq_ok.mp h
    obtain ⟨u, hu, h⟩ := Lib.bind_eq_ok.mp h
    cases h
    exact .drained hst inp (replays_keep ht hu)

theorem maybeGc_move (hst : s.registry.resizeState = .gcPending) : TickMove s (s.maybeGc inp) := by
  unfold Server.maybeGc
  simp only
  split
  · split
    · exact .wait s.ackWaitStart _
    · split
      · exact .wait s.ackWaitStart _
      · exact .reclaimed hst
  · split
    · exact .refl s
    · split
      · exact .refl s
      · exact .reclaimed hst

/-- **What a tick amounts to.** -/
theorem checkState_move (h : s.checkState H inp = .ok s') : TickMove s s' := by
  unfold Server.checkState at h
  cases hst : s.registry.resizeState with
  | normal =>
      rw [hst] at h
      cases h
      unfold Server.maybeTriggerPreResize
      split
      · exact .refl s
      · split
        · exact .trigger hst
        · exact .refl s
  | preResize =>
      rw [hst] at h
      cases h
      exact maybeStartCopying_move hst
  | copying =>
      rw [hst] at h
      cases h
      exact .refl s
  | readyToSwitch =>
      rw [hst] at h
      cases h
      exact waitForAcks_move hst
  | drainOld =>
      rw [hst] at h
      exact drainOld_move hst h
  | gcPending =>
      rw [hst] at h
      cases h
      exact maybeGc_move hst

end Moves

/-! ## The invariant -/

/-- What ties the registry, the bookkeeping, the flag and the mappings together at a tick boundary. -/
structure OrchInv (s : Server) : Prop where
  notCopying : s.registry.resizeState ≠ .copying
  previous : s.registry.previousVersion = s.pendingOldVer
  keepsOld : s.pendingOldVer ≠ 0 ↔ s.registry.resizeState.keepsOld = true
  slot : s.registry.currentVersion % kMaxEpochSlots ≠ 0
  current : s.registry.Published s.registry.currentVersion
  old : s.pendingOldVer ≠ 0 → s.registry.Published s.pendingOldVer ∧
    s.pendingOldVer % kMaxEpochSlots ≠ s.registry.currentVersion % kMaxEpochSlots
  srvRegion : s.srvRegion = s.registry.currentVersion
  base : s.pendingOldBase = if s.pendingOldVer = 0 then none else some s.pendingOldVer
  /-- a region is not empty, so `munmap` is not skipped -/
  sized : 0 < s.registry.currentEpoch.geometry.numBuckets ∧ 0 < s.registry.currentEpoch.geometry.regionSize
  oldSized : s.pendingOldVer ≠ 0 → 0 < s.pendingOldSize
  blocked : s.mutationsBlocked = decide (s.registry.resizeState = .readyToSwitch ∨ s.registry.resizeState = .drainOld)

section Inv

variable {H : HashFn} {s s' : Server}

/-- A region with buckets has a size. -/
theorem layout_regionSize_pos {n N e : Nat} (h : 0 < N) : 0 < (Geometry.layout n N e).regionSize := by
  have hle := le_alignUp (alignUp (alignUp (alignUp 0 64 + n * sizeofPackedStruct) 64 + N * e) 64 + N) (a := 4096)
    (by decide)
  show 0 < alignUp (alignUp (alignUp (alignUp 0 64 + n * sizeofPackedStruct) 64 + N * e) 64 + N) 4096
  omega

/-- Writing an epoch's acknowledgement counter or its cleanup flag unpublishes nothing. -/
theorem published_setEpoch {reg : SharedNumaRegistry} {v v' : Nat} {ep : ResizeEpoch}
    (hp : ep.published = (reg.epochOf v').published) (hv : ep.version = (reg.epochOf v').version)
    (h : reg.Published v) : (reg.setEpoch v' ep).Published v := by
  by_cases hslot : v % kMaxEpochSlots = v' % kMaxEpochSlots
  · unfold SharedNumaRegistry.Published at h ⊢
    rw [SharedNumaRegistry.epochOf_congr _ hslot] at h
    rw [SharedNumaRegistry.epochOf_congr _ hslot, SharedNumaRegistry.setEpoch_self, hp, hv]
    exact h
  · unfold SharedNumaRegistry.Published
    rw [SharedNumaRegistry.setEpoch_of_ne _ _ hslot]
    exact h

/-- The registry, the bookkeeping, the flag and the mappings are all that matters. -/
theorem OrchInv.congr (h : OrchInv s) (hreg : s'.registry = s.registry) (hver : s'.pendingOldVer = s.pendingOldVer)
    (hbase : s'.pendingOldBase = s.pendingOldBase) (hsize : s'.pendingOldSize = s.pendingOldSize)
    (hsrv : s'.srvRegion = s.srvRegion) (hblocked : s'.mutationsBlocked = s.mutationsBlocked) : OrchInv s' where
  notCopying := by rw [hreg]; exact h.notCopying
  previous := by rw [hreg, hver]; exact h.previous
  keepsOld := by rw [hreg, hver]; exact h.keepsOld
  slot := by rw [hreg]; exact h.slot
  current := by rw [hreg]; exact h.current
  old := by rw [hreg, hver]; exact h.old
  srvRegion := by rw [hreg, hsrv]; exact h.srvRegion
  base := by rw [hbase, hver]; exact h.base
  sized := by rw [hreg]; exact h.sized
  oldSized := by rw [hver, hsize]; exact h.oldSized
  blocked := by rw [hreg, hblocked]; exact h.blocked

/-- A step that keeps versions, epochs, mappings and bookkeeping, and moves the state between two that agree on the old
    region. -/
theorem OrchInv.setState (h : OrchInv s) (st : ResizeState) (hst : st ≠ .copying)
    (hold : st.keepsOld = s.registry.resizeState.keepsOld) : OrchInv (s.setState st) where
  notCopying := hst
  previous := h.previous
  keepsOld := by
    rw [show (s.setState st).registry.resizeState.keepsOld = st.keepsOld from rfl, hold]
    exact h.keepsOld
  slot := h.slot
  current := h.current
  old := h.old
  srvRegion := h.srvRegion
  base := h.base
  sized := h.sized
  oldSized := h.oldSized
  blocked := by
    show decide (st = .copying ∨ st = .readyToSwitch ∨ st = .drainOld) = decide (st = .readyToSwitch ∨ st = .drainOld)
    simp only [hst, false_or]

/-- A write to an epoch slot that keeps its geometry, its version and its flag. -/
theorem OrchInv.setEpoch (h : OrchInv s) (v : Nat) (ep : ResizeEpoch)
    (hg : ep.geometry = (s.registry.epochOf v).geometry) (hp : ep.published = (s.registry.epochOf v).published)
    (hv : ep.version = (s.registry.epochOf v).version) : OrchInv (s.withRegistry (s.registry.setEpoch v ep)) where
  notCopying := h.notCopying
  previous := h.previous
  keepsOld := h.keepsOld
  slot := h.slot
  current := published_setEpoch hp hv h.current
  old := fun hne => ⟨published_setEpoch hp hv (h.old hne).1, (h.old hne).2⟩
  srvRegion := h.srvRegion
  base := h.base
  sized := by
    have hgeo : (s.withRegistry (s.registry.setEpoch v ep)).registry.currentEpoch.geometry
        = s.registry.currentEpoch.geometry := (Quiet.setEpoch s v hg).geometry s.registry.currentVersion
    rw [hgeo]
    exact h.sized
  oldSized := h.oldSized
  blocked := h.blocked

/-- The slots of the epoch table after a copy: the next version's is filled, the old version's is as it was. -/
theorem copied_epochs (s : Server) (g : PackedStruct) :
    (s.copied s.registry.currentVersion g).registry.Published (nextVersion s.registry.currentVersion) ∧
    (s.copied s.registry.currentVersion g).registry.epochOf s.registry.currentVersion = s.registry.currentEpoch := by
  have hne := (nextVersion_slot s.registry.currentVersion).2
  constructor
  · show (SharedNumaRegistry.epochOf (SharedNumaRegistry.setEpoch _ (nextVersion s.registry.currentVersion) _)
      (nextVersion s.registry.currentVersion)).published = true ∧
      (SharedNumaRegistry.epochOf (SharedNumaRegistry.setEpoch _ (nextVersion s.registry.currentVersion) _)
      (nextVersion s.registry.currentVersion)).version = _
    rw [SharedNumaRegistry.setEpoch_self]
    refine ⟨rfl, ?_⟩
    show (SharedNumaRegistry.epochOf (SharedNumaRegistry.setEpoch _ (nextVersion s.registry.currentVersion) _)
      (nextVersion s.registry.currentVersion)).version = _
    rw [SharedNumaRegistry.setEpoch_self]
    rfl
  · show SharedNumaRegistry.epochOf (SharedNumaRegistry.setEpoch _ (nextVersion s.registry.currentVersion) _)
      s.registry.currentVersion = _
    rw [SharedNumaRegistry.setEpoch_of_ne _ _ hne]
    show SharedNumaRegistry.epochOf (SharedNumaRegistry.setEpoch _ (nextVersion s.registry.currentVersion) _)
      s.registry.currentVersion = _
    rw [SharedNumaRegistry.setEpoch_of_ne _ _ hne]
    rfl

/-- A completed copy: the old version is pending, in a slot of its own. -/
theorem OrchInv.copied (h : OrchInv s) (g : PackedStruct) : OrchInv (s.copied s.registry.currentVersion g) := by
  obtain ⟨hnew, hold⟩ := copied_epochs s g
  obtain ⟨hslot, hne⟩ := nextVersion_slot s.registry.currentVersion
  have hpos : s.registry.currentVersion ≠ 0 := by
    intro h0
    apply h.slot
    rw [h0]
    rfl
  have hgeo : (s.copied s.registry.currentVersion g).registry.currentEpoch.geometry
      = .layout (s.registry.currentEpoch.geometry.numDataEntries * 2) (s.registry.currentEpoch.geometry.numBuckets * 2)
        s.registry.currentEpoch.geometry.bucketSizeEach := (copied_registry s _ g).2.2.2.2.2.1
  have hbuckets : 0 < s.registry.currentEpoch.geometry.numBuckets * 2 := Nat.mul_pos h.sized.1 (by decide)
  exact {
    notCopying := by rw [(copied_registry s _ g).2.2.2.2.2.2]; decide
    previous := rfl
    keepsOld := iff_of_true hpos (by rw [(copied_registry s _ g).2.2.2.2.2.2]; rfl)
    slot := hslot
    current := hnew
    old := fun _ => by
      refine ⟨?_, hne⟩
      show (SharedNumaRegistry.epochOf _ s.registry.currentVersion).published = true ∧
        (SharedNumaRegistry.epochOf _ s.registry.currentVersion).version = s.registry.currentVersion
      rw [hold]
      exact h.current
    srvRegion := rfl
    base := by
      show some s.srvRegion = if s.registry.currentVersion = 0 then none else some s.registry.currentVersion
      rw [if_neg hpos, h.srvRegion]
    sized := by
      rw [hgeo]
      exact ⟨hbuckets, layout_regionSize_pos hbuckets⟩
    oldSized := fun _ => by
      have hsize : (s.copied s.registry.currentVersion g).pendingOldSize
          = ((s.copied s.registry.currentVersion g).registry.epochOf s.registry.currentVersion).geometry.regionSize := rfl
      rw [hsize, hold]
      exact h.sized.2
    blocked := rfl }

/-- Reclaiming: the old region is unmapped and forgotten. -/
theorem OrchInv.reclaim (h : OrchInv s) (hst : s.registry.resizeState = .gcPending) : OrchInv s.reclaim where
  notCopying := (by decide : ResizeState.normal ≠ .copying)
  previous := rfl
  keepsOld := iff_of_false (fun hne => hne rfl) (by decide : ¬ ResizeState.normal.keepsOld = true)
  slot := h.slot
  current := h.current
  old := fun hne => absurd rfl hne
  srvRegion := h.srvRegion
  base := by
    have hold : s.pendingOldVer ≠ 0 := h.keepsOld.mpr (by rw [hst]; rfl)
    show (if s.pendingOldSize > 0 then none else s.pendingOldBase) = _
    rw [if_pos (h.oldSized hold)]
    rfl
  sized := h.sized
  oldSized := fun hne => absurd rfl hne
  blocked := rfl

theorem OrchInv.replayKeeps (h : OrchInv s) (hk : ReplayKeeps (s.withQueues [] []) s') : OrchInv s' := by
  obtain ⟨regions, wrappers, rfl⟩ := hk
  exact h.congr rfl rfl rfl rfl rfl rfl

/-- **One move.** -/
theorem OrchInv.move (h : OrchInv s) (hm : TickMove s s') : OrchInv s' := by
  cases hm with
  | wait ack gc => exact h.congr rfl rfl rfl rfl rfl rfl
  | trigger hst => exact h.setState _ (by decide) (by rw [hst]; rfl)
  | abort hst linked hlinked =>
      -- the two calls of `set_state` with a link in between leave what one call would
      have hnormal := h.setState .normal (by decide) (by rw [hst]; rfl)
      exact ⟨hnormal.notCopying, hnormal.previous, hnormal.keepsOld, hnormal.slot, hnormal.current, hnormal.old,
        hnormal.srvRegion, hnormal.base, hnormal.sized, hnormal.oldSized, hnormal.blocked⟩
  | copy hst g => exact h.copied g
  | acked hst pending ack =>
      have hset := (h.setEpoch s.registry.currentVersion
        { s.registry.currentEpoch with clientsPendingAck := pending } rfl rfl rfl).setState
        .drainOld (by decide) (by
          show ResizeState.keepsOld .drainOld = s.registry.resizeState.keepsOld
          rw [hst]
          rfl)
      exact hset.congr rfl rfl rfl rfl rfl rfl
  | @drained hst t inp hkeep =>
      have ht := h.replayKeeps hkeep
      have hstate : t.registry.resizeState = .drainOld := by
        rw [hkeep.registry]
        exact hst
      have hclean : OrchInv (if t.pendingOldVer > 0 then
          t.withRegistry (t.registry.setEpoch t.pendingOldVer
            { t.registry.epochOf t.pendingOldVer with cleanupAllowed := true }) else t) := by
        split
        · exact ht.setEpoch _ _ rfl rfl rfl
        · exact ht
      have hst' : (if t.pendingOldVer > 0 then
          t.withRegistry (t.registry.setEpoch t.pendingOldVer
            { t.registry.epochOf t.pendingOldVer with cleanupAllowed := true }) else t).registry.resizeState
          = .drainOld := by
        split <;> exact hstate
      have hset := hclean.setState .gcPending (by decide) (by rw [hst']; rfl)
      exact hset.congr rfl rfl rfl rfl rfl rfl
  | reclaimed hst => exact h.reclaim hst

/-- What clients do to the registry matters to none of it. -/
theorem OrchInv.clientsWrite (h : OrchInv s) (w : ClientWrites) : OrchInv (s.clientsWrite w) :=
  ⟨h.notCopying, h.previous, h.keepsOld, h.slot, h.current, h.old, h.srvRegion, h.base, h.sized, h.oldSized, h.blocked⟩

theorem OrchInv.step (h : OrchInv s) {a : ServerStep} (hok : s.step H a = .ok s') : OrchInv s' := by
  cases a with
  | tick inp => exact h.move (checkState_move hok)
  | clients w =>
      cases hok
      exact h.clientsWrite w

/-- The server that `setup_ludo_table` and `register_numa_server` start. -/
theorem orchInv_start {st : Store} (hpos : 0 < st.buckets.numElements) (sSlow sStop : Nat) :
    OrchInv (st.server sSlow sStop) where
  notCopying := (by decide : ResizeState.normal ≠ .copying)
  previous := rfl
  keepsOld := iff_of_false (fun hne => hne rfl) (by decide : ¬ ResizeState.normal.keepsOld = true)
  slot := (by decide : 1 % kMaxEpochSlots ≠ 0)
  current := ⟨rfl, rfl⟩
  old := fun hne => absurd rfl hne
  srvRegion := rfl
  base := rfl
  sized := ⟨hpos, layout_regionSize_pos hpos⟩
  oldSized := fun hne => absurd rfl hne
  blocked := rfl

/-- With nothing queued every tick returns. -/
theorem checkState_returns (hi : s.deferredInserts = []) (hd : s.deferredDeletes = []) (inp : TickInput) :
    ∃ s', s.checkState H inp = .ok s' := by
  unfold Server.checkState
  cases s.registry.resizeState with
  | normal | preResize | copying | readyToSwitch | gcPending => exact ⟨_, rfl⟩
  | drainOld =>
      by_cases hw : s.pendingOldVer > 0 ∧ (s.registry.epochOf s.pendingOldVer).activeWriters > 0
      · refine ⟨s, ?_⟩
        simp only [Server.drainOld, if_pos hw]
        rfl
      · have horder : s.replayOrder = [] := by
          unfold Server.replayOrder
          rw [hi, hd]
          rfl
        have hdrain := drainOld_replays (H := H) inp hw
        rw [horder] at hdrain
        exact ⟨_, hdrain⟩

/-- Nothing is queued by a tick. -/
theorem TickMove.queues (h : TickMove s s') (hi : s.deferredInserts = []) (hd : s.deferredDeletes = []) :
    s'.deferredInserts = [] ∧ s'.deferredDeletes = [] := by
  cases h with
  | wait | trigger | abort | copy | acked | reclaimed => exact ⟨hi, hd⟩
  | drained hst inp hkeep =>
      obtain ⟨regions, wrappers, rfl⟩ := hkeep
      unfold Server.finishDrain
      split <;> exact ⟨rfl, rfl⟩

end Inv

/-! ## The cycle over whole runs -/

/-- What holds at every tick boundary. -/
structure TickBoundary (s : Server) : Prop where
  notCopying : s.registry.resizeState ≠ .copying
  pending : s.registry.previousVersion = s.pendingOldVer
  previous : s.registry.previousVersion ≠ 0 ↔ s.registry.resizeState = .readyToSwitch ∨
    s.registry.resizeState = .drainOld ∨ s.registry.resizeState = .gcPending
  slot : s.registry.currentVersion % kMaxEpochSlots ≠ 0
  current : s.registry.Published s.registry.currentVersion
  old : s.registry.previousVersion ≠ 0 → s.registry.Published s.registry.previousVersion ∧
    s.registry.previousVersion % kMaxEpochSlots ≠ s.registry.currentVersion % kMaxEpochSlots
  mapped : ∀ v, s.Mapped v ↔ v = s.registry.currentVersion ∨
    (s.registry.previousVersion ≠ 0 ∧ v = s.registry.previousVersion)
  blocked : s.mutationsBlocked = true ↔ s.registry.resizeState = .readyToSwitch ∨ s.registry.resizeState = .drainOld

/-- What changes from one tick boundary to the next. -/
structure TickChange (s s' : Server) : Prop where
  state : ResizeState.Move s.registry.resizeState s'.registry.resizeState
  version : s.registry.currentVersion ≤ s'.registry.currentVersion
  generation : s.registry.generation ≤ s'.registry.generation
  signal : s'.registry.resizeState ≠ s.registry.resizeState ∨
    s'.registry.currentVersion ≠ s.registry.currentVersion → s.registry.generation < s'.registry.generation

section Cycle

variable {H : HashFn} {s s' : Server}

theorem OrchInv.boundary (h : OrchInv s) : TickBoundary s where
  notCopying := h.notCopying
  pending := h.previous
  previous := by
    rw [h.previous, h.keepsOld]
    cases s.registry.resizeState <;> decide
  slot := h.slot
  current := h.current
  old := by
    rw [h.previous]
    exact h.old
  mapped := by
    intro v
    unfold Server.Mapped
    rw [h.srvRegion, h.previous, h.base]
    by_cases hold : s.pendingOldVer = 0
    · rw [if_pos hold]
      simp [hold]
    · rw [if_neg hold, Option.some.injEq]
      simp [hold, eq_comm]
  blocked := by
    rw [h.blocked]
    exact decide_eq_true_iff

theorem TickChange.of_registry (h : s'.registry = s.registry) : TickChange s s' := by
  refine ⟨?_, ?_, ?_, ?_⟩ <;> rw [h]
  · exact .stay _
  · simp

/-- A move with a signal. -/
theorem TickChange.of_lt (hmove : ResizeState.Move s.registry.resizeState s'.registry.resizeState)
    (hver : s.registry.currentVersion ≤ s'.registry.currentVersion)
    (hgen : s.registry.generation < s'.registry.generation) : TickChange s s' :=
  ⟨hmove, hver, le_of_lt hgen, fun _ => hgen⟩

theorem TickMove.change (h : TickMove s s') : TickChange s s' := by
  cases h with
  | wait ack gc => exact .of_registry rfl
  | trigger hst => exact .of_lt (hst ▸ .trigger) (le_refl _) (Nat.lt_succ_self _)
  | abort hst linked hlinked => exact .of_lt (hst ▸ .aborted) (le_refl _) (Nat.lt_add_of_pos_right (by decide : 0 < 2))
  | copy hst g =>
      -- entering `COPYING`, the publication and `READY_TO_SWITCH`
      exact .of_lt (hst ▸ .copied) (le_of_lt (lt_nextVersion _)) (Nat.lt_add_of_pos_right (by decide : 0 < 3))
  | acked hst pending ack => exact .of_lt (hst ▸ .acked) (le_refl _) (Nat.lt_succ_self _)
  | @drained hst t inp hkeep =>
      have hreg : t.registry = s.registry := hkeep.registry
      have hdone : (t.finishDrain inp).registry.resizeState = .gcPending ∧
          (t.finishDrain inp).registry.currentVersion = t.registry.currentVersion ∧
          (t.finishDrain inp).registry.generation = t.registry.generation + 1 := by
        unfold Server.finishDrain
        split <;> exact ⟨rfl, rfl, rfl⟩
      rw [hreg] at hdone
      refine .of_lt ?_ (le_of_eq hdone.2.1.symm) (by rw [hdone.2.2]; exact Nat.lt_succ_self _)
      rw [hst, hdone.1]
      exact .drained
  | reclaimed hst => exact .of_lt (hst ▸ .reclaimed) (le_refl _) (Nat.lt_add_of_pos_right (by decide : 0 < 2))

end Cycle

/-- **The orchestrator's invariant.** From any bulk load and any thresholds, after any ticks (whatever the clock, the
    memory check and the creation of regions answered) and whatever clients did to the lanes, the client table and the
    acknowledgement counters in between: `TickBoundary` holds; the next tick returns; and it changes no more than
    `TickChange` allows. -/
theorem orchestrator_invariant {H : HashFn} {cp : ExactLudo} {existKeys : List U64} {memThreads : Nat}
    {alien : U64 → Bool} {regMem : Nat → PackedStruct} {packedStruct : PackedStruct} {st : Store} {sSlow sStop : Nat}
    {s : Server} (hld : Loaded H cp existKeys)
    (hok : setupLudoTable H cp existKeys memThreads alien regMem packedStruct = .ok st)
    (hrun : Lib.Reaches (Server.step H) Lib.anyStep (st.server sSlow sStop) s) :
    TickBoundary s ∧ ∀ inp, ∃ s', s.checkState H inp = .ok s' ∧ TickChange s s' := by
  have hpos : 0 < st.buckets.numElements := by
    have hinv := hld.storeInv hok
    rw [hinv.buckets]
    exact hinv.pos
  have hall : OrchInv s ∧ s.deferredInserts = [] ∧ s.deferredDeletes = [] := by
    refine hrun.invariant (P := fun s => OrchInv s ∧ s.deferredInserts = [] ∧ s.deferredDeletes = [])
      ⟨orchInv_start hpos sSlow sStop, rfl, rfl⟩ ?_
    rintro t a t' ⟨ht, hi, hd⟩ - hstep
    refine ⟨ht.step hstep, ?_⟩
    cases a with
    | tick inp => exact (checkState_move hstep).queues hi hd
    | clients w =>
        cases hstep
        exact ⟨hi, hd⟩
  obtain ⟨hinv, hi, hd⟩ := hall
  refine ⟨hinv.boundary, fun inp => ?_⟩
  obtain ⟨s', hs'⟩ := checkState_returns (H := H) hi hd inp
  exact ⟨s', hs', (checkState_move hs').change⟩

/-- The one-key store after the two ticks that publish version 2: the old region is pending, and the next tick goes on to
    `DRAIN_OLD`. -/
theorem orchestrator_invariant_seven : ∃ s, Lib.Reaches (Server.step fastHasher64) Lib.anyStep sevenServer s ∧
    s.registry.currentVersion = 2 ∧ s.registry.previousVersion = 1 ∧ TickBoundary s ∧
    ∀ inp, ∃ s', s.checkState fastHasher64 inp = .ok s' ∧ TickChange s s' := by
  have hsetup := rowStore_setup 423 0 [7]
  have h₁ : sevenServer.step fastHasher64 (.tick calmTick) = .ok (sevenServer.setState .preResize) := rfl
  have h₂ : (sevenServer.setState .preResize).step fastHasher64 (.tick calmTick)
      = .ok ((sevenServer.setState .preResize).copied 1 .zero) := rfl
  have hrun : Lib.Reaches (Server.step fastHasher64) Lib.anyStep sevenServer _ :=
    (Lib.Reaches.snoc .refl trivial h₁).snoc trivial h₂
  exact ⟨_, hrun, rfl, rfl, orchestrator_invariant rowTable_seven hsetup hrun⟩

end Outback
