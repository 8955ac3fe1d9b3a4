import Outback.Numa.Resize

/-!
# `Numa.Correctness.ResizeSteps` — what one tick of the orchestrator can do

**`checkState_cases`**: a tick either completes a copy, from `PRE_RESIZE` and with the lanes past `s_stop`, or it
is `Quiet`: version, thresholds, lanes and epoch geometries stay, and so do the regions while no mutation is
queued. `copyInto_registry` and `copyInto_regions` say what a completed copy leaves.
-/

namespace Outback

/-! ## Versions -/

theorem lt_nextVersion (v : Nat) : v < nextVersion v := by
  unfold nextVersion
  split <;> omega

theorem nextVersion_ne (v : Nat) : nextVersion v ≠ v := (lt_nextVersion v).ne'

/-- The orchestrator and the clients mean the same lanes, as long as the table has room for them. -/
theorem effectiveLanes_eq {s : Server} (h : s.registry.lanes.memThreads ≤ kMaxNumaLanes) :
    s.effectiveLanes = s.registry.lanes.lanes := by
  unfold Server.effectiveLanes Lanes.lanes
  rw [Nat.min_eq_left h]

/-- The next version has a slot of its own, and not slot 0. -/
theorem nextVersion_slot (v : Nat) :
    nextVersion v % kMaxEpochSlots ≠ 0 ∧ v % kMaxEpochSlots ≠ nextVersion v % kMaxEpochSlots := by
  unfold nextVersion kMaxEpochSlots
  split <;> omega

/-! ## Quiet steps -/

/-- What a step that publishes nothing keeps. -/
structure Quiet (s s' : Server) : Prop where
  sSlow : s'.registry.sSlow = s.registry.sSlow
  sStop : s'.registry.sStop = s.registry.sStop
  lanes : s'.registry.lanes = s.registry.lanes
  currentVersion : s'.registry.currentVersion = s.registry.currentVersion
  geometry : ∀ v, (s'.registry.epochOf v).geometry = (s.registry.epochOf v).geometry
  srvRegion : s'.srvRegion = s.srvRegion
  /-- with nothing queued, no region but the next one is touched -/
  regions : s.deferredInserts = [] → s.deferredDeletes = [] →
    s'.deferredInserts = [] ∧ s'.deferredDeletes = [] ∧
      s'.shared.regions s.registry.currentVersion = s.shared.regions s.registry.currentVersion

namespace Quiet

variable {s s' s'' : Server}

theorem refl (s : Server) : Quiet s s := ⟨rfl, rfl, rfl, rfl, fun _ => rfl, rfl, fun h h' => ⟨h, h', rfl⟩⟩

theorem trans (h : Quiet s s') (h' : Quiet s' s'') : Quiet s s'' where
  sSlow := h'.sSlow.trans h.sSlow
  sStop := h'.sStop.trans h.sStop
  lanes := h'.lanes.trans h.lanes
  currentVersion := h'.currentVersion.trans h.currentVersion
  geometry := fun v => (h'.geometry v).trans (h.geometry v)
  srvRegion := h'.srvRegion.trans h.srvRegion
  regions := fun hi hd => by
    obtain ⟨hi', hd', hr⟩ := h.regions hi hd
    obtain ⟨hi'', hd'', hr'⟩ := h'.regions hi' hd'
    rw [h.currentVersion] at hr'
    exact ⟨hi'', hd'', hr'.trans hr⟩

theorem maxIdx (h : Quiet s s') : s'.maxIdx = s.maxIdx := by
  unfold Server.maxIdx Server.effectiveLanes
  rw [h.lanes]

theorem setState (s : Server) (st : ResizeState) : Quiet s (s.setState st) :=
  ⟨rfl, rfl, rfl, rfl, fun _ => rfl, rfl, fun h h' => ⟨h, h', rfl⟩⟩

/-- Writing an epoch's flags keeps its geometry. -/
theorem setEpoch (s : Server) (v : Nat) {ep : ResizeEpoch} (h : ep.geometry = (s.registry.epochOf v).geometry) :
    Quiet s (s.withRegistry (s.registry.setEpoch v ep)) := by
  refine ⟨rfl, rfl, rfl, rfl, fun v' => ?_, rfl, fun h h' => ⟨h, h', rfl⟩⟩
  show ((s.registry.setEpoch v ep).epochOf v').geometry = _
  by_cases hv : v' % kMaxEpochSlots = v % kMaxEpochSlots
  · rw [SharedNumaRegistry.epochOf, hv, ← SharedNumaRegistry.epochOf, SharedNumaRegistry.setEpoch_self, h,
      SharedNumaRegistry.epochOf, SharedNumaRegistry.epochOf, hv]
  · rw [SharedNumaRegistry.setEpoch_of_ne _ _ hv]

end Quiet

/-! ## The quiet branches of `check_state` -/

section Branches

variable (s : Server) (inp : TickInput)

theorem quiet_maybeTriggerPreResize : Quiet s s.maybeTriggerPreResize := by
  unfold Server.maybeTriggerPreResize
  split
  · exact .refl s
  · split
    · exact .setState s _
    · exact .refl s

theorem quiet_forceDrain : Quiet s s.forceDrain := by
  unfold Server.forceDrain
  refine Quiet.trans (Quiet.setEpoch s s.registry.currentVersion ?_) (.setState _ _)
  rfl

theorem quiet_waitForAcksOrTimeout : Quiet s (s.waitForAcksOrTimeout inp) := by
  have hstart : ∀ t : Server, ∀ x : U64, Quiet t { t with ackWaitStart := x } := fun t _ =>
    ⟨rfl, rfl, rfl, rfl, fun _ => rfl, rfl, fun h h' => ⟨h, h', rfl⟩⟩
  unfold Server.waitForAcksOrTimeout
  simp only
  split
  · exact .setState s _
  · split
    · exact quiet_forceDrain s
    · generalize hs : (if s.ackWaitStart = 0 then { s with ackWaitStart := inp.nowMs 1 } else s) = t
      have ht : Quiet s t := by
        rw [← hs]
        split
        · exact hstart s _
        · exact .refl s
      split
      · exact ht.trans ((quiet_forceDrain t).trans (hstart _ _))
      · exact ht

theorem quiet_maybeGc : Quiet s (s.maybeGc inp) := by
  unfold Server.maybeGc
  simp only
  generalize hs : (if s.gcStartTime = 0 then { s with gcStartTime := inp.nowMs 0 } else s) = t
  have ht : Quiet s t := by
    rw [← hs]
    split
    · exact ⟨rfl, rfl, rfl, rfl, fun _ => rfl, rfl, fun h h' => ⟨h, h', rfl⟩⟩
    · exact .refl s
  split
  · exact ht
  · split
    · exact ht
    · refine ht.trans (Quiet.trans ?_ (.setState _ _))
      exact ⟨rfl, rfl, rfl, rfl, fun _ => rfl, rfl, fun h h' => ⟨h, h', rfl⟩⟩

end Branches

/-! ## Replays touch only the new region -/

/-- Replaying changes regions and the replay wrappers, nothing else. -/
def ReplayKeeps (s s' : Server) : Prop :=
  ∃ regions wrappers, s' = { s with shared := { s.shared with regions := regions }, newWrappers := wrappers }

namespace ReplayKeeps

variable {s s' s'' : Server}

theorem refl (s : Server) : ReplayKeeps s s := ⟨s.shared.regions, s.newWrappers, rfl⟩

theorem trans (h : ReplayKeeps s s') (h' : ReplayKeeps s' s'') : ReplayKeeps s s'' := by
  obtain ⟨regions, wrappers, rfl⟩ := h
  obtain ⟨regions', wrappers', rfl⟩ := h'
  exact ⟨regions', wrappers', rfl⟩

theorem registry (h : ReplayKeeps s s') : s'.registry = s.registry := by
  obtain ⟨regions, wrappers, rfl⟩ := h
  rfl

end ReplayKeeps

theorem replayInsert_keeps {H : HashFn} {s s' : Server} {key val : U64} (h : s.replayInsert H key val = .ok s') :
    ReplayKeeps s s' := by
  unfold Server.replayInsert at h
  split at h
  · cases h
    exact .refl s
  · obtain ⟨r, -, h⟩ := Lib.bind_eq_ok.mp h
    cases h
    exact ⟨_, _, rfl⟩

theorem replayDelete_keeps {H : HashFn} {s s' : Server} {key : U64} (h : s.replayDelete H key = .ok s') :
    ReplayKeeps s s' := by
  unfold Server.replayDelete at h
  split at h
  · cases h
    exact .refl s
  · obtain ⟨r, -, h⟩ := Lib.bind_eq_ok.mp h
    cases h
    exact ⟨_, s.newWrappers, rfl⟩

/-- The loop over the queued inserts. -/
theorem replayInserts_keeps {H : HashFn} {l : List (U64 × U64)} {s s' : Server}
    (h : Server.replayInserts H l s = .ok s') : ReplayKeeps { s with deferredInserts := [] } s' := by
  induction l generalizing s with
  | nil =>
      cases h
      exact .refl _
  | cons kv l ih =>
      rw [Server.replayInserts] at h
      obtain ⟨t, ht, h⟩ := Lib.bind_eq_ok.mp h
      have hrest := ih h
      obtain ⟨regions, wrappers, rfl⟩ := replayInsert_keeps ht
      exact ReplayKeeps.trans ⟨regions, wrappers, rfl⟩ hrest

/-- The loop over the queued deletes. -/
theorem replayDeletes_keeps {H : HashFn} {l : List U64} {s s' : Server}
    (h : Server.replayDeletes H l s = .ok s') : ReplayKeeps { s with deferredDeletes := [] } s' := by
  induction l generalizing s with
  | nil =>
      cases h
      exact .refl _
  | cons key l ih =>
      rw [Server.replayDeletes] at h
      obtain ⟨t, ht, h⟩ := Lib.bind_eq_ok.mp h
      have hrest := ih h
      obtain ⟨regions, wrappers, rfl⟩ := replayDelete_keeps ht
      exact ReplayKeeps.trans ⟨regions, wrappers, rfl⟩ hrest

/-- Both loops of `drain_old` leave the queues empty and the rest as it was. -/
theorem replays_keep {H : HashFn} {s t u : Server} (hi : Server.replayInserts H s.deferredInserts s = .ok t)
    (hd : Server.replayDeletes H t.deferredDeletes t = .ok u) :
    ReplayKeeps { s with deferredInserts := [], deferredDeletes := [] } u := by
  have hrest := replayDeletes_keeps hd
  obtain ⟨regions, wrappers, rfl⟩ := replayInserts_keeps hi
  exact ReplayKeeps.trans ⟨regions, wrappers, rfl⟩ hrest

/-- The end of `drain_old`, after the replays. -/
theorem quiet_drainEnd (s : Server) (x : U64) :
    Quiet s (Server.setState { (if s.pendingOldVer > 0 then
      s.withRegistry (s.registry.setEpoch s.pendingOldVer
        { s.registry.epochOf s.pendingOldVer with cleanupAllowed := true }) else s) with gcStartTime := x }
      .gcPending) := by
  refine Quiet.trans ?_ (.setState _ _)
  have hstart : ∀ t : Server, Quiet t { t with gcStartTime := x } := fun t =>
    ⟨rfl, rfl, rfl, rfl, fun _ => rfl, rfl, fun h h' => ⟨h, h', rfl⟩⟩
  split
  · refine Quiet.trans (Quiet.setEpoch s s.pendingOldVer ?_) (hstart _)
    rfl
  · exact hstart s

theorem quiet_drainOld {H : HashFn} {s s' : Server} {inp : TickInput} (h : s.drainOld H inp = .ok s') :
    Quiet s s' := by
  unfold Server.drainOld at h
  split at h
  · cases h
    exact .refl s
  · cases hi : Server.replayInserts H s.deferredInserts s with
    | error e => simp only [hi] at h; cases h
    | ok t =>
        simp only [hi, Exec.ok_bind] at h
        cases hd : Server.replayDeletes H t.deferredDeletes t with
        | error e => simp only [hd] at h; cases h
        | ok u =>
            simp only [hd, Exec.ok_bind] at h
            cases h
            refine Quiet.trans ?_ (quiet_drainEnd u (inp.nowMs 0))
            have hkeep := replays_keep hi hd
            have hreg : u.registry = s.registry := hkeep.registry
            have hrest : u.srvRegion = s.srvRegion ∧ u.deferredInserts = [] ∧ u.deferredDeletes = [] := by
              obtain ⟨regions, wrappers, rfl⟩ := hkeep
              exact ⟨rfl, rfl, rfl⟩
            refine ⟨by rw [hreg], by rw [hreg], by rw [hreg], by rw [hreg], fun v => by rw [hreg], hrest.1,
              fun hi₀ hd₀ => ⟨hrest.2.1, hrest.2.2, ?_⟩⟩
            -- nothing queued: both loops are empty
            rw [hi₀] at hi
            cases hi
            have hd₁ : Server.replayDeletes H s.deferredDeletes { s with deferredInserts := [] } = .ok u := hd
            rw [hd₀] at hd₁
            cases hd₁
            rfl

/-! ## A completed copy -/

section CopySteps

variable (s : Server) (plan : CopyPlan)

theorem enterCopying_regions : (s.enterCopying plan .created).shared.regions
    = Function.update s.shared.regions plan.newVer .zero := rfl

theorem copyPacked_regions : (s.copyPacked plan).shared.regions
    = Function.update s.shared.regions plan.newVer { s.shared.regions plan.newVer with
        packed := fun i => if i < plan.oldDataEntries then (s.shared.regions s.srvRegion).packed i
          else (s.shared.regions plan.newVer).packed i } := rfl

theorem copyBuckets_regions : (s.copyBuckets plan).shared.regions
    = Function.update s.shared.regions plan.newVer { s.shared.regions plan.newVer with
        buckets := fun b => if b < plan.copiedBuckets then (s.shared.regions s.srvRegion).buckets b
          else if b < 2 * plan.copiedBuckets then .zero else (s.shared.regions plan.newVer).buckets b } := rfl

end CopySteps

section Copy

variable (s : Server) (oldVer : Nat) (inp : TickInput)

/-- A copy that could not create its region. -/
theorem quiet_enterCopying_failed {create : CreateOutcome} (h : create ≠ .created) (plan : CopyPlan) :
    Quiet s (s.enterCopying plan create) := by
  unfold Server.enterCopying
  cases create with
  | shmOpenFailed => exact (Quiet.setState s _).trans (.setState _ _)
  | mapFailed =>
      refine (Quiet.setState s .copying).trans (Quiet.trans ?_ (.setState _ _))
      exact ⟨rfl, rfl, rfl, rfl, fun _ => rfl, rfl, fun h h' => ⟨h, h', rfl⟩⟩
  | created => exact absurd rfl h

/-- The server after `do_copy` created its region and returned. -/
def Server.copied (s : Server) (oldVer : Nat) (packedStruct : PackedStruct) : Server :=
  (s.enterCopying (s.registry.copyPlan oldVer) .created).copyInto (s.registry.copyPlan oldVer) packedStruct

theorem doCopy_created (h : inp.create = .created) : s.doCopy oldVer inp = s.copied oldVer inp.packedStruct := by
  unfold Server.doCopy Server.copied
  simp only [h]
  rfl

/-- The registry after a copy: the next version is current, its epoch has the planned geometry, and the lanes start
    at the old number of entries. -/
theorem copied_registry (g : PackedStruct) :
    (s.copied oldVer g).registry.currentVersion = nextVersion oldVer ∧
    (s.copied oldVer g).registry.sSlow = s.registry.sSlow ∧
    (s.copied oldVer g).registry.sStop = s.registry.sStop ∧
    (s.copied oldVer g).registry.lanes.memThreads = s.registry.lanes.memThreads ∧
    (∀ i, i < s.effectiveLanes → (s.copied oldVer g).registry.lanes.laneNextFreeIndex i
      = (s.registry.epochOf oldVer).geometry.numDataEntries + i) ∧
    (s.copied oldVer g).registry.currentEpoch.geometry = (s.registry.copyPlan oldVer).geometry ∧
    (s.copied oldVer g).registry.resizeState = .readyToSwitch := by
  unfold Server.copied Server.copyInto
  refine ⟨?_, ?_, ?_, ?_, fun i hi => ?_, ?_, ?_⟩
  · rfl
  · rfl
  · rfl
  · rfl
  · exact if_pos hi
  · -- the slot of the new version is written twice: its geometry, then its `published` flag
    show (((SharedNumaRegistry.setEpoch _ (nextVersion oldVer) _).epochOf (nextVersion oldVer)).geometry) = _
    rw [SharedNumaRegistry.setEpoch_self]
    show (((SharedNumaRegistry.setEpoch _ (nextVersion oldVer) _).epochOf (nextVersion oldVer)).geometry) = _
    rw [SharedNumaRegistry.setEpoch_self]
  · rfl

/-- A copy writes to the new region alone. -/
theorem copied_regions_of_ne (g : PackedStruct) {v : Nat} (hv : v ≠ nextVersion oldVer) :
    (s.copied oldVer g).shared.regions v = s.shared.regions v := by
  have hnew : (s.registry.copyPlan oldVer).newVer = nextVersion oldVer := rfl
  show ((((s.enterCopying (s.registry.copyPlan oldVer) .created).copyPacked (s.registry.copyPlan oldVer)).copyBuckets
    (s.registry.copyPlan oldVer)).shared.newPackedData (nextVersion oldVer) _ g).regions v = _
  unfold Shared.newPackedData
  rw [Shared.setRegion_of_ne _ _ hv, copyBuckets_regions, hnew, Function.update_of_ne hv, copyPacked_regions, hnew,
    Function.update_of_ne hv, enterCopying_regions, hnew, Function.update_of_ne hv]

end Copy

/-! ## Inversion -/

/-- **What a tick can do.** -/
theorem checkState_cases {H : HashFn} {s s' : Server} {inp : TickInput} (h : s.checkState H inp = .ok s') :
    Quiet s s' ∨ (s.CompletesCopy inp ∧ s' = s.copied s.registry.currentVersion inp.packedStruct) := by
  unfold Server.checkState at h
  split at h
  · cases h
    exact Or.inl (quiet_maybeTriggerPreResize s)
  · rename_i hst
    cases h
    unfold Server.maybeStartCopying
    split
    · exact Or.inl (.refl s)
    · rename_i hslow
      split
      · exact Or.inl (.refl s)
      · rename_i hstop
        split
        · exact Or.inl (.refl s)
        · rename_i hmem
          by_cases hc : inp.create = .created
          · exact Or.inr ⟨⟨hst, hslow, Nat.not_lt.mp hstop, Bool.eq_true_of_not_eq_false hmem, hc⟩,
              doCopy_created s _ inp hc⟩
          · refine Or.inl ?_
            unfold Server.doCopy
            simp only [if_neg hc]
            exact quiet_enterCopying_failed s hc _
  · cases h
    exact Or.inl (.refl s)
  · cases h
    exact Or.inl (quiet_waitForAcksOrTimeout s inp)
  · exact Or.inl (quiet_drainOld h)
  · cases h
    exact Or.inl (quiet_maybeGc s inp)

end Outback
