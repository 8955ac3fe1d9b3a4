import Outback.Numa.Stores
import Outback.Numa.Correctness.Orchestrator

/-!
# `Numa.Correctness.TickStores` — the stores of a tick

**`exec_writes`** says once what each store does to the words that other parties read. **`tickStores_run`**: with nobody in
between, the stores of a tick are the tick of `Numa.Resize`.
-/

namespace Outback

/-! ## One store -/

namespace OrchStore

/-- A store that moves neither `current_version` nor a counter. -/
def Quiet : OrchStore → Prop
  | .fillEpoch _ | .currentVersion _ | .dropPendingAck _ => False
  | _ => True

/-- `current_version` behind the store. -/
def versionAfter (cur : Nat) : OrchStore → Nat
  | .currentVersion version => version
  | _ => cur

/-- `generation` behind the store. -/
def generationAfter (gen : Nat) : OrchStore → Nat
  | .generation => gen + 1
  | _ => gen

/-- `resize_state` behind the store. -/
def stateAfter (st : ResizeState) : OrchStore → ResizeState
  | .resizeState st' => st'
  | _ => st

end OrchStore

/-- What the store `a` does to the words that other parties read, and to the queues. -/
structure StoreWrites (s : Server) (a : OrchStore) (s' : Server) : Prop where
  currentVersion : s'.registry.currentVersion = a.versionAfter s.registry.currentVersion
  generation : s'.registry.generation = a.generationAfter s.registry.generation
  resizeState : s'.registry.resizeState = a.stateAfter s.registry.resizeState
  clients : s'.registry.clients = s.registry.clients
  registeredClients : s'.registry.registeredClients = s.registry.registeredClients
  pending : a.Quiet → ∀ v, (s'.registry.epochOf v).clientsPendingAck = (s.registry.epochOf v).clientsPendingAck
  queues : (a ≠ .replay ∧ s'.deferredInserts = s.deferredInserts ∧ s'.deferredDeletes = s.deferredDeletes) ∨
    (a = .replay ∧ s'.deferredInserts = [] ∧ s'.deferredDeletes = [])

/-- An epoch whose counter stays as it is. -/
theorem setEpoch_pending (reg : SharedNumaRegistry) (version : Nat) {ep : ResizeEpoch}
    (h : ep.clientsPendingAck = (reg.epochOf version).clientsPendingAck) (v : Nat) :
    ((reg.setEpoch version ep).epochOf v).clientsPendingAck = (reg.epochOf v).clientsPendingAck := by
  by_cases hv : v % kMaxEpochSlots = version % kMaxEpochSlots
  · rw [SharedNumaRegistry.epochOf_congr _ hv, SharedNumaRegistry.epochOf_congr _ hv,
      SharedNumaRegistry.setEpoch_self, h]
  · rw [SharedNumaRegistry.setEpoch_of_ne _ _ hv]

/-- **What a store writes.** -/
theorem exec_writes {H : HashFn} {s s' : Server} {a : OrchStore} (h : s.exec H a = .ok s') : StoreWrites s a s' := by
  cases a with
  | createRegion plan create =>
      cases create <;> (cases h; exact ⟨rfl, rfl, rfl, rfl, rfl, fun _ _ => rfl, Or.inl ⟨OrchStore.noConfusion, rfl, rfl⟩⟩)
  | replay =>
      -- both loops write the new region and its counter, and leave the queues empty
      obtain ⟨t, ht, h⟩ := Lib.bind_eq_ok.mp h
      obtain ⟨regions, wrappers, rfl⟩ := replays_keep ht h
      exact ⟨rfl, rfl, rfl, rfl, rfl, fun _ _ => rfl, Or.inr ⟨rfl, rfl, rfl⟩⟩
  | published version | cleanupAllowed version =>
      cases h
      refine ⟨rfl, rfl, rfl, rfl, rfl, fun _ v => setEpoch_pending s.registry version ?_ v, Or.inl ⟨OrchStore.noConfusion, rfl, rfl⟩⟩
      rfl
  | fillEpoch | currentVersion | dropPendingAck =>
      cases h
      exact ⟨rfl, rfl, rfl, rfl, rfl, fun hq => hq.elim, Or.inl ⟨OrchStore.noConfusion, rfl, rfl⟩⟩
  | generation | blocked | resizeState | copyPacked | copyBuckets | resetLanes | previousVersion | switchRegion
  | newWrappers | ackWaitStart | gcStartTime | reclaimOld =>
      cases h
      exact ⟨rfl, rfl, rfl, rfl, rfl, fun _ _ => rfl, Or.inl ⟨OrchStore.noConfusion, rfl, rfl⟩⟩

/-! ## The stores of a tick are the tick -/

section Run

variable (H : HashFn) (s : Server) (inp : TickInput) (plan : CopyPlan)

theorem run_setState (st : ResizeState) :
    (OrchStore.setState st).foldlM (Server.exec H) s = .ok (s.setState st) := rfl

theorem run_publish : (OrchStore.publish plan).foldlM (Server.exec H) s = .ok (s.publish plan) := rfl

theorem run_finishCopy (g : PackedStruct) :
    (OrchStore.finishCopy plan g).foldlM (Server.exec H) s = .ok (s.finishCopy plan g) := rfl

theorem run_copyInto (g : PackedStruct) :
    (OrchStore.copyInto plan g).foldlM (Server.exec H) s = .ok (s.copyInto plan g) := by
  unfold OrchStore.copyInto Server.copyInto
  simp only [List.foldlM_cons, List.foldlM_append, Server.exec, Exec.ok_bind, run_publish, run_finishCopy]

theorem run_doCopy : (OrchStore.doCopy plan inp).foldlM (Server.exec H) s
    = .ok (if inp.create = .created then (s.enterCopying plan inp.create).copyInto plan inp.packedStruct
        else s.enterCopying plan inp.create) := by
  unfold OrchStore.doCopy
  by_cases hcr : inp.create = .created
  · have hcreate : Server.exec H (s.setState .copying) (.createRegion plan .created)
        = .ok (s.enterCopying plan .created) := rfl
    rw [if_pos hcr, if_pos hcr, hcr, List.foldlM_append, run_setState, Exec.ok_bind, List.foldlM_cons, hcreate,
      Exec.ok_bind, run_copyInto]
  · rw [if_neg hcr, if_neg hcr, List.foldlM_append, run_setState, Exec.ok_bind, List.foldlM_cons]
    cases hfail : inp.create with
    | created => exact absurd hfail hcr
    | shmOpenFailed => rfl
    | mapFailed => rfl

theorem run_waitStores : (s.waitStores inp).foldlM (Server.exec H) s = .ok (s.waitForAcksOrTimeout inp) := by
  unfold Server.waitStores Server.waitForAcksOrTimeout
  simp only
  split
  · rfl
  · split
    · rfl
    · split <;> split <;> rfl

theorem run_finishDrain (now : U64) : (OrchStore.finishDrain s.pendingOldVer now).foldlM (Server.exec H) s
    = .ok ({ (if s.pendingOldVer > 0 then
        s.withRegistry (s.registry.setEpoch s.pendingOldVer
          { s.registry.epochOf s.pendingOldVer with cleanupAllowed := true })
      else s) with gcStartTime := now }.setState .gcPending) := by
  unfold OrchStore.finishDrain
  split <;> rfl

theorem run_drainStores : (s.drainStores inp).foldlM (Server.exec H) s = s.drainOld H inp := by
  unfold Server.drainStores Server.drainOld
  split
  · rfl
  · rw [List.foldlM_cons]
    simp only [Server.exec, bind_assoc]
    cases hi : Server.replayInserts H s.deferredInserts s with
    | error e => rfl
    | ok t =>
        simp only [Exec.ok_bind]
        cases hd : Server.replayDeletes H t.deferredDeletes t with
        | error e => rfl
        | ok u =>
            have hver : s.pendingOldVer = u.pendingOldVer := by
              obtain ⟨regions, wrappers, rfl⟩ := replays_keep hi hd
              rfl
            simp only [Exec.ok_bind]
            rw [hver, run_finishDrain]
            rfl

theorem run_reclaim : OrchStore.reclaim.foldlM (Server.exec H) s = .ok s.reclaim := rfl

theorem run_gcStores : (s.gcStores inp).foldlM (Server.exec H) s = .ok (s.maybeGc inp) := by
  generalize ht : (if s.gcStartTime = 0 then { s with gcStartTime := inp.nowMs 0 } else s) = t
  have hrun : (if s.gcStartTime = 0 then [OrchStore.gcStartTime (inp.nowMs 0)] else []).foldlM (Server.exec H) s
      = .ok t := by
    rw [← ht]
    split <;> rfl
  have hkeep : t.pendingOldVer = s.pendingOldVer ∧ t.registry = s.registry ∧
      t.gcStartTime = if s.gcStartTime = 0 then inp.nowMs 0 else s.gcStartTime := by
    rw [← ht]
    split <;> exact ⟨rfl, rfl, rfl⟩
  unfold Server.gcStores Server.maybeGc
  simp only
  rw [List.foldlM_append, hrun, ht, Exec.ok_bind, ← hkeep.1, ← hkeep.2.1, ← hkeep.2.2]
  split
  · rfl
  · split
    · rfl
    · exact run_reclaim H t

/-- **With nobody in between, the stores of a tick are the tick.** -/
theorem tickStores_run : (s.tickStores inp).foldlM (Server.exec H) s = s.checkState H inp := by
  unfold Server.tickStores Server.checkState
  cases s.registry.resizeState with
  | normal =>
      simp only [Server.maybeTriggerPreResize]
      by_cases hslow : s.registry.sSlow = 0
      · rw [if_neg (fun h => h.1 hslow), if_pos hslow]
        rfl
      · by_cases hmax : s.registry.sSlow ≤ s.maxIdx
        · rw [if_pos ⟨hslow, hmax⟩, if_neg hslow, if_pos hmax]
          rfl
        · rw [if_neg (fun h => hmax h.2), if_neg hslow, if_neg hmax]
          rfl
  | preResize =>
      simp only [Server.maybeStartCopying]
      by_cases hslow : s.registry.sSlow = 0
      · rw [if_neg (fun h => h.1 hslow), if_pos hslow]
        rfl
      · rw [if_neg hslow]
        by_cases hstop : s.registry.sStop ≤ s.maxIdx
        · rw [if_neg (Nat.not_lt.mpr hstop)]
          by_cases hmem : inp.memoryPressureOk = true
          · rw [if_pos ⟨hslow, hstop, hmem⟩, if_neg (by rw [hmem]; decide), run_doCopy]
            rfl
          · rw [if_neg (fun h => hmem h.2.2), if_pos (Bool.eq_false_of_not_eq_true hmem)]
            rfl
        · rw [if_neg (fun h => hstop h.2.1), if_pos (Nat.not_le.mp hstop)]
          rfl
  | copying => rfl
  | readyToSwitch => exact run_waitStores H s inp
  | drainOld => exact run_drainStores H s inp
  | gcPending => exact run_gcStores H s inp

end Run

end Outback
