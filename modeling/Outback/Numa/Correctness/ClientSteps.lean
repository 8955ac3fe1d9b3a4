import Outback.Numa.World
import Outback.Numa.Correctness.Steps
import Outback.Numa.Correctness.Attach
import Outback.Numa.Correctness.ResizeSteps

/-!
# `Numa.Correctness.ClientSteps` — what one step of a client thread can do

**`clientStep_inv`** inverts a data operation: the version check comes first, and then nothing is written, or one
operation of the store behind the selected wrappers is committed. `maybeCheckVersion_data` and `connect_data` say what
the version check and a connect leave alone: the bucket arrays, the lanes, the version, the generation and the
geometries.
-/

namespace Outback

/-! ## What clients write to the registry -/

/-- The registry after the clients wrote what they can write. -/
def SharedNumaRegistry.touched (reg : SharedNumaRegistry) (w : ClientWrites) : SharedNumaRegistry :=
  { reg with
    clients := w.clients
    registeredClients := w.registeredClients
    lanes := { reg.lanes with laneNextFreeIndex := w.laneNextFreeIndex }
    epoch := fun i => { reg.epoch i with clientsPendingAck := w.clientsPendingAck i } }

/-- Only what clients can write has changed. -/
def ClientsOnly (reg reg' : SharedNumaRegistry) : Prop := ∃ w, reg' = reg.touched w

namespace ClientsOnly

variable {reg reg' reg'' : SharedNumaRegistry}

theorem refl (reg : SharedNumaRegistry) : ClientsOnly reg reg :=
  ⟨⟨reg.lanes.laneNextFreeIndex, reg.clients, reg.registeredClients, fun i => (reg.epoch i).clientsPendingAck⟩, rfl⟩

theorem trans (h : ClientsOnly reg reg') (h' : ClientsOnly reg' reg'') : ClientsOnly reg reg'' := by
  obtain ⟨w, rfl⟩ := h
  obtain ⟨w', rfl⟩ := h'
  exact ⟨w', rfl⟩

theorem acknowledge (reg : SharedNumaRegistry) (version : Nat) : ClientsOnly reg (reg.acknowledge version) := by
  refine ⟨⟨reg.lanes.laneNextFreeIndex, reg.clients, reg.registeredClients, fun i =>
    if i = version % kMaxEpochSlots then (reg.epochOf version).clientsPendingAck - 1
    else (reg.epoch i).clientsPendingAck⟩, ?_⟩
  unfold SharedNumaRegistry.acknowledge SharedNumaRegistry.setEpoch SharedNumaRegistry.touched
  congr 1
  funext i
  by_cases hi : i = version % kMaxEpochSlots
  · simp only [hi, Function.update_self, if_true]
    rfl
  · simp only [Function.update_of_ne hi, if_neg hi]

theorem heartbeat (reg : SharedNumaRegistry) (slot : Option Nat) (now : U64) :
    ClientsOnly reg (reg.heartbeat slot now) := by
  cases slot with
  | none => exact .refl reg
  | some i => exact ⟨⟨reg.lanes.laneNextFreeIndex, _, reg.registeredClients,
      fun i => (reg.epoch i).clientsPendingAck⟩, rfl⟩

theorem registerClient (reg : SharedNumaRegistry) : ClientsOnly reg reg.registerClient := by
  unfold SharedNumaRegistry.registerClient
  split
  · exact .refl reg
  · exact ⟨⟨reg.lanes.laneNextFreeIndex, _, _, fun i => (reg.epoch i).clientsPendingAck⟩, rfl⟩

/-- Lane counters that moved. -/
theorem lanes (reg : SharedNumaRegistry) {l : Lanes} (h : l.memThreads = reg.lanes.memThreads) :
    ClientsOnly reg { reg with lanes := l } := by
  obtain ⟨memThreads, next⟩ := l
  obtain rfl : memThreads = reg.lanes.memThreads := h
  exact ⟨⟨next, reg.clients, reg.registeredClients, fun i => (reg.epoch i).clientsPendingAck⟩, rfl⟩

end ClientsOnly

/-! ## Attaching -/

/-- What attaching keeps of the shared memory. -/
structure AttachKeeps (sh sh' : Shared) : Prop where
  registry : SharedNumaRegistry.SameData sh.registry sh'.registry
  clients : ClientsOnly sh.registry sh'.registry
  buckets : ∀ v, (sh'.regions v).buckets = (sh.regions v).buckets
  linked : sh'.linked = sh.linked

namespace AttachKeeps

variable {sh sh' : Shared}

theorem refl (sh : Shared) : AttachKeeps sh sh := ⟨.refl _, .refl _, fun _ => rfl, rfl⟩

/-- The current epoch has the same geometry. -/
theorem currentEpoch (h : AttachKeeps sh sh') :
    sh'.registry.currentEpoch.geometry = sh.registry.currentEpoch.geometry := by
  unfold SharedNumaRegistry.currentEpoch
  rw [h.registry.currentVersion, h.registry.geometry]

end AttachKeeps

/-! ## The data through a call -/

section Client

variable {H : HashFn} {c c' : ClientView} {tid : Nat} {env : OpEnv}

theorem attach_data (c : ClientView) (ver : Nat) (env : OpEnv) : AttachKeeps c.shared (c.attach ver env).shared := by
  obtain ⟨hreg, hod⟩ := attach_shared c env ver
  refine ⟨hod.registry, (ClientsOnly.acknowledge _ _).trans (.heartbeat _ _ _), fun v => ?_, hod.linked⟩
  rw [hreg, Shared.newPackedData_buckets]

theorem maybeCheckVersion_data (c : ClientView) (tid : Nat) (env : OpEnv) :
    AttachKeeps c.shared (c.maybeCheckVersion tid env).shared := by
  unfold ClientView.maybeCheckVersion
  simp only
  split
  · exact .refl _
  · split
    · exact .refl _
    · split
      · rcases remap_shared c tid env with ⟨-, hsh⟩ | ⟨-, heq⟩
        · rw [hsh]
          exact .refl _
        · have hkeep := attach_data (c.unmapOld tid) c.shared.registry.currentVersion env
          rw [unmapOld_shared] at hkeep
          rw [heq]
          exact hkeep
      · exact ⟨SharedNumaRegistry.sameData_heartbeat _ _ _, .heartbeat _ _ _, fun _ => rfl, rfl⟩

theorem connect_clientsOnly (c : ClientView) (tid : Nat) (env : OpEnv) :
    ClientsOnly c.shared.registry (c.connectToNumaServer tid env).2.shared.registry := by
  have hregister := ClientsOnly.registerClient c.shared.registry
  unfold ClientView.connectToNumaServer
  simp only
  split
  · exact .refl _
  · split
    · exact .refl _
    · split
      · exact hregister
      · exact hregister.trans ((ClientsOnly.acknowledge _ _).trans (.heartbeat _ _ _))

theorem connect_data (c : ClientView) (tid : Nat) (env : OpEnv) :
    AttachKeeps c.shared (c.connectToNumaServer tid env).2.shared := by
  rcases connect_shared c tid env with ⟨-, hreg, hod⟩ | ⟨-, hreg, hod⟩
  · exact ⟨hod.registry, connect_clientsOnly c tid env, fun v => by rw [hreg], hod.linked⟩
  · refine ⟨hod.registry, connect_clientsOnly c tid env, fun v => ?_, hod.linked⟩
    rw [hreg, Shared.newPackedData_buckets]

/-- The version check keeps the lookup unit and the connection of the process, and the thread's lane. -/
theorem maybeCheckVersion_keeps (c : ClientView) (tid : Nat) (env : OpEnv) :
    (c.maybeCheckVersion tid env).process.lookup = c.process.lookup ∧
    (c.maybeCheckVersion tid env).process.registryMapped = c.process.registryMapped ∧
    (c.maybeCheckVersion tid env).region.remoteLaneId = c.region.remoteLaneId := by
  have hunmap : (c.unmapOld tid).process.lookup = c.process.lookup ∧
      (c.unmapOld tid).process.registryMapped = c.process.registryMapped ∧
      (c.unmapOld tid).region.remoteLaneId = c.region.remoteLaneId := by
    unfold ClientView.unmapOld
    split <;> exact ⟨rfl, rfl, rfl⟩
  unfold ClientView.maybeCheckVersion ClientView.remapToCurrentEpoch
  simp only
  split
  · exact ⟨rfl, rfl, rfl⟩
  · split
    · exact ⟨rfl, rfl, rfl⟩
    · split
      · split
        · exact ⟨rfl, rfl, rfl⟩
        · split
          · exact hunmap
          · exact hunmap
      · exact ⟨rfl, rfl, rfl⟩

/-! ## The operations -/

/-- A data operation is its version check and its body. -/
theorem step_eq_operate (H : HashFn) (op : ClientOp) :
    c.step H tid env op = (c.maybeCheckVersion tid env).operate H op := by
  cases op with
  | search key =>
      unfold ClientView.step ClientView.numaSearch ClientView.operate
      simp only
      cases (c.maybeCheckVersion tid env).selectWrappers with
      | error e => rfl
      | ok w =>
          cases w with
          | none => rfl
          | some w =>
              simp only [Exec.ok_bind]
              cases ((c.maybeCheckVersion tid env).store w).numaSearch H key with
              | error e => rfl
              | ok v => rfl
  | write op => rfl

/-- **What the body of a data operation does.** It writes nothing, or it commits one operation of the store that it sees
    through the wrappers it selected. -/
theorem operate_inv {op : ClientOp} (hok : c.operate H op = .ok c') :
    c' = c ∨ ∃ w numaOp st, op = .write numaOp ∧ c.selectWrappers = .ok (some w) ∧
      (c.store w).step H (numaOp.onLane c.region.remoteLaneId) = .ok st ∧ c' = c.commit w st := by
  cases op with
  | search key =>
      left
      obtain ⟨w, -, hok⟩ := Lib.bind_eq_ok.mp hok
      cases w with
      | none =>
          cases hok
          rfl
      | some w =>
          obtain ⟨v, -, hok⟩ := Lib.bind_eq_ok.mp hok
          cases hok
          rfl
  | write numaOp =>
      obtain ⟨w, hsel, hok⟩ := Lib.bind_eq_ok.mp hok
      cases w with
      | none =>
          cases hok
          exact Or.inl rfl
      | some w =>
          obtain ⟨locked, -, hok⟩ := Lib.bind_eq_ok.mp hok
          cases locked with
          | false =>
              cases hok
              exact Or.inl rfl
          | true =>
              obtain ⟨st, hst, hok⟩ := Lib.bind_eq_ok.mp hok
              cases hok
              exact Or.inr ⟨w, numaOp, st, rfl, hsel, hst, rfl⟩

/-! ## A client step -/

/-- A whole data operation, with its version check. -/
theorem clientStep_inv {op : ClientOp} (hok : c.step H tid env op = .ok c') :
    c' = c.maybeCheckVersion tid env ∨ ∃ w numaOp st, op = .write numaOp ∧
      (c.maybeCheckVersion tid env).selectWrappers = .ok (some w) ∧
      ((c.maybeCheckVersion tid env).store w).step H
        (numaOp.onLane (c.maybeCheckVersion tid env).region.remoteLaneId) = .ok st ∧
      c' = (c.maybeCheckVersion tid env).commit w st := by
  rw [step_eq_operate] at hok
  exact operate_inv hok

/-- Of the registry a commit writes the lane counters. -/
theorem commit_clientsOnly {w : Wrappers} {op : NumaOp} {st : Store} (hst : (c.store w).step H op = .ok st) :
    ClientsOnly c.shared.registry (c.commit w st).shared.registry := by
  refine ClientsOnly.lanes _ ?_
  split
  · rcases step_lanes hst with hl | ⟨laneId, hl⟩ <;> rw [hl] <;> rfl
  · rfl

theorem clientStep_clientsOnly {op : ClientOp} (hok : c.step H tid env op = .ok c') :
    ClientsOnly c.shared.registry c'.shared.registry := by
  have hcheck := (maybeCheckVersion_data c tid env).clients
  rcases clientStep_inv hok with rfl | ⟨w, numaOp, st, -, -, hst, rfl⟩
  · exact hcheck
  · exact hcheck.trans (commit_clientsOnly hst)

end Client

/-! ## The wrappers within reach -/

/-- Every wrapper that a thread can reach satisfies `P`. -/
structure ClientView.AllWrappers (P : Wrappers → Prop) (c : ClientView) : Prop where
  own : ∀ w, c.region.wrappers = some w → P w
  remote : ∀ r, c.process.remote = some r → P r.wrappers

namespace ClientView.AllWrappers

variable {P : Wrappers → Prop} {c : ClientView}

theorem unmapOld (h : c.AllWrappers P) (tid : Nat) : (c.unmapOld tid).AllWrappers P := by
  unfold ClientView.unmapOld
  split
  · exact h
  · refine ⟨fun w hw => (by cases hw), fun r hr => ?_⟩
    obtain ⟨r₀, hr₀, rfl⟩ := Option.map_eq_some_iff.mp hr
    have := h.remote r₀ hr₀
    split <;> exact this

/-- A version check builds wrappers over the current epoch, or none. -/
theorem maybeCheckVersion (h : c.AllWrappers P)
    (hcur : P (.ofEpoch c.shared.registry.currentVersion c.shared.registry.currentEpoch.geometry)) (tid : Nat)
    (env : OpEnv) : (c.maybeCheckVersion tid env).AllWrappers P := by
  have hunmap := h.unmapOld tid
  unfold ClientView.maybeCheckVersion ClientView.remapToCurrentEpoch
  simp only
  split
  · exact h
  · split
    · exact h
    · split
      · split
        · exact h
        · split
          · exact hunmap
          · refine ⟨fun w hw => ?_, hunmap.remote⟩
            cases hw
            rw [unmapOld_shared]
            exact hcur
      · exact ⟨h.own, h.remote⟩

theorem connect (h : c.AllWrappers P)
    (hcur : P (.ofEpoch c.shared.registry.currentVersion c.shared.registry.currentEpoch.geometry)) (tid : Nat)
    (env : OpEnv) : (c.connectToNumaServer tid env).2.AllWrappers P := by
  have hgeo := (SharedNumaRegistry.sameData_registerClient c.shared.registry).geometry c.shared.registry.currentVersion
  unfold ClientView.connectToNumaServer
  simp only
  split
  · exact h
  · split
    · exact ⟨h.own, h.remote⟩
    · split
      · exact ⟨h.own, h.remote⟩
      · have hcur' : P (.ofEpoch c.shared.registry.currentVersion
            (c.shared.registry.registerClient.epochOf c.shared.registry.currentVersion).geometry) := by
          rw [hgeo]
          exact hcur
        refine ⟨fun w hw => ?_, fun r hr => ?_⟩
        · cases hw
          exact hcur'
        · cases hr
          exact hcur'

theorem clientStep {H : HashFn} {c' : ClientView} {tid : Nat} {env : OpEnv} {op : ClientOp} (h : c.AllWrappers P)
    (hcur : P (.ofEpoch c.shared.registry.currentVersion c.shared.registry.currentEpoch.geometry))
    (hok : c.step H tid env op = .ok c') : c'.AllWrappers P := by
  have hcheck := h.maybeCheckVersion hcur tid env
  rcases clientStep_inv hok with rfl | ⟨w, numaOp, st, -, -, -, rfl⟩
  · exact hcheck
  · exact ⟨hcheck.own, hcheck.remote⟩

/-- The wrappers an operation goes through. -/
theorem select (h : c.AllWrappers P) {w : Wrappers} (hs : c.selectWrappers = .ok (some w)) : P w := by
  unfold ClientView.selectWrappers at hs
  split at hs
  · rename_i w' hw
    cases hs
    exact h.own w hw
  · split at hs
    · cases hs
    · rename_i r hr
      split at hs
      · cases hs
        exact h.remote r hr
      · cases hs

end ClientView.AllWrappers

/-- A thread's step leaves its own view and, for the other threads of its process, the globals. -/
theorem World.allWrappers_putView {P : Wrappers → Prop} {w : World} {tid : Nat} {c : ClientView}
    (h : ∀ t, (w.view t).AllWrappers P) (hc : c.AllWrappers P) (t : Nat) :
    ((w.putView tid c).view t).AllWrappers P := by
  refine ⟨fun wr hwr => ?_, fun r hr => ?_⟩
  · by_cases ht : t = tid
    · subst ht
      refine hc.own wr ?_
      simpa [World.view, World.putView] using hwr
    · refine (h t).own wr ?_
      simpa [World.view, World.putView, Function.update_of_ne ht] using hwr
  · have hproc : ((w.putView tid c).threads t).proc = (w.threads t).proc := by
      by_cases ht : t = tid
      · subst ht
        simp [World.putView]
      · simp [World.putView, Function.update_of_ne ht]
    have hr' : (Function.update w.procs (w.threads tid).proc c.process (w.threads t).proc).remote = some r := by
      rw [← hproc]
      exact hr
    by_cases hp : (w.threads t).proc = (w.threads tid).proc
    · rw [hp, Function.update_self] at hr'
      exact hc.remote r hr'
    · rw [Function.update_of_ne hp] at hr'
      exact (h t).remote r hr'

end Outback
