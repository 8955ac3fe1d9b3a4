import Outback.Numa.Client
import Outback.Numa.Resize

/-!
# `Numa.World` — clients and the orchestrator, interleaved

The server's orchestrator and any number of client threads over one shared memory. A connect is one step, and so is
a client's data operation, its version check included; `do_copy` is the sequence of its own steps, between which clients run. Outside
`do_copy` the orchestrator takes whole ticks. In `World.atomic` a tick that copies is one step as well.
-/

namespace Outback

/-- How far `do_copy` has come. -/
inductive CopyPhase where
  /-- `COPYING` entered and the new region created -/
  | created
  | packedCopied
  | bucketsCopied
  | epochFilled
  | lanesReset
  /-- `published`, `previous_version` and `current_version` stored -/
  | versionStored
  | generationBumped
  deriving DecidableEq, Repr

/-- A client thread: its process and its `t_region`. -/
structure Thread where
  proc : Nat
  region : ClientRegionState

structure World where
  server : Server
  procs : Nat → ClientProcess
  threads : Nat → Thread
  /-- a `do_copy` under way -/
  copy : Option (CopyPhase × CopyPlan)

namespace World

/-- What thread `tid` can reach. -/
def view (w : World) (tid : Nat) : ClientView :=
  ⟨w.server.shared, w.procs (w.threads tid).proc, (w.threads tid).region⟩

/-- The world after thread `tid` left its view as `c`. -/
def putView (w : World) (tid : Nat) (c : ClientView) : World :=
  { w with
    server := { w.server with shared := c.shared }
    procs := Function.update w.procs (w.threads tid).proc c.process
    threads := Function.update w.threads tid { w.threads tid with region := c.region } }

section PutView

variable (w : World) (tid : Nat) (c : ClientView)

@[simp] theorem putView_procs_self : (w.putView tid c).procs (w.threads tid).proc = c.process := Function.update_self ..

theorem putView_procs_of_ne {p : Nat} (h : p ≠ (w.threads tid).proc) : (w.putView tid c).procs p = w.procs p :=
  Function.update_of_ne h ..

@[simp] theorem putView_region_self : ((w.putView tid c).threads tid).region = c.region := by
  simp [putView]

theorem putView_threads_of_ne {t : Nat} (h : t ≠ tid) : (w.putView tid c).threads t = w.threads t :=
  Function.update_of_ne h ..

end PutView

def connect (w : World) (tid : Nat) (env : OpEnv) : World :=
  w.putView tid ((w.view tid).connectToNumaServer tid env).2

def clientStep (H : HashFn) (w : World) (tid : Nat) (env : OpEnv) (op : ClientOp) : Exec World := do
  let c ← (w.view tid).step H tid env op
  return w.putView tid c

/-- `check_state` in `PRE_RESIZE` calls `do_copy`. -/
def StartsCopy (w : World) (inp : TickInput) : Prop :=
  w.server.registry.resizeState = .preResize ∧ w.server.registry.sSlow ≠ 0 ∧
    w.server.registry.sStop ≤ w.server.maxIdx ∧ inp.memoryPressureOk = true

instance (w : World) (inp : TickInput) : Decidable (w.StartsCopy inp) := inferInstanceAs (Decidable (_ ∧ _ ∧ _ ∧ _))

/-- One step of the orchestrator thread. -/
def orchestrate (H : HashFn) (w : World) (inp : TickInput) : Exec World :=
  match w.copy with
  | none =>
      if w.StartsCopy inp then
        let plan := w.server.registry.copyPlan w.server.registry.currentVersion
        .ok { w with
          server := w.server.enterCopying plan inp.create
          copy := if inp.create = .created then some (.created, plan) else none }
      else do
        let s ← w.server.checkState H inp
        return { w with server := s }
  | some (.created, plan) =>
      .ok { w with server := w.server.copyPacked plan, copy := some (.packedCopied, plan) }
  | some (.packedCopied, plan) =>
      .ok { w with server := w.server.copyBuckets plan, copy := some (.bucketsCopied, plan) }
  | some (.bucketsCopied, plan) =>
      .ok { w with server := w.server.fillEpoch plan, copy := some (.epochFilled, plan) }
  | some (.epochFilled, plan) =>
      .ok { w with server := w.server.resetLanes plan, copy := some (.lanesReset, plan) }
  | some (.lanesReset, plan) =>
      .ok { w with server := w.server.publish plan, copy := some (.versionStored, plan) }
  | some (.versionStored, plan) =>
      .ok { w with server := w.server.bumpGeneration, copy := some (.generationBumped, plan) }
  | some (.generationBumped, plan) =>
      .ok { w with server := w.server.finishCopy plan inp.packedStruct, copy := none }

end World

inductive WorldStep where
  | connect (tid : Nat) (env : OpEnv)
  | client (tid : Nat) (env : OpEnv) (op : ClientOp)
  | orchestrator (inp : TickInput)

def World.step (H : HashFn) (w : World) : WorldStep → Exec World
  | .connect tid env => .ok (w.connect tid env)
  | .client tid env op => w.clientStep H tid env op
  | .orchestrator inp => w.orchestrate H inp

/-- A step of the coarser world. -/
inductive AtomicStep where
  | connect (tid : Nat) (env : OpEnv)
  | client (tid : Nat) (env : OpEnv) (op : ClientOp)
  | tick (inp : TickInput)

/-- One whole connect, data operation or tick of `check_state`. -/
def World.atomic (H : HashFn) (w : World) : AtomicStep → Exec World
  | .connect tid env => .ok (w.connect tid env)
  | .client tid env op => w.clientStep H tid env op
  | .tick inp => do
      let s ← w.server.checkState H inp
      return { w with server := s }

/-- A server with processes and threads that have not connected yet: `proc` and `lane` give the process and the lane of
    each thread, `lookup` the index each process has built. -/
def Server.world (s : Server) (lookup : Nat → DataPlaneLudo) (proc lane : Nat → Nat) : World where
  server := s
  procs := fun p => .init (lookup p)
  threads := fun tid => ⟨proc tid, .init (lane tid)⟩
  copy := none

/-- With no client in between, the steps of `do_copy` are the tick that calls it. -/
theorem World.orchestrate_doCopy (H : HashFn) {w : World} {inp : TickInput} (hc : w.copy = none)
    (hstart : w.StartsCopy inp) (hcr : inp.create = .created) :
    (List.replicate 8 inp).foldlM (fun w inp => w.orchestrate H inp) w
      = (w.server.checkState H inp).map (fun s => { w with server := s }) := by
  obtain ⟨server, procs, threads, copy⟩ := w
  subst hc
  have hfirst : World.orchestrate H ⟨server, procs, threads, none⟩ inp
      = .ok ⟨server.enterCopying (server.registry.copyPlan server.registry.currentVersion) .created, procs, threads,
          some (.created, server.registry.copyPlan server.registry.currentVersion)⟩ := by
    unfold World.orchestrate
    simp only [hcr, if_true]
    exact if_pos hstart
  have hlast : server.checkState H inp = .ok (server.doCopy server.registry.currentVersion inp) :=
    Server.checkState_of_completesCopy H ⟨hstart.1, hstart.2.1, hstart.2.2.1, hstart.2.2.2, hcr⟩
  simp only [List.replicate, List.foldlM_cons, List.foldlM_nil]
  rw [hfirst, hlast]
  unfold Server.doCopy
  simp only [hcr, if_true]
  rfl

end Outback
