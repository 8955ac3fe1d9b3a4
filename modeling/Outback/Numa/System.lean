import Outback.Numa.Direct
import Outback.Numa.World

/-!
# `Numa.System` — clients, handlers and the orchestrator over one shared memory

The whole deployment at the granularity of whole calls: connects and data operations of any number of client threads,
the handlers of the server process, ticks of the orchestrator, and the replays of `drain_old` one at a time. A tick that
still has mutations to replay is not made before they are.
-/

namespace Outback

namespace Server

/-- `drain_old` gets to its loops. -/
def Draining (s : Server) : Prop :=
  s.registry.resizeState = .drainOld ∧
    ¬ (s.pendingOldVer > 0 ∧ (s.registry.epochOf s.pendingOldVer).activeWriters > 0)

instance (s : Server) : Decidable s.Draining := inferInstanceAs (Decidable (_ ∧ _))

/-- One round of the two loops: `replay_insert` or `replay_delete` of the mutation in front, and its removal. -/
def replayNext (H : HashFn) (s : Server) : Exec Server :=
  match s.deferredInserts, s.deferredDeletes with
  | (key, val) :: rest, _ => do
      let t ← s.replayInsert H key val
      return { t with deferredInserts := rest }
  | [], key :: rest => do
      let t ← s.replayDelete H key
      return { t with deferredDeletes := rest }
  | [], [] => .ok s

end Server

structure NumaSystem where
  server : NumaServer
  procs : Nat → ClientProcess
  threads : Nat → Thread

inductive SystemStep where
  | connect (tid : Nat) (env : OpEnv)
  | client (tid : Nat) (env : OpEnv) (op : ClientOp)
  /-- a handler runs -/
  | call (c : DirectCall)
  | tick (inp : TickInput)
  | replay

namespace NumaSystem

/-- What the clients and the orchestrator see of it. -/
def world (w : NumaSystem) : World := ⟨w.server.orch, w.procs, w.threads, none⟩

def registry (w : NumaSystem) : SharedNumaRegistry := w.server.orch.registry

/-- The system after a step of the clients or of the orchestrator. -/
def ofWorld (w : NumaSystem) (v : World) : NumaSystem := ⟨{ w.server with orch := v.server }, v.procs, v.threads⟩

def putOrch (w : NumaSystem) (s : Server) : NumaSystem := { w with server := { w.server with orch := s } }

def step (H : HashFn) (w : NumaSystem) : SystemStep → Exec NumaSystem
  | .connect tid env => .ok (w.ofWorld (w.world.connect tid env))
  | .client tid env op => do return w.ofWorld (← w.world.clientStep H tid env op)
  | .call c => do
      let (s, _) ← w.server.call H c
      return { w with server := s }
  | .tick inp =>
      if w.server.orch.Draining ∧ (w.server.orch.deferredInserts ≠ [] ∨ w.server.orch.deferredDeletes ≠ []) then .ok w
      else do return w.putOrch (← w.server.orch.checkState H inp)
  | .replay =>
      if w.server.orch.Draining then do return w.putOrch (← w.server.orch.replayNext H)
      else .ok w

end NumaSystem

/-- A server process with client processes and threads that have not connected yet. -/
def NumaServer.system (s : NumaServer) (lookup : Nat → DataPlaneLudo) (proc lane : Nat → Nat) : NumaSystem where
  server := s
  procs := fun p => .init (lookup p)
  threads := fun tid => ⟨proc tid, .init (lane tid)⟩

end Outback
