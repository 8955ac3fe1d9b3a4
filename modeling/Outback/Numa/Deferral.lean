import Outback.Numa.Direct
import Outback.Numa.Stores

/-!
# `Numa.Deferral` — blocked puts and removes between the stores of the orchestrator

`outback_put_direct` and `outback_remove_direct` load `g_structural_mutations_blocked`, then enqueue or go on to the row,
then reply. The flag, the state word and the queues change in separate stores, so each call is three steps here, between
the stores of `Numa.Stores`. `defer_insert` and `defer_delete` hold `defer_mu_` and are one step each; a call that is not
blocked works on its row under the row's mutex and is one step as well.

`stop` joins the monitor thread, so it comes when no tick is under way; it clears the flag and the globals that point to
the orchestrator.
-/

namespace Outback

/-- The calls that change the structure, and look at the flag. -/
def DirectCall.structural : DirectCall → Bool
  | .put _ _ _ _ | .remove _ _ => true
  | .get _ | .update _ _ _ => false

namespace NumaServer

/-- The enqueue of a blocked call, and whether the mutation is in the queue now. The handler does not look at that. -/
def enqueue (s : NumaServer) : DirectCall → Bool × NumaServer
  | .put _ key val _ => (s.intercepting && (s.orch.deferInsert key val).1, s.deferPut key val)
  | .remove _ key => (s.intercepting && (s.orch.deferDelete key).1, s.deferRemove key)
  | .get _ | .update _ _ _ => (false, s)

/-- A call behind its look at the flag. -/
def applyCall (H : HashFn) (s : NumaServer) : DirectCall → Exec (NumaServer × ReplyValue)
  | .put loc key val reply => s.applyPut H loc key val reply
  | .remove loc key => s.applyRemove loc key
  | .get loc => do return (s, ← s.outbackGetDirect loc)
  | .update loc key val => s.outbackUpdateDirect loc key val

/-- The end of `stop`. -/
def stop (s : NumaServer) : NumaServer := { s with orch := { s.orch with mutationsBlocked := false }, intercepting := false }

end NumaServer

/-- What a handler thread does next. -/
inductive HandlerPc where
  /-- it is in no put and no remove -/
  | idle
  /-- the flag was set -/
  | enqueue (c : DirectCall)
  /-- the flag was clear -/
  | apply (c : DirectCall)
  /-- reply `DEFERRED`; `queued` says whether the mutation was enqueued -/
  | deferred (c : DirectCall) (queued : Bool)
  | applied (reply : ReplyValue)

structure DeferWorld where
  server : NumaServer
  /-- the stores that the orchestrator's tick has still to make -/
  prog : List OrchStore
  calls : Nat → HandlerPc

/-- What clients can change between two steps: their words of the registry and the regions. -/
structure ClientActivity where
  registry : ClientWrites
  regions : Nat → Region

inductive DeferStep where
  /-- a put or a remove begins with its load of the flag -/
  | load (tid : Nat) (c : DirectCall)
  /-- and goes on -/
  | go (tid : Nat)
  /-- a get or an update -/
  | call (c : DirectCall)
  | tick (inp : TickInput)
  /-- the orchestrator makes its next store -/
  | store
  | clients (a : ClientActivity)
  | stop

namespace DeferWorld

variable (H : HashFn)

/-- The thread goes on at `pc`, with the server left as `s`. -/
def put (w : DeferWorld) (tid : Nat) (s : NumaServer) (pc : HandlerPc) : DeferWorld :=
  { w with server := s, calls := Function.update w.calls tid pc }

section Put

variable (w : DeferWorld) (tid : Nat) (s : NumaServer) (pc : HandlerPc)

@[simp] theorem put_calls_self : (w.put tid s pc).calls tid = pc := Function.update_self ..

theorem put_calls_of_ne {t : Nat} (h : t ≠ tid) : (w.put tid s pc).calls t = w.calls t := Function.update_of_ne h ..

end Put

/-- The next step of a handler thread. -/
def go (w : DeferWorld) (tid : Nat) : Exec DeferWorld :=
  match w.calls tid with
  | .idle => .ok w
  -- the reply is `DEFERRED` whether or not the queue took the mutation
  | .enqueue c => .ok (w.put tid (w.server.enqueue c).2 (.deferred c (w.server.enqueue c).1))
  | .apply c => do
      let (s, reply) ← w.server.applyCall H c
      return w.put tid s (.applied reply)
  | .deferred _ _ | .applied _ => .ok (w.put tid w.server .idle)

/-- The orchestrator makes its next store. -/
def store (w : DeferWorld) : Exec DeferWorld :=
  match w.prog with
  | [] => .ok w
  | a :: prog => do
      let s ← w.server.orch.exec H a
      return { w with server := { w.server with orch := s }, prog := prog }

def clients (w : DeferWorld) (a : ClientActivity) : DeferWorld :=
  let orch := w.server.orch.clientsWrite a.registry
  { w with server := { w.server with orch := { orch with shared := { orch.shared with regions := a.regions } } } }

/-- One step. A tick begins when the last one is over, and as long as the orchestrator has not been stopped. -/
def step (w : DeferWorld) : DeferStep → Exec DeferWorld
  | .load tid c =>
      .ok (match w.calls tid, c.structural with
        | .idle, true => w.put tid w.server (if w.server.orch.mutationsBlocked then .enqueue c else .apply c)
        | _, _ => w)
  | .go tid => w.go H tid
  | .call c =>
      if c.structural then .ok w
      else do
        let (s, _) ← w.server.applyCall H c
        return { w with server := s }
  | .tick inp =>
      .ok (if w.prog.isEmpty ∧ w.server.intercepting then { w with prog := w.server.orch.tickStores inp } else w)
  | .store => w.store H
  | .clients a => .ok (w.clients a)
  | .stop => .ok (if w.prog.isEmpty then { w with server := w.server.stop } else w)

end DeferWorld

/-- No call and no tick under way. -/
def NumaServer.deferWorld (s : NumaServer) : DeferWorld := ⟨s, [], fun _ => .idle⟩

end Outback
