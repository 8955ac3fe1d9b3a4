import Outback.Numa.Interleaving

/-!
# `Numa.Timed` — heartbeats, the zombie scan and the clock

The world of `Numa.Interleaving` over one monotonic clock. `client_heartbeat` reads the clock and stores the reading later.
`wait_for_acks_or_timeout` reads it first, loads `clients_pending_ack`, and walks over the client table, two loads a slot;
what it counted decides which stores the tick makes. In every other state a tick is that of `Numa.Stores`.

`lastBeat` and `lastOp` are ghosts: the reading in the last heartbeat of a slot (0, as in the zeroed registry, if there was
none), and when a process last registered or made a data operation.
-/

namespace Outback

/-- A zombie scan under way. -/
structure Scan where
  /-- `now`, read before the first load -/
  now : U64
  pending : U64
  /-- the slot of the client table it has come to -/
  next : Nat
  /-- that slot is active, and its heartbeat is still to be loaded -/
  found : Bool
  /-- the slots it has counted -/
  zombies : List Nat

/-- The heartbeat of the slot is loaded and compared. -/
def Scan.load (sc : Scan) (hb : U64) : Scan :=
  { sc with
    next := sc.next + 1
    found := false
    zombies := if sc.now - hb > kZombieThresholdNs then sc.next :: sc.zombies else sc.zombies }

/-- The stores of `wait_for_acks_or_timeout`, once the scan has its count. -/
def Server.ackStores (s : Server) (pending : U64) (zombies : Nat) (inp : TickInput) : List OrchStore :=
  if pending.toNat ≤ zombies then OrchStore.forceDrain s.registry.currentVersion
  else
    let start := if s.ackWaitStart = 0 then inp.nowMs 1 else s.ackWaitStart
    (if s.ackWaitStart = 0 then [.ackWaitStart (inp.nowMs 1)] else []) ++
      if inp.nowMs 2 - start > kAckGraceMs then OrchStore.forceDrain s.registry.currentVersion ++ [.ackWaitStart 0]
      else []

structure TimedWorld where
  fine : FineWorld
  /-- `CLOCK_MONOTONIC` in nanoseconds -/
  clock : Nat
  /-- what a thread has read from the clock for its heartbeat and not stored yet -/
  reading : Nat → Option Nat
  scan : Option Scan
  lastBeat : Nat → Nat
  lastOp : Nat → Option Nat

inductive TimedStep where
  | elapse (ns : Nat)
  /-- `clock_gettime` of `client_heartbeat` -/
  | readClock (tid : Nat)
  | fine (a : FineStep)
  /-- the scan goes on -/
  | scan (inp : TickInput)

namespace TimedWorld

def registry (w : TimedWorld) : SharedNumaRegistry := w.fine.registry

/-- The clock as a machine word. -/
def now (w : TimedWorld) : U64 := BitVec.ofNat 64 w.clock

def readClock (w : TimedWorld) (tid : Nat) : TimedWorld :=
  let t := w.fine.threads tid
  if t.pc = .heartbeat ∧ t.region.clientSlot ≠ none ∧ w.reading tid = none then
    { w with reading := Function.update w.reading tid (some w.clock) }
  else w

/-- A tick begins. In `READY_TO_SWITCH` with acknowledgements missing it begins the scan. -/
def tick (w : TimedWorld) (inp : TickInput) : TimedWorld :=
  if w.fine.prog.isEmpty = false ∨ w.scan.isSome = true then w
  else if w.registry.resizeState = .readyToSwitch ∧ w.registry.currentEpoch.clientsPendingAck ≠ 0 then
    { w with scan := some ⟨w.now, w.registry.currentEpoch.clientsPendingAck, 0, false, []⟩ }
  else { w with fine := { w.fine with prog := w.fine.server.tickStores inp } }

def scanNext (w : TimedWorld) (inp : TickInput) : TimedWorld :=
  match w.scan with
  | none => w
  | some sc =>
      if sc.next < kMaxClients then
        let client := w.registry.clients sc.next
        if sc.found then { w with scan := some (sc.load client.lastHeartbeatNs) }
        else if client.active then { w with scan := some { sc with found := true } }
        else { w with scan := some { sc with next := sc.next + 1 } }
      else
        { w with
          scan := none
          fine := { w.fine with prog := w.fine.server.ackStores sc.pending sc.zombies.length inp } }

/-- Thread `tid` makes its next access. A heartbeat stores the reading it has taken. -/
def advance (w : TimedWorld) (tid : Nat) (env : OpEnv) : TimedWorld :=
  let t := w.fine.threads tid
  match t.pc with
  | .heartbeat =>
      match t.region.clientSlot, w.reading tid with
      -- without a slot it returns before it reads the clock
      | none, _ => { w with fine := w.fine.advance tid env }
      | some _, none => w
      | some i, some b =>
          { w with
            fine := w.fine.advance tid { env with now := BitVec.ofNat 64 b }
            reading := Function.update w.reading tid none
            lastBeat := Function.update w.lastBeat i b }
  | .countClient _ =>
      { w with fine := w.fine.advance tid env, lastOp := Function.update w.lastOp t.proc (some w.clock) }
  | _ => { w with fine := w.fine.advance tid env }

/-- A data operation. -/
def operate (H : HashFn) (w : TimedWorld) (tid : Nat) (op : ClientOp) : Exec TimedWorld := do
  let fine ← w.fine.step H (.operate tid op)
  let t := w.fine.threads tid
  return { w with
    fine := fine
    lastOp := if t.pc = .idle then Function.update w.lastOp t.proc (some w.clock) else w.lastOp }

def step (H : HashFn) (w : TimedWorld) : TimedStep → Exec TimedWorld
  | .elapse ns => .ok { w with clock := w.clock + ns }
  | .readClock tid => .ok (w.readClock tid)
  | .fine (.tick inp) => .ok (w.tick inp)
  | .fine (.advance tid env) => .ok (w.advance tid env)
  | .fine (.operate tid op) => w.operate H tid op
  | .fine a => do return { w with fine := ← w.fine.step H a }
  | .scan inp => .ok (w.scanNext inp)

end TimedWorld

/-- A server with processes and threads that have not connected yet. The clock starts with the machine. -/
def Server.timedWorld (s : Server) (lookup : Nat → DataPlaneLudo) (proc lane : Nat → Nat) : TimedWorld where
  fine := s.fineWorld lookup proc lane
  clock := 0
  reading := fun _ => none
  scan := none
  lastBeat := fun _ => 0
  lastOp := fun _ => none

end Outback
