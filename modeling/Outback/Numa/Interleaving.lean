import Mathlib.Data.Finset.Card
import Outback.Numa.Client
import Outback.Numa.Stores

/-!
# `Numa.Interleaving` — clients and the orchestrator at single loads and stores

`connect_to_numa_server`, `remap_to_current_epoch` and `maybe_check_version` as the sequences of their loads and stores of
the registry. A thread inside one of them is at a `ClientPc`, which carries the version or the generation it has loaded;
`ClientView.advance` makes its next access. Between any two accesses other threads run, and the orchestrator makes stores
of its tick (`Numa.Stores`). What is private to the thread goes with the access before it.

The client table is claimed by a loop of compare-and-swaps from slot 0 on. Slots are never given back, so that the loop
takes the first free one: its claim is one step here.

Three fields of `FineWorld` are not state of the program: `unsignalled`, `registered` and `owed` record what the stores so
far amount to.
-/

namespace Outback

/-! ## A client thread -/

/-- Which call is attaching. -/
inductive Attaching where
  | connect
  | remap
  deriving DecidableEq, Repr

/-- What a client thread does next. -/
inductive ClientPc where
  /-- it is in none of the three calls -/
  | idle
  /-- connect: look at `magic` and `ready` -/
  | checkReady
  | loadVersion (call : Attaching)
  | loadPublished (call : Attaching) (ver : Nat)
  /-- connect: claim a slot of the client table -/
  | claimSlot (ver : Nat)
  /-- connect: `registered_clients.fetch_add(1)` -/
  | countClient (ver : Nat)
  | openRegion (call : Attaching) (ver : Nat)
  | loadGeneration (call : Attaching) (ver : Nat)
  /-- `clients_pending_ack.fetch_sub(1)` -/
  | acknowledge (ver : Nat)
  | heartbeat
  /-- check: `generation` has moved to `gen`, load `current_version` -/
  | checkVersion (gen : Nat)
  deriving DecidableEq, Repr

namespace ClientView

/-- `munmap(remote_registry)`. -/
def unmapRegistry (c : ClientView) : ClientView := { c with process := { c.process with registryMapped := false } }

/-- `connect_to_numa_server` up to the mapped registry. -/
def startConnect (c : ClientView) (env : OpEnv) : ClientView × ClientPc :=
  if env.opensRegistry = false then (c, .idle)
  else ({ c with process := { c.process with registryMapped := true } }, .checkReady)

/-- `maybe_check_version` up to its load of `generation`. -/
def startCheck (c : ClientView) : ClientView × ClientPc :=
  if c.process.registryMapped = false then (c, .idle)
  else if c.shared.registry.generation = c.region.localGeneration then (c, .idle)
  else (c, .checkVersion c.shared.registry.generation)

/-- The wrappers are built over region `ver`, and the version is recorded. -/
def buildWrappers (c : ClientView) (ver : Nat) (env : OpEnv) : ClientView :=
  let geo := (c.shared.registry.epochOf ver).geometry
  { c with
    shared := c.shared.newPackedData ver geo.numDataEntries env.packedStruct
    region := { c.region with
      mapping := some ⟨ver, true⟩
      wrappers := some (.ofEpoch ver geo)
      lockArray := some ver
      localVersion := ver } }

/-- The load of `generation`, and the globals of a connect. -/
def takeGeneration (c : ClientView) (tid : Nat) (call : Attaching) (ver : Nat) : ClientView :=
  let c := { c with region := { c.region with localGeneration := c.shared.registry.generation } }
  match call with
  | .connect => { c with process := { c.process with
      remote := some ⟨.ofEpoch ver (c.shared.registry.epochOf ver).geometry, tid, true⟩ } }
  | .remap => c

/-- The next access of thread `tid`. -/
def advance (c : ClientView) (tid : Nat) (env : OpEnv) : ClientPc → ClientView × ClientPc
  | .idle => (c, .idle)
  | .checkReady =>
      if c.shared.registry.magic = kNumaMetaMagic ∧ c.shared.registry.ready = true then (c, .loadVersion .connect)
      else (c.unmapRegistry, .idle)
  | .loadVersion .connect => (c, .loadPublished .connect c.shared.registry.currentVersion)
  | .loadVersion .remap =>
      if c.process.registryMapped = false then (c, .idle)
      else (c, .loadPublished .remap c.shared.registry.currentVersion)
  -- the comment in the source says to wait here; the code gives up
  | .loadPublished .connect ver =>
      if (c.shared.registry.epochOf ver).published = false then (c.unmapRegistry, .idle) else (c, .claimSlot ver)
  | .loadPublished .remap ver =>
      if (c.shared.registry.epochOf ver).published = false then (c, .idle)
      else (c.unmapOld tid, .openRegion .remap ver)
  | .claimSlot ver =>
      match c.shared.registry.freeClientSlot with
      -- a full table is no error: the client goes on without a slot
      | none => (c, .openRegion .connect ver)
      | some i =>
          ({ c with
            shared := c.shared.withRegistry { c.shared.registry with
              clients := Function.update c.shared.registry.clients i
                { c.shared.registry.clients i with active := true } }
            region := { c.region with clientSlot := some i } }, .countClient ver)
  | .countClient ver =>
      ({ c with shared := c.shared.withRegistry { c.shared.registry with
          registeredClients := c.shared.registry.registeredClients + 1 } }, .openRegion .connect ver)
  | .openRegion .connect ver =>
      if c.shared.openRegion ver env.opensRegion = false then (c.unmapRegistry, .idle)
      else (c.buildWrappers ver env, .loadGeneration .connect ver)
  -- the old region is unmapped already, so a remap that fails here leaves the thread without one
  | .openRegion .remap ver =>
      if c.shared.openRegion ver env.opensRegion = false then (c, .idle)
      else (c.buildWrappers ver env, .loadGeneration .remap ver)
  | .loadGeneration call ver => (c.takeGeneration tid call ver, .acknowledge ver)
  -- connect and remap alike: nothing asks whether the client was counted
  | .acknowledge ver =>
      ({ c with shared := c.shared.withRegistry (c.shared.registry.acknowledge ver) }, .heartbeat)
  | .heartbeat =>
      ({ c with shared := c.shared.withRegistry (c.shared.registry.heartbeat c.region.clientSlot env.now) }, .idle)
  | .checkVersion gen =>
      if c.shared.registry.currentVersion ≠ c.region.localVersion then (c, .loadVersion .remap)
      else ({ c with region := { c.region with localGeneration := gen } }, .heartbeat)

end ClientView

/-! ## The world -/

/-- A client thread, with what it does next. -/
structure FineThread where
  proc : Nat
  region : ClientRegionState
  pc : ClientPc

structure FineWorld where
  server : Server
  /-- the stores that the orchestrator's tick has still to make -/
  prog : List OrchStore
  procs : Nat → ClientProcess
  threads : Nat → FineThread
  /-- `current_version` has been stored and `generation` not yet incremented -/
  unsignalled : Bool
  /-- the slots of the clients that `registered_clients` counts -/
  registered : Finset Nat
  /-- those that were registered when the current version was published and have not acknowledged it -/
  owed : Finset Nat

namespace FineWorld

def registry (w : FineWorld) : SharedNumaRegistry := w.server.registry

/-- What thread `tid` can reach. -/
def view (w : FineWorld) (tid : Nat) : ClientView :=
  ⟨w.server.shared, w.procs (w.threads tid).proc, (w.threads tid).region⟩

/-- The world after thread `tid` left its view as `c` and goes on at `pc`. -/
def putView (w : FineWorld) (tid : Nat) (c : ClientView) (pc : ClientPc) : FineWorld :=
  { w with
    server := { w.server with shared := c.shared }
    procs := Function.update w.procs (w.threads tid).proc c.process
    threads := Function.update w.threads tid { w.threads tid with region := c.region, pc := pc } }

section PutView

variable (w : FineWorld) (tid : Nat) (c : ClientView) (pc : ClientPc)

@[simp] theorem putView_threads_self :
    (w.putView tid c pc).threads tid = ⟨(w.threads tid).proc, c.region, pc⟩ := Function.update_self ..

theorem putView_threads_of_ne {t : Nat} (h : t ≠ tid) : (w.putView tid c pc).threads t = w.threads t :=
  Function.update_of_ne h ..

end PutView

/-- The slots that `registered_clients` counts after the thread's next access. -/
def registeredAfter (w : FineWorld) (tid : Nat) : Finset Nat :=
  match (w.threads tid).pc, (w.threads tid).region.clientSlot with
  | .countClient _, some i => insert i w.registered
  | _, _ => w.registered

/-- The clients still owed after it. -/
def owedAfter (w : FineWorld) (tid : Nat) : Finset Nat :=
  match (w.threads tid).pc, (w.threads tid).region.clientSlot with
  | .acknowledge ver, some i => if ver = w.registry.currentVersion then w.owed.erase i else w.owed
  | _, _ => w.owed

/-- Thread `tid` makes its next access. -/
def advance (w : FineWorld) (tid : Nat) (env : OpEnv) : FineWorld :=
  let r := (w.view tid).advance tid env (w.threads tid).pc
  { w.putView tid r.1 r.2 with registered := w.registeredAfter tid, owed := w.owedAfter tid }

/-- The world after the orchestrator's store `st`, which left the server as `s` and `prog` to do. -/
def stored (w : FineWorld) (st : OrchStore) (prog : List OrchStore) (s : Server) : FineWorld :=
  { w with
    server := s
    prog := prog
    unsignalled := match st with
      | .currentVersion _ => true
      | .generation => false
      | _ => w.unsignalled
    owed := match st with
      | .currentVersion _ => w.registered
      | _ => w.owed }

/-- The orchestrator makes its next store. -/
def store (H : HashFn) (w : FineWorld) : Exec FineWorld :=
  match w.prog with
  | [] => .ok w
  | st :: prog => do return w.stored st prog (← w.server.exec H st)

end FineWorld

inductive FineStep where
  /-- the orchestrator begins a tick -/
  | tick (inp : TickInput)
  /-- and makes its next store -/
  | store
  /-- a thread calls `connect_to_numa_server` -/
  | connect (tid : Nat) (env : OpEnv)
  /-- a data operation begins, with `maybe_check_version` -/
  | check (tid : Nat)
  /-- the thread goes on -/
  | advance (tid : Nat) (env : OpEnv)
  /-- and the operation itself -/
  | operate (tid : Nat) (op : ClientOp)

/-- One step. A call is made by a thread that is in none, and a tick begins when the last one is over. -/
def FineWorld.step (H : HashFn) (w : FineWorld) : FineStep → Exec FineWorld
  | .tick inp => .ok (if w.prog.isEmpty then { w with prog := w.server.tickStores inp } else w)
  | .store => w.store H
  | .connect tid env =>
      if (w.threads tid).pc = .idle then
        let r := (w.view tid).startConnect env
        .ok (w.putView tid r.1 r.2)
      else .ok w
  | .check tid =>
      if (w.threads tid).pc = .idle then
        let r := (w.view tid).startCheck
        .ok (w.putView tid r.1 r.2)
      else .ok w
  | .advance tid env => .ok (w.advance tid env)
  | .operate tid op =>
      if (w.threads tid).pc = .idle then do
        let c ← (w.view tid).operate H op
        return w.putView tid c .idle
      else .ok w

/-- A server with processes and threads that have not connected yet. -/
def Server.fineWorld (s : Server) (lookup : Nat → DataPlaneLudo) (proc lane : Nat → Nat) : FineWorld where
  server := s
  prog := []
  procs := fun p => .init (lookup p)
  threads := fun tid => ⟨proc tid, .init (lane tid), .idle⟩
  unsignalled := false
  registered := ∅
  owed := ∅

/-- Client processes of one thread each over the server of key 7. -/
def sevenFineWorld : FineWorld := sevenServer.fineWorld (fun _ => (rowStore 423 0 [7]).lookup) id (fun _ => 0)

/-- Everything can be opened. -/
def calmEnv : OpEnv := ⟨true, true, .zero, 1⟩

end Outback
