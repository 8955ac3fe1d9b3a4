import Outback.Numa.Resize

/-!
# `Numa.Shutdown` — the shared-memory names of a server run (`benchs/outback/server_numa.cc`)

A server creates the registry and one data region per version, each an object under a name of its own. `main` unlinks
what an earlier run may have left of the registry and of region 1, sets up the table, runs the orchestrator until it is
stopped, and calls `cleanup_numa_ipc`; a setup that fails or is interrupted goes there at once. `stop` joins the
orchestrator's thread, so the cleanup finds the registry between two ticks.

`ServerRun` is such a run, up to the cleanup: which names are linked, and as a ghost which of them the run itself
created, that is, which a `shm_open` with `O_CREAT` of the run returned a descriptor for.
-/

namespace Outback

/-! ## Names -/

def numaMetaName (serverName : String) : String := "/outback_numa_meta_" ++ serverName

/-- `numa_region_name(server_name, version = 0)`: version 0 is the legacy name. -/
def numaRegionName (serverName : String) (version : Nat) : String :=
  if version = 0 then "/outback_numa_region_" ++ serverName
  else "/outback_numa_region_" ++ serverName ++ "_v" ++ toString version

/-- The objects whose names the server forms. -/
inductive ShmObject where
  | registry
  | region (version : Nat)
  deriving DecidableEq

def ShmObject.name (serverName : String) : ShmObject → String
  | .registry => numaMetaName serverName
  | .region version => numaRegionName serverName version

/-! ## A run -/

/-- What interrupts or fails a setup. -/
structure SetupEnv where
  /-- a signal while the keys go into the control plane -/
  stopInKeys : Bool
  /-- `shm_open` of the registry -/
  metaOpens : Bool
  /-- its `ftruncate` and `mmap` -/
  metaMaps : Bool
  /-- the creation of region 1 -/
  region : CreateOutcome
  /-- a signal while the packed data is loaded -/
  stopInLoad : Bool

/-- The setup gets to the first data region, and `shm_open` returns a descriptor for it. -/
def SetupEnv.OpensRegion (env : SetupEnv) : Prop :=
  env.stopInKeys = false ∧ env.metaOpens = true ∧ env.metaMaps = true ∧ env.region ≠ .shmOpenFailed

structure ServerRun where
  serverName : String
  linked : ShmObject → Bool
  /-- ghost: created by this run -/
  created : ShmObject → Bool
  /-- the orchestrator's server, once it is started -/
  server : Option Server

namespace ServerRun

/-- `shm_unlink` -/
def shmUnlink (r : ServerRun) (name : String) : ServerRun :=
  { r with linked := fun o => r.linked o && decide (o.name r.serverName ≠ name) }

/-- A `shm_open` with `O_CREAT` that returned a descriptor. -/
def shmCreate (r : ServerRun) (o : ShmObject) : ServerRun where
  serverName := r.serverName
  linked := Function.update r.linked o true
  created := Function.update r.created o true
  server := r.server

/-- `setup_ludo_table` as far as shared memory goes, with its return value. -/
def setup (r : ServerRun) (env : SetupEnv) : Bool × ServerRun :=
  if env.stopInKeys then (false, r)
  else if ¬ env.metaOpens then (false, r)
  else
    let r := r.shmCreate .registry
    if ¬ env.metaMaps then (false, r)
    else
      match env.region with
      | .shmOpenFailed => (false, r)
      | .mapFailed => (false, r.shmCreate (.region 1))
      | .created => (!env.stopInLoad, r.shmCreate (.region 1))

/-- `main` up to the start of the orchestrator: `stale` is what earlier runs left linked, `server` the server that
    `register_numa_server` starts. -/
def main (serverName : String) (stale : ShmObject → Bool) (env : SetupEnv) (server : Server) : ServerRun :=
  let r : ServerRun := ⟨serverName, stale, fun _ => false, none⟩
  let r := r.shmUnlink (numaMetaName serverName)
  let r := r.shmUnlink (numaRegionName serverName 1)
  let s := r.setup env
  if s.1 then { s.2 with server := some server } else s.2

/-- The names that a step of the server side links and unlinks: those of the versions whose link it changed. -/
def follow (r : ServerRun) (s s' : Server) : ServerRun where
  serverName := r.serverName
  linked
    | .registry => r.linked .registry
    | .region v => if s'.shared.linked v = s.shared.linked v then r.linked (.region v) else s'.shared.linked v
  created
    | .registry => r.created .registry
    | .region v => r.created (.region v) || (s'.shared.linked v && !s.shared.linked v)
  server := some s'

/-- A tick of the orchestrator, or whatever clients do to the registry. -/
def step (H : HashFn) (r : ServerRun) (a : ServerStep) : Exec ServerRun :=
  match r.server with
  | none => .error .danglingPointer
  | some s => do
      let s' ← s.step H a
      return r.follow s s'

/-- `cleanup_numa_ipc`: the orchestrator is stopped, and two names are unlinked. -/
def cleanupNumaIpc (r : ServerRun) : ServerRun :=
  let r := { r with server := none }
  let r := r.shmUnlink (numaMetaName r.serverName)
  r.shmUnlink (numaRegionName r.serverName 0)

/-- Nothing that the run created is still linked. -/
def Clean (r : ServerRun) : Prop := ∀ o, r.created o = true → r.linked o = false

end ServerRun

end Outback
