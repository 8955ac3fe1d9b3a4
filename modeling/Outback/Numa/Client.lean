import Outback.Numa.Registry

/-!
# `Numa.Client` — attaching, remapping and the data operations of a client (`outback/outback_client_numa.hh`)

A client process has one `ludo_lookup_unit`, a mapped registry and the globals `remote_*`; each of its threads has
its own `t_region`. `connectToNumaServer` is the cross-process path. `remapToCurrentEpoch` is what every data
operation does first when `generation` has moved to another version, through `maybeCheckVersion`.

The outcome of a `shm_open`, the indeterminate local of the `PackedData` constructor and the clock are inputs
(`OpEnv`). A thread's `remap` deletes the wrappers it owns, also those the globals of its process alias.
-/

namespace Outback

/-- The pair of typed views a thread holds over the region of a version. -/
structure Wrappers where
  ver : Nat
  numBuckets : Nat
  numDataEntries : Nat
  deriving DecidableEq, Repr

/-- A region mapped through `t_region`; after `munmap` the pointer and the descriptor stay set. -/
structure Mapping where
  ver : Nat
  live : Bool
  deriving DecidableEq, Repr

/-- `t_region`, and the thread's `remote_lane_id`. -/
structure ClientRegionState where
  localVersion : Nat
  localGeneration : Nat
  mapping : Option Mapping
  wrappers : Option Wrappers
  /-- the version whose lock array `lock_array` points into -/
  lockArray : Option Nat
  clientSlot : Option Nat
  remoteLaneId : Nat

/-- A thread's `t_region` before it has attached. -/
def ClientRegionState.init (remoteLaneId : Nat) : ClientRegionState := ⟨0, 0, none, none, none, none, remoteLaneId⟩

/-- The globals `remote_ludo_buckets`, `remote_packed_data` and `remote_lock_array`: they alias the wrappers of the
    thread that connected, until that thread deletes them. -/
structure Remote where
  wrappers : Wrappers
  owner : Nat
  live : Bool

/-- A client process. -/
structure ClientProcess where
  /-- `ludo_lookup_unit` -/
  lookup : DataPlaneLudo
  /-- `remote_registry` is not null -/
  registryMapped : Bool
  remote : Option Remote

/-- A process that has built its lookup unit and not yet connected. -/
def ClientProcess.init (lookup : DataPlaneLudo) : ClientProcess := ⟨lookup, false, none⟩

/-- What one call gets from outside: whether the `shm_open`s it makes succeed, the constructor's local, the clock. -/
structure OpEnv where
  opensRegistry : Bool
  opensRegion : Bool
  packedStruct : PackedStruct
  now : U64

/-- One thread and what it can reach. -/
structure ClientView where
  shared : Shared
  process : ClientProcess
  region : ClientRegionState

/-- `open_shared_numa_region`. -/
def Shared.openRegion (sh : Shared) (ver : Nat) (opens : Bool) : Bool := sh.linked ver && opens

/-- The wrappers that are built over the current epoch. -/
def Wrappers.ofEpoch (ver : Nat) (geo : Geometry) : Wrappers := ⟨ver, geo.numBuckets, geo.numDataEntries⟩

/-! ## Attaching -/

/-- The common end of `connect_to_numa_server` and `remap_to_current_epoch`: build the wrappers over region `ver`,
    record the version, acknowledge and beat. -/
def ClientView.attach (c : ClientView) (ver : Nat) (env : OpEnv) : ClientView :=
  let geo := (c.shared.registry.epochOf ver).geometry
  let sh := c.shared.newPackedData ver geo.numDataEntries env.packedStruct
  { c with
    shared := sh.withRegistry ((sh.registry.acknowledge ver).heartbeat c.region.clientSlot env.now)
    region := { c.region with
      mapping := some ⟨ver, true⟩
      wrappers := some (.ofEpoch ver geo)
      lockArray := some ver
      localVersion := ver
      localGeneration := c.shared.registry.generation } }

/-- Unmapping in `remap_to_current_epoch`: the thread's wrappers are deleted. -/
def ClientView.unmapOld (c : ClientView) (tid : Nat) : ClientView :=
  match c.region.mapping with
  | none => c
  | some m => { c with
      process := { c.process with
        remote := c.process.remote.map fun r => if r.owner = tid then { r with live := false } else r }
      region := { c.region with mapping := some { m with live := false }, wrappers := none } }

/-- The call builds its wrappers over the current epoch: it is published and its region opens. -/
def Shared.RemapOpens (sh : Shared) (env : OpEnv) : Prop :=
  sh.registry.currentEpoch.published = true ∧ sh.openRegion sh.registry.currentVersion env.opensRegion = true

instance (sh : Shared) (env : OpEnv) : Decidable (sh.RemapOpens env) := inferInstanceAs (Decidable (_ ∧ _))

/-- `remap_to_current_epoch` of thread `tid`. -/
def ClientView.remapToCurrentEpoch (c : ClientView) (tid : Nat) (env : OpEnv) : Bool × ClientView :=
  let newVer := c.shared.registry.currentVersion
  if c.process.registryMapped = false then (false, c)
  else if c.shared.registry.currentEpoch.published = false then (false, c)
  else
    let c := c.unmapOld tid
    if c.shared.openRegion newVer env.opensRegion = false then (false, c)
    else (true, c.attach newVer env)

/-- `maybe_check_version`. -/
def ClientView.maybeCheckVersion (c : ClientView) (tid : Nat) (env : OpEnv) : ClientView :=
  let reg := c.shared.registry
  if c.process.registryMapped = false then c
  else if reg.generation = c.region.localGeneration then c
  else if reg.currentVersion ≠ c.region.localVersion then (c.remapToCurrentEpoch tid env).2
  else { c with
    shared := c.shared.withRegistry (reg.heartbeat c.region.clientSlot env.now)
    region := { c.region with localGeneration := reg.generation } }

/-- The registry that `connect_to_numa_server` opens is one it can use. -/
def Shared.RegistryReady (sh : Shared) : Prop :=
  sh.registry.magic = kNumaMetaMagic ∧ sh.registry.ready = true ∧ sh.registry.currentEpoch.published = true

instance (sh : Shared) : Decidable sh.RegistryReady := inferInstanceAs (Decidable (_ ∧ _ ∧ _))

/-- The cross-process path of `connect_to_numa_server`, run by thread `tid`. A client slot that was taken is not
    given back when the region does not open. -/
def ClientView.connectToNumaServer (c : ClientView) (tid : Nat) (env : OpEnv) : Bool × ClientView :=
  if env.opensRegistry = false then (false, c)
  else if ¬ c.shared.RegistryReady then
    (false, { c with process := { c.process with registryMapped := false } })
  else
    let ver := c.shared.registry.currentVersion
    let slot := c.shared.registry.freeClientSlot
    let c : ClientView := { c with
      shared := c.shared.withRegistry c.shared.registry.registerClient
      region := { c.region with clientSlot := slot.or c.region.clientSlot } }
    if c.shared.openRegion ver env.opensRegion = false then
      (false, { c with process := { c.process with registryMapped := false } })
    else
      let geo := (c.shared.registry.epochOf ver).geometry
      let c := c.attach ver env
      (true, { c with
        process := { c.process with registryMapped := true, remote := some ⟨.ofEpoch ver geo, tid, true⟩ } })

/-! ## The data operations -/

/-- `t_region.x ? t_region.x : remote_x` for the two wrappers. -/
def ClientView.selectWrappers (c : ClientView) : Exec (Option Wrappers) :=
  match c.region.wrappers with
  | some w => .ok (some w)
  | none =>
      match c.process.remote with
      | none => .ok none
      | some r => if r.live then .ok (some r.wrappers) else .error .danglingPointer

/-- The same for the lock array, which a writing operation touches. -/
def ClientView.selectLock (c : ClientView) : Exec Bool :=
  match c.region.lockArray with
  | some _ => if c.region.mapping.any (·.live) then .ok true else .error .danglingPointer
  | none =>
      match c.process.remote with
      | none => .ok false
      | some r => if r.live then .ok true else .error .danglingPointer

/-- The store an operation sees through its wrappers. Without a registry `alloc_remote_data_slot` finds no entry. -/
def ClientView.store (c : ClientView) (w : Wrappers) : Store where
  lookup := c.process.lookup
  buckets := ⟨(c.shared.regions w.ver).buckets, w.numBuckets⟩
  packed := ⟨(c.shared.regions w.ver).packed, 0, w.numDataEntries⟩
  lanes := c.shared.registry.lanes
  numDataEntries :=
    if c.process.registryMapped then c.shared.registry.currentEpoch.geometry.numDataEntries else 0

/-- The operation's writes, back in shared memory and in the process. -/
def ClientView.commit (c : ClientView) (w : Wrappers) (st : Store) : ClientView :=
  { c with
    shared := (c.shared.setRegion w.ver ⟨st.packed.rawArray, st.buckets.bucketsArray⟩).withRegistry
      { c.shared.registry with lanes := if c.process.registryMapped then st.lanes else c.shared.registry.lanes }
    process := { c.process with lookup := st.lookup } }

inductive ClientOp where
  | search (key : U64)
  | write (op : NumaOp)

/-- A put allocates from the calling thread's lane. -/
def NumaOp.onLane (op : NumaOp) (laneId : Nat) : NumaOp :=
  match op with
  | .put _ key val => .put laneId key val
  | op => op

/-- A data operation behind its version check. -/
def ClientView.operate (H : HashFn) (c : ClientView) : ClientOp → Exec ClientView
  | .search key => do
      match ← c.selectWrappers with
      | none => return c
      | some w =>
          let _ ← (c.store w).numaSearch H key
          return c
  | .write op => do
      match ← c.selectWrappers with
      | none => return c
      | some w =>
          if ← c.selectLock then
            let st ← (c.store w).step H (op.onLane c.region.remoteLaneId)
            return c.commit w st
          else return c

/-- `numa_search` of a client thread: the answer, and what the version check left. -/
def ClientView.numaSearch (H : HashFn) (c : ClientView) (tid : Nat) (env : OpEnv) (key : U64) :
    Exec (ClientView × Option U64) := do
  let c := c.maybeCheckVersion tid env
  match ← c.selectWrappers with
  | none => return (c, none)
  | some w =>
      let v ← (c.store w).numaSearch H key
      return (c, v)

/-- `numa_put`, `numa_update` and `numa_remove` of a client thread. -/
def ClientView.numaWrite (H : HashFn) (c : ClientView) (tid : Nat) (env : OpEnv) (op : NumaOp) :
    Exec ClientView := do
  let c := c.maybeCheckVersion tid env
  match ← c.selectWrappers with
  | none => return c
  | some w =>
      if ← c.selectLock then
        let st ← (c.store w).step H (op.onLane c.region.remoteLaneId)
        return c.commit w st
      else return c

/-- One data operation of a client thread. -/
def ClientView.step (H : HashFn) (c : ClientView) (tid : Nat) (env : OpEnv) : ClientOp → Exec ClientView
  | .search key => (c.numaSearch H tid env key).map Prod.fst
  | .write op => c.numaWrite H tid env op

end Outback
