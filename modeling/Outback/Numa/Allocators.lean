import Outback.Numa.System
import Outback.Lib.Stride

/-!
# `Numa.Allocators` — the two allocators of a packed array

The entries of a packed array are handed out in two ways: `alloc_remote_data_slot` gives a client the counter of its
lane, `bulk_load_data` gives the server process the counter of the `PackedData` it goes through. `AllocWorld` is the
system together with what its lanes have handed out.
-/

namespace Outback

/-- The indices that `alloc_remote_data_slot` returned between two states of the registry: the counters that moved, where
    they were below the entries of the epoch. -/
def SharedNumaRegistry.handedOut (reg reg' : SharedNumaRegistry) : List Nat :=
  ((List.range reg.lanes.lanes).filter fun lane =>
      reg'.lanes.laneNextFreeIndex lane ≠ reg.lanes.laneNextFreeIndex lane ∧
        reg.lanes.laneNextFreeIndex lane < reg.currentEpoch.geometry.numDataEntries).map reg.lanes.laneNextFreeIndex

/-- A lane can still hand out index `i` for the region of version `ver`. -/
def SharedNumaRegistry.CanIssue (reg : SharedNumaRegistry) (ver i : Nat) : Prop :=
  reg.currentVersion = ver ∧ i < reg.currentEpoch.geometry.numDataEntries ∧
    ∃ lane, lane < reg.lanes.lanes ∧ ∃ j, i = reg.lanes.laneNextFreeIndex lane + j * reg.lanes.lanes

/-- An occupied slot of the first `rows` rows holds the address `i`. -/
def Region.Holds (rg : Region) (rows i : Nat) : Prop :=
  ∃ r, r < rows ∧ ∃ t, occ ((rg.buckets r).slots t) = true ∧ addrOf ((rg.buckets r).slots t) = i

/-- `ludo_buckets` and `packed_data` as a pair of views, like the orchestrator's. -/
def NumaSystem.handlerViews (w : NumaSystem) : ReplayWrappers :=
  ⟨w.server.packedData.ver, w.server.ludoBuckets.numElements, w.server.packedData.numElements, w.server.packedData.num⟩

/-- `bulk_load_data` was called through the views `r`: nothing else moves the counter of a `PackedData`. -/
def NumaSystem.BulkLoads (w w' : NumaSystem) (r : ReplayWrappers) : Prop :=
  (w.handlerViews = r ∧ w'.handlerViews.num = r.num + 1) ∨
  (w.server.orch.newWrappers = some r ∧
    ∃ r', w'.server.orch.newWrappers = some r' ∧ r'.ver = r.ver ∧ r'.num = r.num + 1)

/-- What that call returned. -/
def ReplayWrappers.loadedIndex (r : ReplayWrappers) : Nat := (BitVec.ofNat 32 r.num).toNat

structure AllocWorld where
  system : NumaSystem
  /-- the version whose epoch an index was compared with, and the index -/
  granted : List (Nat × Nat)
  /-- the lane counters that the version of `packed_data` was left with -/
  retired : Nat → Nat

namespace AllocWorld

def registry (w : AllocWorld) : SharedNumaRegistry := w.system.registry

def region (w : AllocWorld) (ver : Nat) : Region := w.system.server.orch.shared.regions ver

def step (H : HashFn) (w : AllocWorld) (a : SystemStep) : Exec AllocWorld := do
  let system ← w.system.step H a
  return {
    system := system
    granted := match a with
      | .client _ _ _ => w.granted ++ (w.registry.handedOut system.registry).map fun i => (w.registry.currentVersion, i)
      | _ => w.granted
    retired := if w.registry.currentVersion = w.system.server.packedData.ver then w.registry.lanes.laneNextFreeIndex
      else w.retired }

/-- Puts of clients and handlers, resizes and replays; a client connects first. -/
def PutsOnly (_ : AllocWorld) : SystemStep → Prop
  | .connect _ _ => True
  | .client _ _ (.write (.put _ _ _)) => True
  | .client _ _ _ => False
  | .call (.put _ _ _ _) => True
  | .call _ => False
  | .tick _ => True
  | .replay => True

instance (w : AllocWorld) (a : SystemStep) : Decidable (w.PutsOnly a) := by
  unfold PutsOnly
  split <;> infer_instance

/-- The index returned through `r` is in nobody's use: no occupied slot of the region holds it, and no lane has issued
    it for the region or can still issue it. -/
structure Fresh (w : AllocWorld) (r : ReplayWrappers) : Prop where
  notHeld : ¬ (w.region r.ver).Holds r.numBuckets r.loadedIndex
  notIssued : (r.ver, r.loadedIndex) ∉ w.granted
  notIssuable : ¬ w.registry.CanIssue r.ver r.loadedIndex

end AllocWorld

/-- The system when its lanes have handed out nothing. -/
def NumaSystem.allocWorld (w : NumaSystem) : AllocWorld := ⟨w, [], w.registry.lanes.laneNextFreeIndex⟩

end Outback
