import Outback.Numa.Store

/-!
# `Numa.Registry` — the shared registry and the versioned regions (`xcomm/src/transport/numa_transport.hh`)

Everything in shared memory: the registry with its epoch table, client table and allocation lanes, and one data
region per version. A region is its packed array and its bucket array; the three offsets of an epoch say where
they lie and `do_copy` computes with them. The lock bytes are not state here: an operation that takes one gives
it back within its step.

`size_t` and the version and generation counters are natural numbers. The acknowledgement counter is a
`uint64_t` that is decremented without a check, so it is a machine word, and so are the times.
-/

namespace Outback

/-- `kMaxEpochSlots`. -/
def kMaxEpochSlots : Nat := 16

/-- `kMaxClients`. -/
def kMaxClients : Nat := 256

/-- `kNumaMetaMagic`. -/
def kNumaMetaMagic : U64 := 0x4F55544241434B4E

/-- `align_up` for a power of two. -/
def alignUp (value alignment : Nat) : Nat := (value + alignment - 1) / alignment * alignment

/-- Rounding up adds less than the alignment. -/
theorem alignUp_lt (v : Nat) {a : Nat} (h : 0 < a) : alignUp v a < v + a := by
  unfold alignUp
  have := Nat.div_mul_le_self (v + a - 1) a
  omega

theorem le_alignUp (v : Nat) {a : Nat} (h : 0 < a) : v ≤ alignUp v a := by
  unfold alignUp
  have := Nat.div_add_mod (v + a - 1) a
  have := Nat.mod_lt (v + a - 1) h
  rw [Nat.mul_comm]
  omega

theorem alignUp_mod (v a : Nat) : alignUp v a % a = 0 := Nat.mul_mod_left _ _

/-- `sizeof(LudoBucket)`: four words. -/
def sizeofLudoBucket : Nat := 32

inductive ResizeState where
  | normal
  | preResize
  | copying
  | readyToSwitch
  | drainOld
  | gcPending
  deriving DecidableEq, Repr

/-! ## The layout of a region -/

/-- The geometry of a region: what an epoch says about where things lie. -/
structure Geometry where
  regionSize : Nat
  numBuckets : Nat
  numDataEntries : Nat
  packedArrayOffset : Nat
  ludoBucketsOffset : Nat
  lockArrayOffset : Nat
  deriving DecidableEq, Repr

/-- The layout both `setup_ludo_table` and `do_copy` compute. -/
def Geometry.layout (numDataEntries numBuckets bucketSizeEach : Nat) : Geometry :=
  let packedOff := alignUp 0 64
  let ludoOff := alignUp (packedOff + numDataEntries * sizeofPackedStruct) 64
  let lockOff := alignUp (ludoOff + numBuckets * bucketSizeEach) 64
  { regionSize := alignUp (lockOff + numBuckets) 4096
    numBuckets := numBuckets
    numDataEntries := numDataEntries
    packedArrayOffset := packedOff
    ludoBucketsOffset := ludoOff
    lockArrayOffset := lockOff }

/-! ## The registry -/

structure ResizeEpoch where
  version : Nat
  geometry : Geometry
  clientsPendingAck : U64
  activeReaders : Nat
  activeWriters : Nat
  published : Bool
  cleanupAllowed : Bool

structure ClientLiveness where
  lastHeartbeatNs : U64
  lastSeenGeneration : Nat
  active : Bool

structure SharedNumaRegistry where
  magic : U64
  ready : Bool
  resizeState : ResizeState
  currentVersion : Nat
  previousVersion : Nat
  generation : Nat
  sSlow : Nat
  sStop : Nat
  registeredClients : U64
  epoch : Nat → ResizeEpoch
  clients : Nat → ClientLiveness
  lanes : Lanes

namespace SharedNumaRegistry

/-- `epoch[version % kMaxEpochSlots]`. -/
def epochOf (reg : SharedNumaRegistry) (version : Nat) : ResizeEpoch := reg.epoch (version % kMaxEpochSlots)

/-- `current_epoch`. -/
def currentEpoch (reg : SharedNumaRegistry) : ResizeEpoch := reg.epochOf reg.currentVersion

def setEpoch (reg : SharedNumaRegistry) (version : Nat) (ep : ResizeEpoch) : SharedNumaRegistry :=
  { reg with epoch := Function.update reg.epoch (version % kMaxEpochSlots) ep }

/-- `epoch[version % kMaxEpochSlots].clients_pending_ack.fetch_sub(1)`. -/
def acknowledge (reg : SharedNumaRegistry) (version : Nat) : SharedNumaRegistry :=
  reg.setEpoch version
    { reg.epochOf version with clientsPendingAck := (reg.epochOf version).clientsPendingAck - 1 }

/-- `client_heartbeat` of a client with a slot. -/
def heartbeat (reg : SharedNumaRegistry) (clientSlot : Option Nat) (now : U64) : SharedNumaRegistry :=
  match clientSlot with
  | none => reg
  | some i => { reg with
      clients := Function.update reg.clients i
        { reg.clients i with lastHeartbeatNs := now, lastSeenGeneration := reg.generation } }

/-- The first free slot of the client table. -/
def freeClientSlot (reg : SharedNumaRegistry) : Option Nat :=
  (List.range kMaxClients).find? (fun i => !(reg.clients i).active)

/-- The registration loop of `connect_to_numa_server`: the first free slot becomes the client's. -/
def registerClient (reg : SharedNumaRegistry) : SharedNumaRegistry :=
  match reg.freeClientSlot with
  | none => reg
  | some i => { reg with
      clients := Function.update reg.clients i { reg.clients i with active := true }
      registeredClients := reg.registeredClients + 1 }

@[simp] theorem setEpoch_self (reg : SharedNumaRegistry) (version : Nat) (ep : ResizeEpoch) :
    (reg.setEpoch version ep).epochOf version = ep := by
  simp [setEpoch, epochOf]

theorem setEpoch_of_ne (reg : SharedNumaRegistry) {version version' : Nat} (ep : ResizeEpoch)
    (h : version' % kMaxEpochSlots ≠ version % kMaxEpochSlots) :
    (reg.setEpoch version ep).epochOf version' = reg.epochOf version' := by
  simp [setEpoch, epochOf, h]

/-- Versions in the same place of the table share an epoch. -/
theorem epochOf_congr (reg : SharedNumaRegistry) {version version' : Nat}
    (h : version' % kMaxEpochSlots = version % kMaxEpochSlots) : reg.epochOf version' = reg.epochOf version := by
  unfold epochOf
  rw [h]

/-- Acknowledging changes no geometry and no publication flag. -/
theorem acknowledge_epoch (reg : SharedNumaRegistry) (version version' : Nat) :
    ((reg.acknowledge version).epochOf version').geometry = (reg.epochOf version').geometry ∧
    ((reg.acknowledge version).epochOf version').published = (reg.epochOf version').published := by
  unfold acknowledge
  by_cases h : version' % kMaxEpochSlots = version % kMaxEpochSlots
  · rw [epochOf_congr _ h, epochOf_congr _ h, setEpoch_self]
    exact ⟨rfl, rfl⟩
  · rw [setEpoch_of_ne _ _ h]
    exact ⟨rfl, rfl⟩

/-! ## What clients leave of it -/

/-- The part of the registry that a data operation or a remap reads: two registries that agree on it are
    indistinguishable to the data path. -/
structure SameData (reg reg' : SharedNumaRegistry) : Prop where
  currentVersion : reg'.currentVersion = reg.currentVersion
  generation : reg'.generation = reg.generation
  lanes : reg'.lanes = reg.lanes
  geometry : ∀ v, (reg'.epochOf v).geometry = (reg.epochOf v).geometry
  published : ∀ v, (reg'.epochOf v).published = (reg.epochOf v).published

theorem SameData.refl (reg : SharedNumaRegistry) : SameData reg reg :=
  ⟨rfl, rfl, rfl, fun _ => rfl, fun _ => rfl⟩

theorem SameData.trans {r₁ r₂ r₃ : SharedNumaRegistry} (h : SameData r₁ r₂) (h' : SameData r₂ r₃) :
    SameData r₁ r₃ :=
  ⟨h'.currentVersion.trans h.currentVersion, h'.generation.trans h.generation, h'.lanes.trans h.lanes,
    fun v => (h'.geometry v).trans (h.geometry v), fun v => (h'.published v).trans (h.published v)⟩

/-- Both sides may change what the data path does not read. -/
theorem SameData.both {r r' s s' : SharedNumaRegistry} (h : SameData r r') (h₁ : SameData r s)
    (h₂ : SameData r' s') : SameData s s' :=
  ⟨by rw [h₂.currentVersion, h.currentVersion, h₁.currentVersion],
    by rw [h₂.generation, h.generation, h₁.generation], by rw [h₂.lanes, h.lanes, h₁.lanes],
    fun v => by rw [h₂.geometry, h.geometry, h₁.geometry], fun v => by rw [h₂.published, h.published, h₁.published]⟩

theorem sameData_acknowledge (reg : SharedNumaRegistry) (version : Nat) : SameData reg (reg.acknowledge version) :=
  ⟨rfl, rfl, rfl, fun v => (acknowledge_epoch reg version v).1, fun v => (acknowledge_epoch reg version v).2⟩

theorem sameData_heartbeat (reg : SharedNumaRegistry) (slot : Option Nat) (now : U64) :
    SameData reg (reg.heartbeat slot now) := by
  cases slot with
  | none => exact .refl reg
  | some i => exact ⟨rfl, rfl, rfl, fun _ => rfl, fun _ => rfl⟩

theorem sameData_registerClient (reg : SharedNumaRegistry) : SameData reg reg.registerClient := by
  unfold registerClient
  split
  · exact .refl reg
  · exact ⟨rfl, rfl, rfl, fun _ => rfl, fun _ => rfl⟩

end SharedNumaRegistry

/-! ## Regions -/

def LudoBucket.zero : LudoBucket := ⟨fun _ => 0⟩

/-- The memory of a versioned region, from its packed and its bucket offset on. -/
structure Region where
  packed : Nat → PackedStruct
  buckets : Nat → LudoBucket

/-- What `create_shared_numa_region` leaves (`ftruncate` and `memset`). -/
def Region.zero : Region := ⟨fun _ => .zero, fun _ => .zero⟩

/-- Shared memory: the registry, the region behind each version, and which region names are linked. -/
structure Shared where
  registry : SharedNumaRegistry
  regions : Nat → Region
  linked : Nat → Bool

namespace Shared

def setRegion (sh : Shared) (ver : Nat) (r : Region) : Shared :=
  { sh with regions := Function.update sh.regions ver r }

def withRegistry (sh : Shared) (reg : SharedNumaRegistry) : Shared := { sh with registry := reg }

/-- `new packed_data_t(base + packed_array_offset, numDataEntries)` over region `ver`: the constructor writes
    its local over every entry. `new ludo_buckets_t(mem, n)` writes nothing and has no counterpart here. -/
def newPackedData (sh : Shared) (ver numDataEntries : Nat) (packedStruct : PackedStruct) : Shared :=
  sh.setRegion ver { sh.regions ver with
    packed := (PackedData.ofRegMem (sh.regions ver).packed numDataEntries packedStruct).rawArray }

@[simp] theorem setRegion_self (sh : Shared) (ver : Nat) (r : Region) : (sh.setRegion ver r).regions ver = r := by
  simp [setRegion]

theorem setRegion_of_ne (sh : Shared) {ver v : Nat} (r : Region) (h : v ≠ ver) :
    (sh.setRegion ver r).regions v = sh.regions v := by
  simp [setRegion, h]

theorem newPackedData_packed (sh : Shared) (ver n : Nat) (g : PackedStruct) (i : Nat) :
    ((sh.newPackedData ver n g).regions ver).packed i = if i < n then g else (sh.regions ver).packed i := by
  unfold newPackedData
  rw [setRegion_self]
  rfl

theorem newPackedData_buckets (sh : Shared) (ver n : Nat) (g : PackedStruct) (v : Nat) :
    ((sh.newPackedData ver n g).regions v).buckets = (sh.regions v).buckets := by
  unfold newPackedData
  by_cases h : v = ver
  · subst h; rw [setRegion_self]
  · rw [setRegion_of_ne _ _ h]

/-- The constructor leaves the region alone exactly when every entry already has the local's value. -/
theorem newPackedData_regions_iff (sh : Shared) (ver n : Nat) (g : PackedStruct) :
    (sh.newPackedData ver n g).regions = sh.regions ↔ ∀ i, i < n → (sh.regions ver).packed i = g := by
  constructor
  · intro h i hi
    rw [← h, newPackedData_packed, if_pos hi]
  · intro h
    have hp : (PackedData.ofRegMem (sh.regions ver).packed n g).rawArray = (sh.regions ver).packed := by
      funext i
      simp only [PackedData.ofRegMem]
      split
      · rename_i hi; exact (h i hi).symm
      · rfl
    unfold newPackedData setRegion
    rw [hp]
    exact Function.update_eq_self ver sh.regions

end Shared

/-! ## What the server publishes -/

/-- An epoch slot of the zeroed registry. -/
def ResizeEpoch.zero : ResizeEpoch := ⟨0, ⟨0, 0, 0, 0, 0, 0⟩, 0, 0, 0, false, false⟩

/-- The shared memory that `setup_ludo_table` and `register_numa_server` publish for a store: version 1 of the region,
    epoch slot 1, the thresholds and the lanes. -/
def Store.publish (st : Store) (sSlow sStop : Nat) : Shared where
  registry :=
    { magic := kNumaMetaMagic
      ready := true
      resizeState := .normal
      currentVersion := 1
      previousVersion := 0
      generation := 0
      sSlow := sSlow
      sStop := sStop
      registeredClients := 0
      epoch := fun i => if i = 1 then
        { version := 1
          geometry := .layout st.packed.numElements st.buckets.numElements sizeofLudoBucket
          clientsPendingAck := 0
          activeReaders := 0
          activeWriters := 0
          published := true
          cleanupAllowed := false } else .zero
      clients := fun _ => ⟨0, 0, false⟩
      lanes := st.lanes }
  regions := fun v => if v = 1 then ⟨st.packed.rawArray, st.buckets.bucketsArray⟩ else .zero
  linked := fun v => v = 1

end Outback
