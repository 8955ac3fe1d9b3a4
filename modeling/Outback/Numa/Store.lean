import Outback.PackedData
import Outback.Ludo.BulkLoad
import Outback.Lib.Reach

/-!
# `Numa.Store` — the NUMA data operations (`outback/outback_client_numa.hh`)

`numa_search`, `numa_put`, `numa_update` and `numa_remove` as one thread runs them: on the bucket array and the
packed array of the region its wrappers point into, on the process's `ludo_lookup_unit`, and on the lane
counters of the shared registry. `maybe_check_version` comes first in each of them and belongs to
`Numa.Client`; an operation here is what follows it. The row's lock byte is held from the first to the last
access of a writing operation, so each is one step.

`setupLudoTable` is the store the server publishes (`benchs/outback/server_numa.cc`).
-/

namespace Outback

/-- `kMaxNumaLanes`. -/
def kMaxNumaLanes : Nat := 64

/-- The allocation lanes of the shared registry. -/
structure Lanes where
  memThreads : Nat
  laneNextFreeIndex : Nat → Nat

namespace Lanes

/-- The number of lanes `alloc_remote_data_slot` uses. -/
def lanes (l : Lanes) : Nat := if l.memThreads = 0 then 1 else min l.memThreads kMaxNumaLanes

/-- `alloc_remote_data_slot`: the lane's counter advances also when the index is out of range.
    `numDataEntries` is that of the current epoch. -/
def allocRemoteDataSlot (l : Lanes) (remoteLaneId numDataEntries : Nat) : Option Nat × Lanes :=
  let lane := remoteLaneId % l.lanes
  let idx := l.laneNextFreeIndex lane
  (if idx ≥ numDataEntries then none else some idx,
    { l with laneNextFreeIndex := Function.update l.laneNextFreeIndex lane (idx + l.lanes) })

theorem lanes_pos (l : Lanes) : 0 < l.lanes := by
  unfold lanes kMaxNumaLanes
  split <;> omega

end Lanes

/-- What a data operation reads and writes. -/
structure Store where
  lookup : DataPlaneLudo
  buckets : LudoBuckets
  packed : PackedData
  lanes : Lanes
  /-- `num_data_entries` of the current epoch -/
  numDataEntries : Nat

/-- The makeup scan of `numa_search`: the other slots of the row, in order, except those that read as
    address `0`. -/
def LudoBucket.scanRow (b : LudoBucket) (pd : PackedData) (key : U64) (primary : Slot) :
    List Slot → Exec (Option U64)
  | [] => .ok none
  | s :: ss =>
      if s = primary then b.scanRow pd key primary ss
      else if addrOf (b.slots s) = 0 then b.scanRow pd key primary ss
      else do
        let e ← pd.entry (addrOf (b.slots s))
        if e.key = key then return some e.data
        b.scanRow pd key primary ss

namespace Store

variable (H : HashFn)

def numaSearch (st : Store) (key : U64) : Exec (Option U64) := do
  let b ← st.buckets.row (st.lookup.row H key)
  let slot := st.lookup.slot H key
  let e ← st.packed.entry (addrOf (b.slots slot))
  if e.key = key then return some e.data
  b.scanRow st.packed key slot (List.finRange 4)

/-- The body of the two inserting cases of `numa_put`: allocate, write the entry, write the slot word. -/
def insertAt (st : Store) (laneId : Nat) (key val : U64) (row : Nat) (slot : Slot) : Exec Store :=
  match st.lanes.allocRemoteDataSlot laneId st.numDataEntries with
  | (none, lanes) => .ok { st with lanes := lanes }
  | (some idx, lanes) => do
      let pd ← st.packed.updateData idx key 8 val
      return { st with
        packed := pd
        buckets := st.buckets.writeAddr H key row slot (BitVec.ofNat 64 idx)
        lanes := lanes }

def numaPut (st : Store) (laneId : Nat) (key val : U64) : Exec Store := do
  let row := st.lookup.row H key
  let b ← st.buckets.row row
  let slot := st.lookup.slot H key
  match b.checkSlots H key slot with
  | .good => st.insertAt H laneId key val row slot
  | .maybeUpdate =>
      let e ← st.packed.entry (addrOf (b.slots slot))
      if e.key = key then
        let pd ← st.packed.updateData (addrOf (b.slots slot)) key 64 val
        return { st with packed := pd }
      else return st
  | .emptyExists =>
      match (List.finRange 4).find? (fun s => b.checkSlots H key s = .good) with
      | some s => st.insertAt H laneId key val row s
      | none => return st
  | .full =>
      let pd ← st.packed.updateData (addrOf (b.slots slot)) key 64 val
      return { st with packed := pd, lookup := st.lookup.updateSeed row (st.lookup.seeds row + 1) }

def numaUpdate (st : Store) (key val : U64) : Exec Store := do
  let b ← st.buckets.row (st.lookup.row H key)
  let addr := addrOf (b.slots (st.lookup.slot H key))
  let e ← st.packed.entry addr
  if e.key = key then
    let pd ← st.packed.updateData addr key 64 val
    return { st with packed := pd }
  else return st

def numaRemove (st : Store) (key : U64) : Exec Store := do
  let b ← st.buckets.row (st.lookup.row H key)
  let slot := st.lookup.slot H key
  let (pd, res) ← st.packed.removeDataWithKeyCheck (addrOf (b.slots slot)) key
  if res then
    return { st with packed := pd, buckets := st.buckets.removeAddr (st.lookup.row H key) slot }
  else return st

end Store

/-- A writing operation of a client thread; a put allocates from the thread's lane. -/
inductive NumaOp where
  | put (laneId : Nat) (key val : U64)
  | update (key val : U64)
  | remove (key : U64)

/-- One operation of one client. -/
def Store.step (H : HashFn) (st : Store) : NumaOp → Exec Store
  | .put laneId key val => st.numaPut H laneId key val
  | .update key val => st.numaUpdate H key val
  | .remove key => st.numaRemove H key

/-- A search looks at the buckets and the entries. -/
theorem numaSearch_congr {H : HashFn} {st st' : Store} {k : U64} (hlookup : st'.lookup = st.lookup)
    (hbuckets : st'.buckets = st.buckets) (hentry : ∀ i, st'.packed.entry i = st.packed.entry i) :
    st'.numaSearch H k = st.numaSearch H k := by
  have hscan : ∀ (b : LudoBucket) (p : Slot) (l : List Slot),
      b.scanRow st'.packed k p l = b.scanRow st.packed k p l := by
    intro b p l
    induction l with
    | nil => rfl
    | cons s l ih => rw [LudoBucket.scanRow, LudoBucket.scanRow, ih, hentry]
  unfold Store.numaSearch
  simp only [hlookup, hbuckets, hentry, hscan]

/-- A search whose primary entry has the key. -/
theorem numaSearch_of_primary {H : HashFn} {st : Store} {k : U64} {g : PackedStruct}
    (hrow : st.lookup.row H k < st.buckets.numElements)
    (haddr : addrOf ((st.buckets.bucketsArray (st.lookup.row H k)).slots (st.lookup.slot H k)) < st.packed.numElements)
    (hentry : st.packed.rawArray
      (addrOf ((st.buckets.bucketsArray (st.lookup.row H k)).slots (st.lookup.slot H k))) = g) (hk : g.key = k) :
    st.numaSearch H k = .ok (some g.data) := by
  unfold Store.numaSearch
  rw [LudoBuckets.row_ok hrow, Exec.ok_bind]
  simp only [PackedData.entry_ok haddr, Exec.ok_bind, hentry, if_pos hk]
  rfl

/-! ## The bulk load -/

/-- `effective_mem_threads`. -/
def effectiveMemThreads (memThreads : Nat) : Nat := max 1 (min memThreads kMaxNumaLanes)

/-- The lanes `setup_ludo_table` publishes. -/
def setupLanes (nkeys memThreads : Nat) : Lanes where
  memThreads := effectiveMemThreads memThreads
  laneNextFreeIndex := fun lane =>
    if lane < effectiveMemThreads memThreads then nkeys + lane else 2 * nkeys

/-- The store that `setup_ludo_table` publishes for the control plane `cp`: `2 * nkeys` packed entries in
    fresh memory `regMem`, the generated buckets, and the lanes behind the loaded keys. `packedStruct` is the
    indeterminate local of the `PackedData` constructor, `alien` the locator's answers for unregistered
    keys. -/
def setupLudoTable (H : HashFn) (cp : ExactLudo) (existKeys : List U64) (memThreads : Nat)
    (alien : U64 → Bool) (regMem : Nat → PackedStruct) (packedStruct : PackedStruct) : Exec Store := do
  let packed ← (PackedData.ofRegMem regMem (2 * existKeys.length) packedStruct).bulkLoadAll existKeys
  return {
    lookup := cp.dataPlane alien
    buckets := cp.remoteBuckets H
    packed := packed
    lanes := setupLanes existKeys.length memThreads
    numDataEntries := 2 * existKeys.length }

/-- The stores reached from a bulk load of `existKeys` by operations that all meet the guard `C`. -/
def ReachedFrom (H : HashFn) (existKeys : List U64) (C : Store → NumaOp → Prop) (st : Store) : Prop :=
  ∃ cp memThreads alien regMem packedStruct st₀, Loaded H cp existKeys ∧
    setupLudoTable H cp existKeys memThreads alien regMem packedStruct = .ok st₀ ∧
    Lib.Reaches (Store.step H) C st₀ st

/-- The store of such a one-bucket table with one lane, in zeroed memory. -/
def rowStore (b : Nat) (seed : U8) (existKeys : List U64) : Store where
  lookup := (rowTable b seed existKeys).dataPlane (fun _ => false)
  buckets := (rowTable b seed existKeys).remoteBuckets fastHasher64
  packed := existKeys.foldl (fun pd k => pd.push ⟨k, 8, BitVec.ofNat 64 pd.num⟩)
    (PackedData.ofRegMem (fun _ => .zero) (2 * existKeys.length) .zero)
  lanes := setupLanes existKeys.length 1
  numDataEntries := 2 * existKeys.length

/-- It is what `setup_ludo_table` publishes for the one-bucket table. -/
theorem rowStore_setup (b : Nat) (seed : U8) (existKeys : List U64) :
    setupLudoTable fastHasher64 (rowTable b seed existKeys) existKeys 1 (fun _ => false) (fun _ => .zero) .zero
      = .ok (rowStore b seed existKeys) := by
  unfold setupLudoTable
  rw [PackedData.bulkLoadAll_eq (by simp only [PackedData.ofRegMem]; omega), Exec.ok_bind]
  rfl

theorem rowStore_reached {b : Nat} {seed : U8} {existKeys : List U64} (C : Store → NumaOp → Prop)
    (hld : Loaded fastHasher64 (rowTable b seed existKeys) existKeys) :
    ReachedFrom fastHasher64 existKeys C (rowStore b seed existKeys) :=
  ⟨rowTable b seed existKeys, 1, fun _ => false, fun _ => .zero, .zero, _, hld, rowStore_setup b seed existKeys, .refl⟩

theorem rowStore_seven (C : Store → NumaOp → Prop) : ReachedFrom fastHasher64 [7] C (rowStore 423 0 [7]) :=
  rowStore_reached C rowTable_seven

theorem rowStore_pair (C : Store → NumaOp → Prop) : ReachedFrom fastHasher64 [0, 301] C (rowStore 31 0 [0, 301]) :=
  rowStore_reached C rowTable_pair

theorem rowStore_full (C : Store → NumaOp → Prop) :
    ReachedFrom fastHasher64 [0, 301, 540, 938] C (rowStore 31 2 [0, 301, 540, 938]) :=
  rowStore_reached C rowTable_full

end Outback
