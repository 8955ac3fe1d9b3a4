import Outback.Ludo.ControlPlane
import Outback.Ludo.SeedSearch
import Outback.Ludo.Locator

/-!
# `Ludo.Insert` — offline insertion into the control plane (`ludo_cp_dp.h`)

`insert` puts a key into a free slot of one of its two buckets. Without one, `CuckooInsert` looks breadth-first for a
chain of moves that frees a slot; without one, or at capacity, `resizeCapacity` grows the table in place
(`powerSize`) or rebuilds it under a new row-hash seed (`build`, `tryBuild`), and `insert` starts over. The five
functions call each other, so they carry a bound on the depth of their calls.

Two details of the source matter. `tryBuild` iterates over `oldBuckets` and passes *references* into it as the keys to
insert, while a rebuild further in assigns `oldBuckets` again: a `KeyRef` is read again after every call. And offline
insertions never report a negative status, so the retry loop of `build` leaves at its first try, and the `nKeys` of a
key whose `CuckooInsert` rebuilt is counted twice.
-/

namespace Outback

/-! ## Sizes -/

/-- `g_ludo_load_factor`, a double: `num / 2 ^ exp`, "`0 < g_ludo_load_factor <= 1.0`". -/
structure LoadFactor where
  num : Nat
  exp : Nat
  pos : 0 < num
  le_one : num ≤ 2 ^ exp

/-- The default `load_factor`, the double nearest to 0.95. -/
def defaultLoadFactor : LoadFactor := ⟨4278419646001971, 52, by decide, by decide⟩

/-- `num_buckets_ * g_ludo_load_factor * kSlotsPerBucket`, exact for the powers of two it is used with. -/
def LoadFactor.capacity (lf : LoadFactor) (numBuckets : Nat) : Nat := numBuckets * 4 * lf.num / 2 ^ lf.exp

/-- The first size `64, 128, ..` of `limit` many whose capacity reaches the target. -/
def LoadFactor.nextNbuckets (lf : LoadFactor) (limit target : Nat) : LudoExec Nat :=
  match ((List.range limit).map (64 * 2 ^ ·)).find? fun n => target ≤ lf.capacity n with
  | some n => .ok n
  | none => .error .depth

/-! ## The breadth-first search -/

/-- `CuckooPathEntry`; a root has no parent. -/
structure CuckooPathEntry where
  bucket : Nat
  depth : Nat
  /-- the index in `visited_`, and the slot of that bucket we came from -/
  parent : Option (Nat × Slot)

def kMaxBFSPathLen : Nat := 5

/-- `calMaxQueueSize()`. -/
def kMaxQueueSize : Nat := 4 * (1 + 4 + 16 + 64 + 256)

/-- `calVisitedListSize()`. -/
def kVisitedListSize : Nat := 4 * (1 + 4 + 16 + 64)

/-- `push_back` on the circular queue: filled to the last place, it reads as empty. -/
def pushBack (queue : List CuckooPathEntry) (e : CuckooPathEntry) : List CuckooPathEntry :=
  if queue.length + 1 = kMaxQueueSize then [] else queue ++ [e]

section Search

variable (candidate : U64 → Bool → Nat) (occupied : Nat → Slot → Bool) (keys : Nat → Slot → U64)

/-- `FindFreeSlot`. -/
def findFreeSlot (mask : Slot → Bool) : Option Slot := (List.finRange 4).find? fun s => !mask s

/-- The entries that the search adds for a full bucket: the other bucket of each of its keys. -/
def successors (entry : CuckooPathEntry) (parentIndex : Nat) : List CuckooPathEntry :=
  (List.finRange 4).flatMap fun i =>
    let slot : Slot := Fin.ofNat 4 (entry.depth + entry.bucket + i.val)
    ([false, true].filter fun j => candidate (keys entry.bucket slot) j != entry.bucket).map fun j =>
      ⟨candidate (keys entry.bucket slot) j, entry.depth + 1, some (parentIndex, slot)⟩

/-- The search loop of `CuckooInsert`: the entry whose bucket has a free slot, that slot, and `visited_`. -/
def searchPath : Nat → List CuckooPathEntry → List CuckooPathEntry →
    LudoExec (Option (CuckooPathEntry × Slot × List CuckooPathEntry))
  | 0, _, _ => .error .depth
  | _ + 1, [], _ => .ok none
  | n + 1, entry :: queue, visited =>
      match findFreeSlot (occupied entry.bucket) with
      | some freeSlot => .ok (some (entry, freeSlot, visited))
      | none =>
          if entry.depth < kMaxBFSPathLen then
            if visited.length < kVisitedListSize then
              searchPath n ((successors candidate keys entry visited.length).foldl pushBack queue) (visited ++ [entry])
            else .error .visitedOverrun
          else searchPath n queue visited

/-- More turns than the search takes: two roots, four levels of at most eight successors each. -/
def searchTurns : Nat := 2 * (1 + 8 + 64 + 512 + 4096) + 1

end Search

namespace ControlPlaneLudo

variable {V : Type} (H : HashFn) (P : Locator)

/-! ## One bucket -/

def setBucket {L : Type} (cp : ControlPlaneLudo V L) (b : Nat) (bucket : CpBucket V) : ControlPlaneLudo V L :=
  { cp with buckets := cp.buckets.set b bucket }

/-- The two buckets of a key in the table as it is. -/
def candidate {L : Type} (cp : ControlPlaneLudo V L) (k : U64) (second : Bool) : Nat :=
  fastMapToBuckets (H cp.hSeed k) cp.buckets.size second

/-- A slot of a bucket taken by a key and its value. -/
def fill {L : Type} (cp : ControlPlaneLudo V L) (b : Nat) (slot : Slot) (k : U64) (v : V) : ControlPlaneLudo V L :=
  cp.setBucket b
    { cp.buckets.get b with
      occupiedMask := Function.update (cp.buckets.get b).occupiedMask slot true
      keys := Function.update (cp.buckets.get b).keys slot k
      values := Function.update (cp.buckets.get b).values slot v }

/-- `occupiedMask` of a slot. -/
def mark {L : Type} (cp : ControlPlaneLudo V L) (b : Nat) (slot : Slot) (occupied : Bool) : ControlPlaneLudo V L :=
  cp.setBucket b
    { cp.buckets.get b with occupiedMask := Function.update (cp.buckets.get b).occupiedMask slot occupied }

/-- `updateSeed`. -/
def updateSeed {L : Type} (cp : ControlPlaneLudo V L) (b : Nat) : LudoExec (ControlPlaneLudo V L) :=
  let bucket := cp.buckets.get b
  match forceSeed H (((List.finRange 4).filter (bucket.occupiedMask ·)).map bucket.keys) with
  | some seed => .ok (cp.setBucket b { bucket with seed := seed })
  | none => .error .noSeed

/-- `putItem`, offline. -/
def putItem (cp : ControlPlaneLudo V P.State) (k : U64) (v : V) (b : Nat) (slot : Slot) (toFirstBucket : Bool) :
    LudoExec (ControlPlaneLudo V P.State) := do
  let locator ← P.registerKey cp.locator k !toFirstBucket
  ({ cp with locator := locator }.fill b slot k v).updateSeed H b

/-- `moveItem`: the key keeps its old slot until another key is written over it. The free slot was marked. -/
def moveItem (cp : ControlPlaneLudo V P.State) (sBkt : Nat) (sSlot : Slot) (dBkt : Nat) (dSlot : Slot) :
    LudoExec (ControlPlaneLudo V P.State) := do
  let src := cp.buckets.get sBkt
  let dst := cp.buckets.get dBkt
  let cp := cp.setBucket dBkt
    { dst with keys := Function.update dst.keys dSlot (src.keys sSlot)
               values := Function.update dst.values dSlot (src.values sSlot) }
  let locator ← P.toggleInOthello cp.locator (src.keys sSlot)
  { cp with locator := locator }.updateSeed H dBkt

def isMember {L : Type} (cp : ControlPlaneLudo V L) (k : U64) : Bool :=
  ((cp.buckets.get (cp.candidate H k false)).findInBucket k).isSome ||
    ((cp.buckets.get (cp.candidate H k true)).findInBucket k).isSome

/-- The slot `FindInBucket` stops at. -/
def findSlot (bucket : CpBucket V) (k : U64) : Option Slot :=
  (List.finRange 4).find? fun s => bucket.occupiedMask s && bucket.keys s == k

/-- `changeValue`. -/
def changeValue {L : Type} (cp : ControlPlaneLudo V L) (k : U64) (v : V) : ControlPlaneLudo V L :=
  let change (b : Nat) (s : Slot) : ControlPlaneLudo V L :=
    cp.setBucket b { cp.buckets.get b with values := Function.update (cp.buckets.get b).values s v }
  match findSlot (cp.buckets.get (cp.candidate H k false)) k with
  | some s => change (cp.candidate H k false) s
  | none =>
      match findSlot (cp.buckets.get (cp.candidate H k true)) k with
      | some s => change (cp.candidate H k true) s
      | none => cp

/-- The free slot `insert` takes: the first of the first bucket, else the first of the second. -/
def targetSlot {L : Type} (cp : ControlPlaneLudo V L) (k : U64) : Option (Nat × Slot) :=
  ((findFreeSlot (cp.buckets.get (cp.candidate H k false)).occupiedMask).map (cp.candidate H k false, ·)).or
    ((findFreeSlot (cp.buckets.get (cp.candidate H k true)).occupiedMask).map (cp.candidate H k true, ·))

/-! ## Growing in place -/

/-- One turn of the loops of `powerSize`: slot `slot` of bucket `i` moves where its key belongs now. -/
def powerSlot (cp : ControlPlaneLudo V P.State) (cell : Nat × Slot) : LudoExec (ControlPlaneLudo V P.State) := do
  let bucket := cp.buckets.get cell.1
  if bucket.occupiedMask cell.2 = false then .ok cp
  else
    let bit ← P.lookUp cp.locator (bucket.keys cell.2)
    let bi := fastMapToBuckets (H cp.hSeed (bucket.keys cell.2)) cp.numBuckets bit
    if bi = cell.1 then .ok cp
    else ((cp.mark cell.1 cell.2 false).fill bi cell.2 (bucket.keys cell.2) (bucket.values cell.2)).updateSeed H bi

/-- The slots of the first `n` buckets, in order. -/
def cells (n : Nat) : List (Nat × Slot) := (List.range n).flatMap fun i => (List.finRange 4).map (i, ·)

def powerSize [Inhabited V] (cp : ControlPlaneLudo V P.State) (times : Nat) :
    LudoExec (ControlPlaneLudo V P.State) := do
  let cp := { cp with buckets := cp.buckets.resize cp.numBuckets .empty }
  let locator ← P.resizeCapacity cp.locator cp.capacity
  (cells (cp.numBuckets / times)).foldlM (powerSlot H P) { cp with locator := locator }

/-! ## Following a cuckoo path -/

/-- The moves along the path, from its free end back to the root: the root and the slot freed there, and whether the
    root is the first bucket of the key. -/
def followPath (visited : List CuckooPathEntry) : Nat → ControlPlaneLudo V P.State → CuckooPathEntry → Slot → Bool →
    LudoExec (ControlPlaneLudo V P.State × CuckooPathEntry × Slot × Bool)
  | 0, _, _, _, _ => .error .depth
  | n + 1, cp, entry, freeSlot, toFirstBucket =>
      match entry.parent with
      | none => .ok (cp, entry, freeSlot, toFirstBucket)
      | some (parent, parentSlot) =>
          match visited[parent]? with
          | none => .error .visitedOverrun
          | some parentEntry => do
              let cp ← cp.moveItem H P parentEntry.bucket parentSlot entry.bucket freeSlot
              followPath visited n cp parentEntry parentSlot
                (if entry.depth = 2 then parent == 0 else toFirstBucket)

/-- The search of `CuckooInsert` for key `k`. -/
def cuckooSearch {L : Type} (cp : ControlPlaneLudo V L) (k : U64) :
    LudoExec (Option (CuckooPathEntry × Slot × List CuckooPathEntry)) :=
  searchPath (cp.candidate H) (fun b => (cp.buckets.get b).occupiedMask) (fun b => (cp.buckets.get b).keys) searchTurns
    [⟨cp.candidate H k false, 1, none⟩, ⟨cp.candidate H k true, 1, none⟩] []

/-- `CuckooInsert` along a path that was found. -/
def cuckooMove (cp : ControlPlaneLudo V P.State) (k : U64) (v : V) (entry : CuckooPathEntry) (freeSlot : Slot)
    (visited : List CuckooPathEntry) : LudoExec (ControlPlaneLudo V P.State) := do
  let (cp, entry, slot, toFirstBucket) ←
    followPath H P visited entry.depth (cp.mark entry.bucket freeSlot true) entry freeSlot false
  cp.putItem H P k v entry.bucket slot toFirstBucket

/-! ## Insertion and rebuilding -/

/-- A `const K &`: the caller's own value, or a slot of the storage of `oldBuckets`. -/
inductive KeyRef where
  | value (k : U64)
  | old (i : Nat) (slot : Slot) (storage : Nat)

def KeyRef.read {L : Type} (cp : ControlPlaneLudo V L) : KeyRef → LudoExec U64
  | .value k => .ok k
  | .old i slot storage =>
      if cp.oldBuckets.storage = storage then .ok ((cp.oldBuckets.get i).keys slot) else .error .dangling

/-- `nKeys + 1` in 32 bits. -/
def nextKeys {L : Type} (cp : ControlPlaneLudo V L) : Nat := (cp.nKeys + 1) % 2 ^ 32

variable (lf : LoadFactor) [Inhabited V]

mutual

/-- `insert(k, v)`, offline. -/
def insert : Nat → ControlPlaneLudo V P.State → KeyRef → V → LudoExec (ControlPlaneLudo V P.State)
  | 0, _, _, _ => .error .depth
  | n + 1, cp, ref, v => do
      let k ← ref.read cp
      if cp.isMember H k then .ok (cp.changeValue H k v)
      else if cp.capacity < cp.nextKeys then
        let cp ← resizeCapacity n cp cp.nextKeys true
        insert n cp ref v
      else
        let placed :=
          match cp.targetSlot H k with
          | some (b, slot) => cp.putItem H P k v b slot (b == cp.candidate H k false)
          | none => cuckooInsert n cp ref v
        let cp ← placed
        .ok { cp with nKeys := cp.nextKeys }

/-- `CuckooInsert(k, v)`, offline. -/
def cuckooInsert : Nat → ControlPlaneLudo V P.State → KeyRef → V → LudoExec (ControlPlaneLudo V P.State)
  | 0, _, _, _ => .error .depth
  | n + 1, cp, ref, v => do
      let k ← ref.read cp
      match ← cp.cuckooSearch H k with
      | some (entry, freeSlot, visited) => cp.cuckooMove H P k v entry freeSlot visited
      | none =>
          let cp ← resizeCapacity n cp cp.nextKeys true
          insert n cp ref v

/-- `resizeCapacity(targetCapacity, forceBuild)`. -/
def resizeCapacity : Nat → ControlPlaneLudo V P.State → Nat → Bool → LudoExec (ControlPlaneLudo V P.State)
  | 0, _, _, _ => .error .depth
  | n + 1, cp, targetCapacity, forceBuild => do
      let nextNbuckets ← lf.nextNbuckets 58 (max cp.nKeys (max targetCapacity 256))
      if 2 ^ 32 ≤ nextNbuckets then .error .sizeWraps
      else
        let enlarge := cp.numBuckets < nextNbuckets
        let times := if enlarge then nextNbuckets / cp.numBuckets else cp.numBuckets / nextNbuckets
        let resized :=
          { cp with numBuckets := nextNbuckets, capacity := lf.capacity nextNbuckets % 2 ^ 32 }
        if enlarge ∧ cp.integrity = true then resized.powerSize H P times
        else
          let locator ← P.resizeCapacity resized.locator resized.capacity
          let saved :=
            { resized with
              integrity := false
              oldBuckets := cp.oldBuckets.assign cp.buckets
              locator := locator
              buckets := cp.buckets.resize nextNbuckets .empty }
          if 2 ^ 30 ≤ nextNbuckets then .error .tooManyKeys
          else if forceBuild = true ∨ nextNbuckets ≠ cp.numBuckets then build n saved
          else .ok saved

/-- `build()`: a new row-hash seed, then every key of `oldBuckets` again. -/
def build : Nat → ControlPlaneLudo V P.State → LudoExec (ControlPlaneLudo V P.State)
  | 0, _ => .error .depth
  | n + 1, cp => do
      let (seed, locator) ← P.rowSeed cp.locator
      tryBuild n { cp with hSeed := seed, locator := locator }

/-- `tryBuild()`: the loops hold on to the storage of `oldBuckets` they started with. -/
def tryBuild : Nat → ControlPlaneLudo V P.State → LudoExec (ControlPlaneLudo V P.State)
  | 0, _ => .error .depth
  | n + 1, cp => do
      let locator ← P.clear cp.locator
      let cleared :=
        { cp with
          locator := locator
          nKeys := 0
          buckets := ⟨cp.buckets.size, fun b => { cp.buckets.get b with occupiedMask := fun _ => false }⟩ }
      let built ← (cells cp.oldBuckets.size).foldlM (fun cur cell =>
        if cur.oldBuckets.storage = cp.oldBuckets.storage then
          if (cur.oldBuckets.get cell.1).occupiedMask cell.2 then
            insert n cur (.old cell.1 cell.2 cp.oldBuckets.storage) ((cur.oldBuckets.get cell.1).values cell.2)
          else .ok cur
        else .error .dangling) cleared
      .ok { built with integrity := true }

end

/-! ## A bulk load -/

/-- `ControlPlaneLudo(capacity_)` around the locator it constructs. -/
def construct (locator : P.State) (capacity : Nat) : LudoExec (ControlPlaneLudo V P.State) := do
  let numBuckets ← lf.nextNbuckets 26 capacity
  let locator ← P.resizeCapacity locator 0
  .ok { numBuckets := numBuckets, hSeed := defaultHSeed, nKeys := 0, capacity := lf.capacity numBuckets
        buckets := ⟨numBuckets, fun _ => .empty⟩, oldBuckets := ⟨⟨0, fun _ => .empty⟩, 0, 0⟩, integrity := true
        locator := locator }

/-- The loop of `setup_ludo_table`: `insert(exist_keys[i], values(i))` for `i < nkeys`. -/
def insertAll (depth : Nat) (cp : ControlPlaneLudo V P.State) (existKeys : List U64) (values : Nat → V) (nkeys : Nat) :
    LudoExec (ControlPlaneLudo V P.State) :=
  (List.range nkeys).foldlM (fun cp i =>
    match existKeys[i]? with
    | some k => insert H P lf depth cp (.value k) (values i)
    | none => .error .keyBounds) cp

end ControlPlaneLudo

end Outback
