import Outback.Trait
import Outback.PackedData
import Outback.Ludo.BulkLoad
import Outback.Ludo.SeedSearch
import Outback.Lib.Reach

/-!
# `Rdma.Server` — the request callbacks of the RDMA server (`outback/outback_server.hh`)

The server keeps the seeds (`ludo_lookup_unit`), the bucket array, the packed array and an LRU cache. A request
carries `loc = 4 * row + slot` as its client computed it, possibly from an old seed of the row. A callback holds the
row's mutex, so each is one step.

`outback_get_callback` answers from whatever entry the slot refers to: its key check is commented out and the branch
that would reply `status = false` is dead code (`if (true)`). `outback_put_callback` computes the slot again under the
server's own seed. What finds no place goes to the LRU cache, which no request reads.
-/

namespace Outback

/-! ## The server -/

structure RdmaServer where
  /-- `ludo_lookup_unit`: the server uses its seeds -/
  lookup : DataPlaneLudo
  buckets : LudoBuckets
  packed : PackedData
  lruCache : Cache U64 U64

/-- A request as its callback decodes it. -/
inductive Request where
  | get (loc : Nat) (key : U64)
  | put (loc : Nat) (key val : U64)
  | update (loc : Nat) (key val : U64)
  | remove (loc : Nat) (key : U64)

namespace Request

def loc : Request → Nat
  | .get loc _ | .put loc _ _ | .update loc _ _ | .remove loc _ => loc

def key : Request → U64
  | .get _ key | .put _ key _ | .update _ key _ | .remove _ key => key

end Request

/-- `read_bucket_addrs`: the whole words of the occupied slots, in order. -/
def LudoBucket.readBucketAddrs (b : LudoBucket) : List U64 :=
  ((List.finRange 4).filter fun s => occ (b.slots s)).map b.slots

/-- `empty_bucket`, then `write_cell` of each word at its key's slot under `seed`. -/
def LudoBucket.replace (H : HashFn) (seed : U8) (bucketKeys bucketAddrs : List U64) : LudoBucket :=
  ⟨Lib.scatter (fun _ => 0) ((bucketKeys.map (seedSlot H seed)).zip bucketAddrs)⟩

namespace RdmaServer

variable (H : HashFn)

def outbackGetCallback (s : RdmaServer) (loc : Nat) : Exec ReplyValue := do
  let b ← s.buckets.row (locRow loc)
  let e ← s.packed.entry (addrOf (b.slots (locSlot loc)))
  return ⟨true, e.data⟩

/-- Case 2 of the put: the row has an empty slot, another key is in the way. Look for a seed that separates the keys
    of the row and the new one. -/
def reseedBucket (s : RdmaServer) (row : Nat) (key val : U64) : Exec (RdmaServer × ReplyValue) := do
  let b ← s.buckets.row row
  let bucketAddrs := b.readBucketAddrs
  let bucketKeys ← s.packed.readBatchKeys bucketAddrs
  let (pd, addr) ← s.packed.bulkLoadData key 8 val
  match forceSeed H (bucketKeys ++ [key]) with
  | some seed =>
      return ({ s with
        lookup := s.lookup.updateSeed row seed
        packed := pd
        buckets := s.buckets.setRow row (LudoBucket.replace H seed (bucketKeys ++ [key])
          (bucketAddrs ++ [combine (fingerprint H key) 64 (addr.setWidth 64)])) }, ⟨true, (1 <<< 8) + seed.setWidth 64⟩)
  | none => .error .exited

def outbackPutCallback (s : RdmaServer) (loc : Nat) (key val : U64) : Exec (RdmaServer × ReplyValue) := do
  let row := locRow loc
  let b ← s.buckets.row row
  let slot := seedSlot H (s.lookup.seeds row) key
  match b.checkSlots H key slot with
  | .good =>
      let (pd, addr) ← s.packed.bulkLoadData key 8 val
      return ({ s with packed := pd, buckets := s.buckets.writeAddr H key row slot (addr.setWidth 64) }, ⟨true, 0⟩)
  | .maybeUpdate =>
      let addr := addrOf (b.slots slot)
      if (← s.packed.readKey addr) = key then
        let pd ← s.packed.updateData addr key 64 val
        return ({ s with packed := pd }, ⟨true, 1⟩)
      else
        -- same slot and fingerprint, another key
        let (pd, _) ← s.packed.bulkLoadData key 8 val
        return ({ s with packed := pd, lruCache := s.lruCache.insert key val }, ⟨true, 1⟩)
  | .emptyExists => s.reseedBucket H row key val
  | .full =>
      let (pd, _) ← s.packed.bulkLoadData key 8 val
      return ({ s with
        packed := pd
        lruCache := s.lruCache.insert key val
        buckets := s.buckets.setCachebit row (locSlot loc) }, ⟨true, 3⟩)

def outbackUpdateCallback (s : RdmaServer) (loc : Nat) (key val : U64) : Exec (RdmaServer × ReplyValue) := do
  let b ← s.buckets.row (locRow loc)
  let addr := addrOf (b.slots (locSlot loc))
  if (← s.packed.readKey addr) = key then
    let pd ← s.packed.updateData addr key 64 val
    return ({ s with packed := pd }, ⟨true, 1⟩)
  else
    let (pd, _) ← s.packed.bulkLoadData key 8 val
    return ({ s with packed := pd, lruCache := s.lruCache.insert key val }, ⟨true, 2⟩)

def outbackRemoveCallback (s : RdmaServer) (loc : Nat) (key : U64) : Exec (RdmaServer × ReplyValue) := do
  let b ← s.buckets.row (locRow loc)
  let (pd, res) ← s.packed.removeDataWithKeyCheck (addrOf (b.slots (locSlot loc))) key
  if res then
    return ({ s with packed := pd, buckets := s.buckets.removeAddr (locRow loc) (locSlot loc) }, ⟨true, 0⟩)
  else return (s, ⟨true, 0⟩)

/-- The callback of a request. -/
def handle (s : RdmaServer) : Request → Exec (RdmaServer × ReplyValue)
  | .get loc _ => do return (s, ← s.outbackGetCallback loc)
  | .put loc key val => s.outbackPutCallback H loc key val
  | .update loc key val => s.outbackUpdateCallback loc key val
  | .remove loc key => s.outbackRemoveCallback loc key

/-- One request, its reply left out. -/
def step (s : RdmaServer) (req : Request) : Exec RdmaServer := (s.handle H req).map Prod.fst

end RdmaServer

/-! ## The bulk load -/

/-- `setup_ludo_table` of the RDMA server: `new packed_struct_t[2 * nkeys]` leaves its memory as it is (`mem`). -/
def RdmaServer.setupLudoTable (H : HashFn) (cp : ExactLudo) (existKeys : List U64) (alien : U64 → Bool)
    (mem : Nat → PackedStruct) : Exec RdmaServer := do
  let packed ← PackedData.bulkLoadAll ⟨mem, 0, 2 * existKeys.length⟩ existKeys
  return {
    lookup := cp.dataPlane alien
    buckets := cp.remoteBuckets H
    packed := packed
    lruCache := ⟨[], 2048, 10⟩ }

/-- The servers reached from a bulk load by requests that all meet the guard `C`. -/
def RdmaReachedFrom (H : HashFn) (existKeys : List U64) (C : RdmaServer → Request → Prop) (s : RdmaServer) : Prop :=
  ∃ cp alien mem s₀, Loaded H cp existKeys ∧ RdmaServer.setupLudoTable H cp existKeys alien mem = .ok s₀ ∧
    Lib.Reaches (RdmaServer.step H) C s₀ s

/-- The server of a one-bucket table, in zeroed memory. -/
def rowServer (b : Nat) (seed : U8) (existKeys : List U64) : RdmaServer where
  lookup := (rowTable b seed existKeys).dataPlane (fun _ => false)
  buckets := (rowTable b seed existKeys).remoteBuckets fastHasher64
  packed := existKeys.foldl (fun pd k => pd.push ⟨k, 8, BitVec.ofNat 64 pd.num⟩)
    ⟨fun _ => .zero, 0, 2 * existKeys.length⟩
  lruCache := ⟨[], 2048, 10⟩

/-- It is what `setup_ludo_table` of this server ends with for the one-bucket table. -/
theorem rowServer_setup (b : Nat) (seed : U8) (existKeys : List U64) :
    RdmaServer.setupLudoTable fastHasher64 (rowTable b seed existKeys) existKeys (fun _ => false) (fun _ => .zero)
      = .ok (rowServer b seed existKeys) := by
  unfold RdmaServer.setupLudoTable
  rw [PackedData.bulkLoadAll_eq (by simp only; omega), Exec.ok_bind]
  rfl

theorem rowServer_reached {b : Nat} {seed : U8} {existKeys : List U64} (C : RdmaServer → Request → Prop)
    (hld : Loaded fastHasher64 (rowTable b seed existKeys) existKeys) :
    RdmaReachedFrom fastHasher64 existKeys C (rowServer b seed existKeys) :=
  ⟨rowTable b seed existKeys, fun _ => false, fun _ => .zero, _, hld, rowServer_setup b seed existKeys, .refl⟩

theorem rowServer_seven (C : RdmaServer → Request → Prop) :
    RdmaReachedFrom fastHasher64 [7] C (rowServer 423 0 [7]) :=
  rowServer_reached C rowTable_seven

end Outback
