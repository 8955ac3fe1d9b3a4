import Outback.Trait
import Outback.Numa.Resize

/-!
# `Numa.Direct` — the request handlers of the NUMA server (`outback/outback_server_numa.hh`)

`outback_get_direct`, `outback_put_direct`, `outback_update_direct` and `outback_remove_direct` run in the server
process, next to the orchestrator. They reach the data through the process globals `ludo_buckets` and `packed_data`,
which `setup_ludo_table` points into the region of version 1. While structural mutations are blocked, a put or a remove
goes to the orchestrator's queues instead.

A handler holds its row's mutex, so each is one step. An access through a global whose region is no longer mapped is a
fault. `outback_get_direct` answers from whatever entry the slot refers to: its other branch is dead code (`if (true)`).
-/

namespace Outback

/-- `OpStatus::DEFERRED`. -/
def opStatusDeferred : U64 := 4

/-- `ludo_buckets`: a view of the bucket array of region `ver`. -/
structure BucketsPtr where
  ver : Nat
  numElements : Nat

/-- `packed_data`: a view of the packed array of region `ver`, with its own counter. -/
structure PackedPtr where
  ver : Nat
  num : Nat
  numElements : Nat

/-- The server process. -/
structure NumaServer where
  orch : Server
  ludoBuckets : BucketsPtr
  packedData : PackedPtr
  lruCache : Cache U64 U64
  /-- `g_resize_orch_ptr` and the two `g_defer_*_fn` are set: between `start` and `stop` of the orchestrator -/
  intercepting : Bool

/-- A call of a handler. `reply` is what the caller's `ReplyValue` held before. -/
inductive DirectCall where
  | get (loc : Nat)
  | put (loc : Nat) (key val : U64) (reply : ReplyValue)
  | update (loc : Nat) (key val : U64)
  | remove (loc : Nat) (key : U64)

namespace NumaServer

/-! ## The globals -/

/-- What `ludo_buckets` refers to. -/
def buckets (s : NumaServer) : Exec LudoBuckets :=
  if s.orch.Mapped s.ludoBuckets.ver then
    .ok ⟨(s.orch.shared.regions s.ludoBuckets.ver).buckets, s.ludoBuckets.numElements⟩
  else .error .danglingPointer

/-- What `packed_data` refers to. -/
def packed (s : NumaServer) : Exec PackedData :=
  if s.orch.Mapped s.packedData.ver then
    .ok ⟨(s.orch.shared.regions s.packedData.ver).packed, s.packedData.num, s.packedData.numElements⟩
  else .error .danglingPointer

/-- The bucket array after a handler wrote it. -/
def putBuckets (s : NumaServer) (lbs : LudoBuckets) : NumaServer :=
  let region := { s.orch.shared.regions s.ludoBuckets.ver with buckets := lbs.bucketsArray }
  { s with orch := { s.orch with shared := s.orch.shared.setRegion s.ludoBuckets.ver region } }

/-- The packed array and its counter after a handler wrote them. -/
def putPacked (s : NumaServer) (pd : PackedData) : NumaServer :=
  let region := { s.orch.shared.regions s.packedData.ver with packed := pd.rawArray }
  { s with
    orch := { s.orch with shared := s.orch.shared.setRegion s.packedData.ver region }
    packedData := { s.packedData with num := pd.num } }

/-! ## Deferral -/

/-- The enqueue of a blocked put: its answer is not looked at. -/
def deferPut (s : NumaServer) (key val : U64) : NumaServer :=
  if s.intercepting then { s with orch := (s.orch.deferInsert key val).2 } else s

/-- The enqueue of a blocked remove. -/
def deferRemove (s : NumaServer) (key : U64) : NumaServer :=
  if s.intercepting then { s with orch := (s.orch.deferDelete key).2 } else s

/-- What a blocked put or remove replies. -/
def deferredReply : ReplyValue := ⟨false, opStatusDeferred⟩

/-! ## The handlers -/

variable (H : HashFn)

def outbackGetDirect (s : NumaServer) (loc : Nat) : Exec ReplyValue := do
  let lbs ← s.buckets
  let b ← lbs.row (locRow loc)
  let pd ← s.packed
  let e ← pd.entry (addrOf (b.slots (locSlot loc)))
  return ⟨true, e.data⟩

/-- The two inserting cases of `outback_put_direct`. -/
def insertDirect (s : NumaServer) (lbs : LudoBuckets) (key val : U64) (row : Nat) (slot : Slot) (replyVal : U64) :
    Exec (NumaServer × ReplyValue) := do
  let pd ← s.packed
  let (pd, addr) ← pd.bulkLoadData key 8 val
  return ((s.putPacked pd).putBuckets (lbs.writeAddr H key row slot (addr.setWidth 64)), ⟨true, replyVal⟩)

/-- `outback_put_direct` behind its look at the flag. In case 3 the cache takes the pair. -/
def applyPut (s : NumaServer) (loc : Nat) (key val : U64) (reply : ReplyValue) : Exec (NumaServer × ReplyValue) := do
  let row := locRow loc
  let lbs ← s.buckets
  let b ← lbs.row row
  let slot := seedSlot H (s.orch.lookup.seeds row) key
  match b.checkSlots H key slot with
  | .good => s.insertDirect H lbs key val row slot 0
  | .maybeUpdate =>
      let pd ← s.packed
      let addr := addrOf (b.slots slot)
      if (← pd.readKey addr) = key then
        let pd ← pd.updateData addr key 64 val
        return (s.putPacked pd, ⟨true, 1⟩)
      else return (s, ⟨false, 0⟩)
  | .emptyExists =>
      match (List.finRange 4).find? (fun t => b.checkSlots H key t = .good) with
      | some t => s.insertDirect H lbs key val row t 2
      -- the loop falls through and the reply stays what the caller passed in
      | none => return (s, reply)
  | .full =>
      return ({ s.putBuckets (lbs.setCachebit row slot) with lruCache := s.lruCache.insert key val },
        ⟨true, (1 : U64) <<< 8 ||| (s.orch.lookup.seeds row).setWidth 64⟩)

def outbackPutDirect (s : NumaServer) (loc : Nat) (key val : U64) (reply : ReplyValue) :
    Exec (NumaServer × ReplyValue) :=
  if s.orch.mutationsBlocked then .ok (s.deferPut key val, deferredReply) else s.applyPut H loc key val reply

/-- An update is not blocked. -/
def outbackUpdateDirect (s : NumaServer) (loc : Nat) (key val : U64) : Exec (NumaServer × ReplyValue) := do
  let lbs ← s.buckets
  let b ← lbs.row (locRow loc)
  let pd ← s.packed
  let addr := addrOf (b.slots (locSlot loc))
  if (← pd.readKey addr) = key then
    let pd ← pd.updateData addr key 64 val
    return (s.putPacked pd, ⟨true, 1⟩)
  else return (s, ⟨false, 0⟩)

/-- `outback_remove_direct` behind its look at the flag. -/
def applyRemove (s : NumaServer) (loc : Nat) (key : U64) : Exec (NumaServer × ReplyValue) := do
  let lbs ← s.buckets
  let b ← lbs.row (locRow loc)
  let pd ← s.packed
  let (pd, res) ← pd.removeDataWithKeyCheck (addrOf (b.slots (locSlot loc))) key
  if res then return ((s.putPacked pd).putBuckets (lbs.removeAddr (locRow loc) (locSlot loc)), ⟨true, 0⟩)
  else return (s, ⟨true, 0⟩)

def outbackRemoveDirect (s : NumaServer) (loc : Nat) (key : U64) : Exec (NumaServer × ReplyValue) :=
  if s.orch.mutationsBlocked then .ok (s.deferRemove key, deferredReply) else s.applyRemove loc key

/-- One call. -/
def call (s : NumaServer) : DirectCall → Exec (NumaServer × ReplyValue)
  | .get loc => do return (s, ← s.outbackGetDirect loc)
  | .put loc key val reply => s.outbackPutDirect H loc key val reply
  | .update loc key val => s.outbackUpdateDirect loc key val
  | .remove loc key => s.outbackRemoveDirect loc key

end NumaServer

/-- A step of the server process. -/
inductive NumaServerStep where
  | tick (inp : TickInput)
  | call (c : DirectCall)

/-- One tick of the orchestrator, or one call, its reply left out. -/
def NumaServer.step (H : HashFn) (s : NumaServer) : NumaServerStep → Exec NumaServer
  | .tick inp => do
      let t ← s.orch.checkState H inp
      return { s with orch := t }
  | .call c => (s.call H c).map Prod.fst

/-- The server process after `setup_ludo_table` and `register_numa_server`. -/
def Store.numaServer (st : Store) (sSlow sStop : Nat) : NumaServer where
  orch := st.server sSlow sStop
  ludoBuckets := ⟨1, st.buckets.numElements⟩
  packedData := ⟨1, st.packed.num, st.packed.numElements⟩
  lruCache := ⟨[], 2048, 10⟩
  intercepting := true

end Outback
