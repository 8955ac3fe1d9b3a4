import Outback.Rpc.Message
import Outback.Rdma.Server

/-!
# `Rdma.Wire` — requests as bytes (`outback/outback_client.hh`, `outback/outback_server.hh`)

What the five `remote_*` functions put on the wire, and what the five callbacks take out of it. Encoders and decoders
are written apart in the source, and so they are here. The location is computed in 32 bits (`SLOTS_NUM_BUCKET *
loc.first + loc.second` with a `uint32_t` row) and widened afterwards.
-/

namespace Outback

/-- `RPCId`: the callbacks are registered in this order. -/
inductive RPCId where
  | get
  | put
  | update
  | delete
  | scan
  deriving DecidableEq, Repr

def RPCId.code : RPCId → U32
  | .get => 0
  | .put => 1
  | .update => 2
  | .delete => 3
  | .scan => 4

/-- A call of the client. -/
inductive RemoteCall where
  | search (key : U64)
  | put (key val : U64)
  | update (key val : U64)
  | remove (key : U64)
  | scan (key n : U64)

/-- What a callback decodes. -/
inductive CallbackArgs where
  | request (req : Request)
  | scan (key n : U64)

/-- What a client call finds: the coroutine, the indeterminate send buffer and header. -/
structure SendEnv where
  corId : U32
  sendBuf : List U8
  size : sendBuf.length = 64
  header : Header

/-- `SLOTS_NUM_BUCKET * loc.first + loc.second`. -/
def remoteNum (loc : Nat × Slot) : U64 := (4 * BitVec.ofNat 32 loc.1 + BitVec.ofNat 32 loc.2.val : U32).setWidth 64

namespace RemoteCall

def rpcId : RemoteCall → RPCId
  | .search _ => .get
  | .put _ _ => .put
  | .update _ _ => .update
  | .remove _ => .delete
  | .scan _ _ => .scan

/-- The `data` of `remote_search`, `remote_put`, `remote_update`, `remote_remove` and `remote_scan`. -/
def data (loc : Nat × Slot) : RemoteCall → List U8
  | .search key => serializeU64 (remoteNum loc) ++ serializeU64 key
  | .put key val => serializeU64 (remoteNum loc) ++ serializeU64 key ++ serializeU64 val
  | .update key val => serializeU64 (remoteNum loc) ++ serializeU64 key ++ serializeU64 val
  | .remove key => serializeU64 key
  | .scan key n => serializeU64 key ++ serializeU64 n

/-- The message that is sent. -/
def message (env : SendEnv) (loc : Nat × Slot) (call : RemoteCall) : Exec (List U8) := do
  let op ← RPCOp.setMsg env.header env.sendBuf
  let op := ((op.setType .req).setRpcId call.rpcId.code).setCorid env.corId
  return (op.addOpaque (call.data loc)).2.finalize.2

end RemoteCall

/-! ## The callbacks -/

/-- The key is read in a branch that is never taken. -/
def outbackGetArgs (args : List U8) : Exec CallbackArgs :=
  if args.length = 8 + 8 then do
    let loc ← interpretAs args 0
    let key ← interpretAs args 8
    return .request (.get loc.toNat key)
  else .error .assertFailed

def outbackPutArgs (args : List U8) : Exec CallbackArgs :=
  if args.length = 8 + 8 + 8 then do
    let loc ← interpretAs args 0
    let key ← interpretAs args 8
    let val ← interpretAs args 16
    return .request (.put loc.toNat key val)
  else .error .assertFailed

def outbackUpdateArgs (args : List U8) : Exec CallbackArgs :=
  if args.length = 8 + 8 + 8 then do
    let loc ← interpretAs args 0
    let key ← interpretAs args 8
    let val ← interpretAs args 16
    return .request (.update loc.toNat key val)
  else .error .assertFailed

def outbackRemoveArgs (args : List U8) : Exec CallbackArgs :=
  if args.length = 8 + 8 then do
    let loc ← interpretAs args 0
    let key ← interpretAs args 8
    return .request (.remove loc.toNat key)
  else .error .assertFailed

def outbackScanArgs (args : List U8) : Exec CallbackArgs :=
  if args.length = 8 + 8 then do
    let key ← interpretAs args 0
    let n ← interpretAs args 8
    return .scan key n
  else .error .assertFailed

/-- `callbacks.at(h.rpc_id)`; an id without a callback throws, and the handler asserts. -/
def callbackArgs (rpcId : BitVec 5) (args : List U8) : Exec CallbackArgs :=
  match rpcId.toNat with
  | 0 => outbackGetArgs args
  | 1 => outbackPutArgs args
  | 2 => outbackUpdateArgs args
  | 3 => outbackRemoveArgs args
  | 4 => outbackScanArgs args
  | _ => .error .assertFailed

/-- A received request, up to what its callback decodes. -/
def serve (curMsg : List U8) : Exec (Header × CallbackArgs) := do
  let (h, payload) ← parse curMsg
  if h.type = MsgType.req.code then
    let args ← callbackArgs h.rpcId payload
    return (h, args)
  else .error .assertFailed

end Outback
