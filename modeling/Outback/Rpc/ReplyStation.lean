import Outback.Rpc.Message
import Outback.Lib.Reach

/-!
# `Rpc.ReplyStation` — matching replies to coroutines (`xcomm/src/rpc/reply_station.hh`, `xcomm/src/rpc/mod.hh`)

A client process runs up to 128 coroutines over one `RPCCore`. A request registers the coroutine's buffer in the
`ReplyStation` under the seven-bit `cor_id` of its header (`RPCOp::add_one_reply`), the server copies the id into its
reply, and the poll future stores the reply through the entry and puts the coroutine back into the scheduler.

`RpcClient` is such a process together with the messages on their way to it, in whatever order they are polled. `log`
is a ghost: what was requested, stored and added back, in order.
-/

namespace Outback

abbrev Memory := Nat → U8

/-- `memcpy(ptr, data, data.size())`. -/
def Memory.copy (mem : Memory) (ptr : Nat) (data : List U8) : Memory :=
  fun a => if ptr ≤ a then data.getD (a - ptr) (mem a) else mem a

/-- `r2::MemBlock`. -/
structure MemBlock where
  memPtr : Nat
  sz : Nat
  deriving DecidableEq, Repr

structure ReplyEntry where
  pendingReplies : Nat
  replyBuf : MemBlock
  curPtr : Nat

/-- `ReplyEntry(reply_buf)`. -/
def ReplyEntry.ofBuf (replyBuf : MemBlock) : ReplyEntry := ⟨1, replyBuf, replyBuf.memPtr⟩

/-- The entries are a vector of `numCors` elements. -/
structure ReplyStation where
  numCors : Nat
  corReplies : Nat → ReplyEntry

namespace ReplyStation

/-- `ReplyStation(num_cors)`: default entries, with nothing pending and an indeterminate `cur_ptr`. -/
def init (numCors : Nat) (curPtr : Nat → Nat) : ReplyStation := ⟨numCors, fun c => ⟨0, ⟨0, 0⟩, curPtr c⟩⟩

def set (s : ReplyStation) (corId : Nat) (r : ReplyEntry) : ReplyStation :=
  { s with corReplies := Function.update s.corReplies corId r }

def addPendingReply (s : ReplyStation) (corId : Nat) (reply : ReplyEntry) : Exec (Bool × ReplyStation) :=
  if ¬ corId < s.numCors then .error .assertFailed
  else if 0 < (s.corReplies corId).pendingReplies then .ok (false, s)
  else .ok (true, s.set corId reply)

/-- `cor_ready`; an id beyond the vector is an access outside of it. -/
def corReady (s : ReplyStation) (corId : Nat) : Exec Bool :=
  if corId < s.numCors then .ok ((s.corReplies corId).pendingReplies == 0) else .error .danglingPointer

def appendReply (s : ReplyStation) (mem : Memory) (corId : Nat) (payload : List U8) :
    Exec (Bool × ReplyStation × Memory) := do
  if ← s.corReady corId then return (false, s, mem)
  else
    let r := s.corReplies corId
    if r.curPtr + payload.length ≤ r.replyBuf.memPtr + r.replyBuf.sz then
      return (true, s.set corId ⟨r.pendingReplies - 1, r.replyBuf, r.curPtr + payload.length⟩,
        mem.copy r.curPtr payload)
    else .error .assertFailed

end ReplyStation

/-- What happens to a coroutine. -/
inductive CorEvent where
  | requested (buf : MemBlock) (reply : List U8)
  | stored (ptr : Nat) (data : List U8)
  | addedBack
  deriving DecidableEq

/-- One turn of the poll loop, with what it does to which coroutine. A client registers no callback, so a request makes
    `callbacks.at` throw. -/
def pollMessage (s : ReplyStation) (mem : Memory) (curMsg : List U8) :
    Exec (ReplyStation × Memory × List (Nat × CorEvent)) := do
  let (h, payload) ← parse curMsg
  if h.type = MsgType.reply.code then
    let ptr := (s.corReplies h.corId.toNat).curPtr
    let (ret, s, mem) ← s.appendReply mem h.corId.toNat payload
    if ret = false then .error .assertFailed
    else if ← s.corReady h.corId.toNat then
      return (s, mem, [(h.corId.toNat, .stored ptr payload), (h.corId.toNat, .addedBack)])
    else return (s, mem, [(h.corId.toNat, .stored ptr payload)])
  else if h.type = MsgType.connect.code then return (s, mem, [])
  else .error .assertFailed

/-! ## The server's side -/

/-- What a callback finds when it replies, and what lies behind the message in the block that the client receives. -/
structure ReplyEnv where
  header : Header
  replyBuf : List U8
  rest : List U8

/-- The end of every callback: the reply, under the `cor_id` of the request. -/
def replyMessage (env : ReplyEnv) (corId : BitVec 7) (reply : List U8) : Exec (List U8) := do
  let op ← RPCOp.setMsg env.header env.replyBuf
  match (op.setType .reply).addOpaque reply with
  | (true, op) => return (op.setCorid (corId.setWidth 32)).finalize.2
  | (false, _) => .error .assertFailed

/-! ## A client process and the messages on their way to it -/

/-- A reply on its way: the block that `cur_msg` will give, and the request it answers. -/
structure InFlight where
  curMsg : List U8
  cor : Nat
  buf : MemBlock
  reply : List U8

structure RpcClient where
  station : ReplyStation
  mem : Memory
  inFlight : List InFlight
  log : List (Nat × CorEvent)

def RpcClient.init (numCors : Nat) (curPtr : Nat → Nat) (mem : Memory) : RpcClient :=
  ⟨.init numCors curPtr, mem, [], []⟩

inductive RpcStep where
  /-- coroutine `cor` sends a request with this buffer; the server's callback answers `reply` -/
  | request (cor : Nat) (buf : MemBlock) (reply : List U8) (env : ReplyEnv)
  /-- the poll future gets to the `i`-th message in flight -/
  | poll (i : Nat)

namespace RpcClient

def step (w : RpcClient) : RpcStep → Exec RpcClient
  | .request cor buf reply env => do
      -- `set_corid` first: the entry is registered under the id of the header
      let corId := BitVec.ofNat 7 cor
      let (_, station) ← w.station.addPendingReply corId.toNat (.ofBuf buf)
      let msg ← replyMessage env corId reply
      return { w with
        station := station
        inFlight := w.inFlight ++ [⟨msg ++ env.rest, cor, buf, reply⟩]
        log := w.log ++ [(cor, .requested buf reply)] }
  | .poll i =>
      match w.inFlight[i]? with
      | none => .ok w
      | some m => do
          let (station, mem, events) ← pollMessage w.station w.mem m.curMsg
          return ⟨station, mem, w.inFlight.eraseIdx i, w.log ++ events⟩

/-- A request of a coroutine of the station that has none outstanding, with room for the reply in its buffer; the reply
    fits into the server's buffer and the received block is `cur_msg`'s. -/
def Allowed (w : RpcClient) : RpcStep → Prop
  | .request cor buf reply env =>
      cor < w.station.numCors ∧ (∀ m ∈ w.inFlight, m.cor ≠ cor) ∧ reply.length ≤ buf.sz ∧
        sizeofHeader + reply.length ≤ env.replyBuf.length ∧ sizeofHeader + reply.length + env.rest.length = curMsgSize
  | .poll i => i < w.inFlight.length

instance (w : RpcClient) (a : RpcStep) : Decidable (w.Allowed a) := by
  cases a <;> unfold Allowed <;> infer_instance

/-- What happened to one coroutine, in order. -/
def history (w : RpcClient) (c : Nat) : List CorEvent := (w.log.filter (·.1 = c)).map Prod.snd

end RpcClient

end Outback
