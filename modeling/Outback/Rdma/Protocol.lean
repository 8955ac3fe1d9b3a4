import Outback.Rdma.Server

/-!
# `Rdma.Protocol` — many clients and one RDMA server (`outback/outback_client.hh`)

Each client process computes slot numbers from its own copy of the seeds and learns a new seed only from the reply to a
put of its own. Requests and replies are in flight until they are delivered, in any order; a message that is never
delivered is a lost one. The server handles one request at a time.

`written` and `expected` are ghosts: the value of the latest handled write of each key (or the bulk-loaded one), and what
it was when a request was handled.
-/

namespace Outback

/-- A call of a client. -/
inductive ClientCall where
  | search (key : U64)
  | put (key val : U64)
  | update (key val : U64)
  | remove (key : U64)
  /-- a delete that carries its slot number, as the callback decodes it -/
  | removeAt (key : U64)

/-- What is on the wire. `remote_remove` serializes the key alone. -/
inductive Message where
  | request (req : Request)
  | bareKey (key : U64)

namespace DataPlaneLudo

variable (H : HashFn)

/-- `SLOTS_NUM_BUCKET * loc.first + loc.second`, in the 32 bits of `loc.first`. -/
def remoteLoc (dp : DataPlaneLudo) (k : U64) : Nat := (4 * dp.row H k + (dp.slot H k).val) % 2 ^ 32

/-- What `remote_search`, `remote_put`, `remote_update` and `remote_remove` send. -/
def message (dp : DataPlaneLudo) : ClientCall → Message
  | .search key => .request (.get (dp.remoteLoc H key) key)
  | .put key val => .request (.put (dp.remoteLoc H key) key val)
  | .update key val => .request (.update (dp.remoteLoc H key) key val)
  | .remove key => .bareKey key
  | .removeAt key => .request (.remove (dp.remoteLoc H key) key)

/-- The end of `remote_put`: bit 8 of the reply announces a new seed for the row. -/
def processPutReply (dp : DataPlaneLudo) (key : U64) (reply : ReplyValue) : Exec DataPlaneLudo :=
  if reply.status then
    .ok (if reply.val &&& (1 <<< 8) ≠ 0 then dp.updateSeed (dp.row H key) ((reply.val &&& 0xFF).setWidth 8) else dp)
  else .error .exited

/-- The end of a call: only a put looks at its reply. -/
def processReply (dp : DataPlaneLudo) (req : Request) (reply : ReplyValue) : Exec DataPlaneLudo :=
  match req with
  | .put _ key _ => dp.processPutReply H key reply
  | _ => .ok dp

end DataPlaneLudo

/-- A reply in flight, with the request it answers. -/
structure Answer where
  client : Nat
  req : Request
  reply : ReplyValue
  expected : Option U64

structure RdmaNet where
  server : RdmaServer
  clients : Nat → DataPlaneLudo
  requests : List (Nat × Message)
  replies : List Answer
  written : U64 → Option U64

/-- The latest write of each key, once `req` is handled. -/
def Request.record (written : U64 → Option U64) : Request → U64 → Option U64
  | .get _ _ => written
  | .put _ key val => Function.update written key (some val)
  | .update _ key val => Function.update written key (some val)
  | .remove _ key => Function.update written key none

inductive NetStep where
  | send (client : Nat) (call : ClientCall)
  /-- the `i`-th request in flight reaches the server -/
  | handle (i : Nat)
  /-- the `i`-th reply in flight reaches its client -/
  | receive (i : Nat)

namespace RdmaNet

variable (H : HashFn)

/-- The server handles a message from `client`; the size assertion rejects a bare key. -/
def deliver (net : RdmaNet) (client : Nat) (msg : Message) : Exec RdmaNet :=
  match msg with
  | .bareKey _ => .error .assertFailed
  | .request req => do
      let (server, reply) ← net.server.handle H req
      return { net with
        server := server
        replies := net.replies ++ [⟨client, req, reply, net.written req.key⟩]
        written := req.record net.written }

def step (net : RdmaNet) : NetStep → Exec RdmaNet
  | .send client call =>
      .ok { net with requests := net.requests ++ [(client, (net.clients client).message H call)] }
  | .handle i =>
      match net.requests[i]? with
      | none => .ok net
      | some (client, msg) => RdmaNet.deliver H { net with requests := net.requests.eraseIdx i } client msg
  | .receive i =>
      match net.replies[i]? with
      | none => .ok net
      | some a => do
          let dp ← (net.clients a.client).processReply H a.req a.reply
          return { net with
            replies := net.replies.eraseIdx i
            clients := Function.update net.clients a.client dp }

end RdmaNet

/-- The bulk-loaded server and clients that have built the same index; `written` is the bulk-loaded table. -/
def RdmaServer.net (s : RdmaServer) (written : U64 → Option U64) : RdmaNet := ⟨s, fun _ => s.lookup, [], [], written⟩

end Outback
