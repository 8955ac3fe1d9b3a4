import Outback.Rdma.Wire
import Outback.Rdma.Protocol

/-!
# `Rdma.Correctness.WireAgree` — encoders against decoders

**`wireAgrees_iff`**: what a client encodes is what the matching callback decodes, whatever the buffers held, except for
a delete, which `remote_remove` sends without the location that `outback_remove_callback` reads, and for rows from
`2^30` on, whose location does not fit into 32 bits. `serve_message` is the connection to `Rdma.Protocol`: its messages
are these bytes as the callbacks decode them.
-/

namespace Outback

/-- The callback has decoded the call: the same key and value or length, and the location. -/
def RemoteCall.Decoded (loc : Nat × Slot) : RemoteCall → CallbackArgs → Prop
  | .search key, .request (.get num key') => key' = key ∧ locRow num = loc.1 ∧ locSlot num = loc.2
  | .put key val, .request (.put num key' val') =>
      key' = key ∧ val' = val ∧ locRow num = loc.1 ∧ locSlot num = loc.2
  | .update key val, .request (.update num key' val') =>
      key' = key ∧ val' = val ∧ locRow num = loc.1 ∧ locSlot num = loc.2
  | .remove key, .request (.remove num key') => key' = key ∧ locRow num = loc.1 ∧ locSlot num = loc.2
  | .scan key n, .scan key' n' => key' = key ∧ n' = n
  | _, _ => False

/-- The server receives the call as it was made; `rest` is what lies behind the message in the received block. -/
def WireAgrees (env : SendEnv) (rest : List U8) (loc : Nat × Slot) (call : RemoteCall) : Prop :=
  ∃ msg h args, call.message env loc = .ok msg ∧ serve (msg ++ rest) = .ok (h, args) ∧
    h.corId = env.corId.setWidth 7 ∧ call.Decoded loc args

section

variable {env : SendEnv} {loc : Nat × Slot}

theorem length_data_le (loc : Nat × Slot) (call : RemoteCall) : (call.data loc).length ≤ 24 := by
  cases call <;> simp [RemoteCall.data]

/-- The header of a request as the client sets it up. -/
def SendEnv.requestHeader (env : SendEnv) (id : RPCId) : Header :=
  { env.header with type := MsgType.req.code, rpcId := id.code.setWidth 5, corId := env.corId.setWidth 7 }

/-- Every call makes a message, and the callback of its id gets the data. -/
theorem serve_eq (env : SendEnv) (rest : List U8) (loc : Nat × Slot) (call : RemoteCall) :
    ∃ msg h, call.message env loc = .ok msg ∧ h.corId = env.corId.setWidth 7 ∧
      serve (msg ++ rest) = (callbackArgs (call.rpcId.code.setWidth 5) (call.data loc)).map (h, ·) := by
  have hlen := length_data_le loc call
  have hop : RPCOp.setMsg env.header env.sendBuf = .ok ⟨env.header, env.sendBuf, sizeofHeader⟩ := by
    unfold RPCOp.setMsg
    rw [if_neg (by rw [env.size]; decide)]
  obtain ⟨-, hframe⟩ := parse_finalize (call.data loc) rest hop (by rw [env.size]; unfold sizeofHeader; omega) (by omega)
    (env.requestHeader call.rpcId)
  have hmsg : call.message env loc = .ok (RPCOp.addOpaque ⟨env.requestHeader call.rpcId, env.sendBuf, sizeofHeader⟩
      (call.data loc)).2.finalize.2 := by
    unfold RemoteCall.message
    rw [hop]
    rfl
  refine ⟨_, ⟨MsgType.req.code, call.rpcId.code.setWidth 5, BitVec.ofNat 18 (call.data loc).length,
    env.corId.setWidth 7, env.header.padding⟩, hmsg, rfl, ?_⟩
  unfold serve
  rw [hframe, Exec.ok_bind]
  exact if_pos rfl

/-! ## The five callbacks on what was sent -/

theorem interpretAs_first {x : U64} {back : List U8} (h : back.length ≤ 16) :
    interpretAs (serializeU64 x ++ back) 0 = .ok x :=
  interpretAs_serialize [] x back rfl (by simp only [List.length_append, List.length_nil, length_serializeU64]; omega)

theorem interpretAs_second {x y : U64} {back : List U8} (h : back.length ≤ 8) :
    interpretAs (serializeU64 x ++ (serializeU64 y ++ back)) 8 = .ok y :=
  interpretAs_serialize (serializeU64 x) y back (by rw [length_serializeU64]; rfl)
    (by simp only [List.length_append, length_serializeU64]; omega)

theorem interpretAs_third {x y z : U64} :
    interpretAs (serializeU64 x ++ (serializeU64 y ++ serializeU64 z)) 16 = .ok z := by
  have hoff : (16 : U32).toNat = (serializeU64 x ++ serializeU64 y).length := by simp
  have h := interpretAs_serialize (serializeU64 x ++ serializeU64 y) z [] hoff (by simp)
  rwa [List.append_nil, List.append_assoc] at h

/-- What each callback decodes from the data of its call. -/
theorem callbackArgs_data (call : RemoteCall) : callbackArgs (call.rpcId.code.setWidth 5) (call.data loc) =
    match call with
    | .search key => .ok (.request (.get (remoteNum loc).toNat key))
    | .put key val => .ok (.request (.put (remoteNum loc).toNat key val))
    | .update key val => .ok (.request (.update (remoteNum loc).toNat key val))
    | .remove _ => .error .assertFailed
    | .scan key n => .ok (.scan key n) := by
  have hpair : ∀ x y : U64, interpretAs (serializeU64 x ++ serializeU64 y) 8 = .ok y := fun x y => by
    have hoff : (8 : U32).toNat = (serializeU64 x).length := by simp
    have h := interpretAs_serialize (serializeU64 x) y [] hoff (by simp)
    rwa [List.append_nil] at h
  cases call with
  | search key =>
      change outbackGetArgs (serializeU64 (remoteNum loc) ++ serializeU64 key) = _
      unfold outbackGetArgs
      rw [if_pos (by simp), interpretAs_first (by simp), hpair]
      rfl
  | put key val =>
      change outbackPutArgs (serializeU64 (remoteNum loc) ++ serializeU64 key ++ serializeU64 val) = _
      unfold outbackPutArgs
      rw [if_pos (by simp), List.append_assoc, interpretAs_first (by simp), interpretAs_second (by simp), interpretAs_third]
      rfl
  | update key val =>
      change outbackUpdateArgs (serializeU64 (remoteNum loc) ++ serializeU64 key ++ serializeU64 val) = _
      unfold outbackUpdateArgs
      rw [if_pos (by simp), List.append_assoc, interpretAs_first (by simp), interpretAs_second (by simp), interpretAs_third]
      rfl
  | remove key =>
      change outbackRemoveArgs (serializeU64 key) = _
      unfold outbackRemoveArgs
      rw [if_neg (by simp)]
  | scan key n =>
      change outbackScanArgs (serializeU64 key ++ serializeU64 n) = _
      unfold outbackScanArgs
      rw [if_pos (by simp), interpretAs_first (by simp), hpair]
      rfl

/-! ## The location -/

theorem remoteNum_toNat (loc : Nat × Slot) : (remoteNum loc).toNat = (4 * loc.1 + loc.2.val) % 2 ^ 32 := by
  have hslot := loc.2.isLt
  have hfour : (4 : U32).toNat = 4 := rfl
  unfold remoteNum
  rw [BitVec.toNat_setWidth, BitVec.toNat_add, BitVec.toNat_mul, BitVec.toNat_ofNat, BitVec.toNat_ofNat, hfour]
  omega

/-- The location survives exactly in the rows below `2^30`. -/
theorem locRow_remoteNum (loc : Nat × Slot) : (locRow (remoteNum loc).toNat = loc.1 ∧ locSlot (remoteNum loc).toNat = loc.2)
    ↔ loc.1 < 2 ^ 30 := by
  have hslot := loc.2.isLt
  rw [remoteNum_toNat]
  unfold locRow locSlot
  constructor
  · rintro ⟨hrow, -⟩
    omega
  · intro hrow
    rw [Nat.mod_eq_of_lt (by omega)]
    exact ⟨by omega, Fin.ext (by simp only; omega)⟩

/-- **Encoding and decoding.** For every call, location, coroutine and content of the buffers. -/
theorem wireAgrees_iff (env : SendEnv) (rest : List U8) (loc : Nat × Slot) (call : RemoteCall) :
    WireAgrees env rest loc call ↔ call.rpcId ≠ .delete ∧ (call.rpcId = .scan ∨ loc.1 < 2 ^ 30) := by
  obtain ⟨msg, h, hmsg, hcor, hserve⟩ := serve_eq env rest loc call
  rw [callbackArgs_data] at hserve
  have hagrees : ∀ {args}, serve (msg ++ rest) = .ok (h, args) →
      (WireAgrees env rest loc call ↔ call.Decoded loc args) := by
    intro args hargs
    constructor
    · rintro ⟨msg', h', args', hmsg', hserve', -, hdec⟩
      obtain rfl : msg = msg' := Except.ok.inj (hmsg.symm.trans hmsg')
      rw [hargs] at hserve'
      cases hserve'
      exact hdec
    · intro hdec
      exact ⟨msg, h, args, hmsg, hargs, hcor, hdec⟩
  cases call with
  | search key =>
      rw [hagrees hserve, ← locRow_remoteNum loc]
      simp [RemoteCall.Decoded, RemoteCall.rpcId]
  | put key val =>
      rw [hagrees hserve, ← locRow_remoteNum loc]
      simp [RemoteCall.Decoded, RemoteCall.rpcId]
  | update key val =>
      rw [hagrees hserve, ← locRow_remoteNum loc]
      simp [RemoteCall.Decoded, RemoteCall.rpcId]
  | remove key =>
      refine iff_of_false ?_ fun hc => hc.1 rfl
      rintro ⟨msg', h', args', hmsg', hserve', -⟩
      obtain rfl : msg = msg' := Except.ok.inj (hmsg.symm.trans hmsg')
      rw [hserve] at hserve'
      cases hserve'
  | scan key n =>
      rw [hagrees hserve]
      simp [RemoteCall.Decoded, RemoteCall.rpcId]

end

/-- A delete of any key at row 423. -/
theorem delete_disagrees : ∃ env rest, ¬ WireAgrees env rest (423, 0) (.remove 7) := by
  refine ⟨⟨1, List.replicate 64 0, by decide, ⟨0, 0, 0, 0, 0⟩⟩, List.replicate 3984 0, ?_⟩
  obtain ⟨msg, h, hmsg, -, hserve⟩ := serve_eq ⟨1, List.replicate 64 0, by decide, ⟨0, 0, 0, 0, 0⟩⟩
    (List.replicate 3984 0) (423, 0) (.remove 7)
  rw [callbackArgs_data] at hserve
  rintro ⟨msg', h', args', hmsg', hserve', -⟩
  obtain rfl : msg = msg' := Except.ok.inj (hmsg.symm.trans hmsg')
  rw [hserve] at hserve'
  cases hserve'

/-! ## The messages of `Rdma.Protocol` -/

namespace RemoteCall

def key : RemoteCall → U64
  | .search key | .put key _ | .update key _ | .remove key | .scan key _ => key

/-- The call as one of `Rdma.Protocol`, which has no scan. -/
def clientCall : RemoteCall → Option ClientCall
  | .search key => some (.search key)
  | .put key val => some (.put key val)
  | .update key val => some (.update key val)
  | .remove key => some (.remove key)
  | .scan _ _ => none

end RemoteCall

/-- What the server makes of a message of `Rdma.Protocol`. -/
def Message.served : Message → Exec CallbackArgs
  | .request req => .ok (.request req)
  | .bareKey _ => .error .assertFailed

/-- **The protocol's messages are these bytes.** A call of a client whose lookup unit is `dp` is served as the message
    that `Rdma.Protocol` puts in flight for it. -/
theorem serve_message (H : HashFn) (dp : DataPlaneLudo) (env : SendEnv) (rest : List U8) {call : RemoteCall}
    {cc : ClientCall} (hcall : call.clientCall = some cc) : ∃ msg,
    call.message env (dp.lookupSlot H call.key) = .ok msg ∧
      (serve (msg ++ rest)).map Prod.snd = (dp.message H cc).served := by
  obtain ⟨msg, h, hmsg, -, hserve⟩ := serve_eq env rest (dp.lookupSlot H call.key) call
  have hloc : (remoteNum (dp.lookupSlot H call.key)).toNat = dp.remoteLoc H call.key := remoteNum_toNat _
  refine ⟨msg, hmsg, ?_⟩
  rw [hserve, callbackArgs_data]
  cases call with
  | search key | put key val | update key val =>
      cases hcall
      simp only [hloc]
      rfl
  | remove key =>
      cases hcall
      rfl
  | scan key n => cases hcall

/-- A search of key 7. -/
theorem serve_message_seven : ∃ msg,
    (RemoteCall.search 7).message ⟨1, List.replicate 64 0, by decide, ⟨0, 0, 0, 0, 0⟩⟩
      ((DataPlaneLudo.mk 512 0 (fun _ => false) fun _ => 0).lookupSlot fastHasher64 7) = .ok msg ∧
    (serve (msg ++ [])).map Prod.snd
      = ((DataPlaneLudo.mk 512 0 (fun _ => false) fun _ => 0).message fastHasher64 (.search 7)).served :=
  @serve_message fastHasher64 (DataPlaneLudo.mk 512 0 (fun _ => false) fun _ => 0)
    ⟨1, List.replicate 64 0, by decide, ⟨0, 0, 0, 0, 0⟩⟩ [] (.search 7) (.search 7) rfl

end Outback
