import Outback.Lib.Bytes
import Outback.Slot

/-!
# `Rpc.Message` — framing of RPC messages (`xcomm/src/rpc/proto.hh`, `xcomm/src/rpc/op.hh`, `xutils/marshal.hh`)

A message is an eight-byte `Header`, four bit fields in a `u32` and four bytes of padding, followed by the payload. An
`RPCOp` fills a buffer behind the header; `finalize` writes the header over the front of it and cuts the message off
behind the payload. The receiver finds it at the front of a block of 4000 bytes (`parse`).

`parse_finalize`: what was added to a buffer with room for it is the payload that the receiver sees.
-/

namespace Outback

open Lib (bytes ofBytes slice write)

/-- `MsgType`. -/
inductive MsgType where
  | req
  | reply
  | connect
  deriving DecidableEq, Repr

def MsgType.code : MsgType → BitVec 2
  | .req => 1
  | .reply => 2
  | .connect => 3

/-- `Header`: the bit fields, and the bytes that its alignment adds. -/
structure Header where
  type : BitVec 2
  rpcId : BitVec 5
  payload : BitVec 18
  corId : BitVec 7
  padding : U32

/-- `sizeof(Header)`. -/
def sizeofHeader : Nat := 8

namespace Header

/-- The `u32` of the four fields, the first one lowest. -/
def word (h : Header) : Nat :=
  h.type.toNat + 2 ^ 2 * h.rpcId.toNat + 2 ^ 7 * h.payload.toNat + 2 ^ 25 * h.corId.toNat

def serialize (h : Header) : List U8 := bytes 4 h.word ++ bytes 4 h.padding.toNat

/-- `reinterpret_cast<Header*>`. -/
def ofMemory (mem : List U8) : Header where
  type := BitVec.ofNat 2 (ofBytes (slice mem 0 4))
  rpcId := BitVec.ofNat 5 (ofBytes (slice mem 0 4) / 2 ^ 2)
  payload := BitVec.ofNat 18 (ofBytes (slice mem 0 4) / 2 ^ 7)
  corId := BitVec.ofNat 7 (ofBytes (slice mem 0 4) / 2 ^ 25)
  padding := BitVec.ofNat 32 (ofBytes (slice mem 4 4))

end Header

/-- `Marshal<u64>::serialize_to`. -/
def serializeU64 (x : U64) : List U8 := bytes 8 x.toNat

@[simp] theorem length_serializeU64 (x : U64) : (serializeU64 x).length = 8 := Lib.length_bytes 8 _

/-! ## `RPCOp` -/

/-- `msg` is the memory of the buffer, `cur` is `cur_ptr - msg.mem_ptr`. -/
structure RPCOp where
  header : Header
  msg : List U8
  cur : Nat

namespace RPCOp

/-- `set_msg` on an op whose header is still indeterminate. -/
def setMsg (header : Header) (b : List U8) : Exec RPCOp :=
  if b.length < sizeofHeader then .error .assertFailed else .ok ⟨header, b, sizeofHeader⟩

def setType (op : RPCOp) (type : MsgType) : RPCOp := { op with header := { op.header with type := type.code } }

def setRpcId (op : RPCOp) (id : U32) : RPCOp := { op with header := { op.header with rpcId := id.setWidth 5 } }

def setCorid (op : RPCOp) (id : U32) : RPCOp := { op with header := { op.header with corId := id.setWidth 7 } }

/-- `add_opaque`, and `add_arg` of an object with these bytes. -/
def addOpaque (op : RPCOp) (data : List U8) : Bool × RPCOp :=
  if data.length + op.cur > op.msg.length then (false, op)
  else (true, { op with msg := write op.msg op.cur data, cur := op.cur + data.length })

/-- `finalize`: the message that is sent. -/
def finalize (op : RPCOp) : Header × List U8 :=
  let header := { op.header with payload := BitVec.ofNat 18 (op.cur - sizeofHeader) }
  (header, (write op.msg 0 header.serialize).take (header.payload.toNat + sizeofHeader))

end RPCOp

/-! ## The receiver -/

/-- The size of the block that `UDRecvTransport::cur_msg` gives. -/
def curMsgSize : Nat := 4000

/-- The header and the payload at the front of a received block. -/
def parse (curMsg : List U8) : Exec (Header × List U8) :=
  if curMsg.length < sizeofHeader then .error .assertFailed
  else
    let h := Header.ofMemory curMsg
    if h.payload.toNat + sizeofHeader ≤ curMsg.length then .ok (h, slice curMsg sizeofHeader h.payload.toNat)
    else .error .assertFailed

/-- `MemBlock::interpret_as<u64>(offset)`, dereferenced: a null pointer where fewer than eight bytes are left. -/
def interpretAs (mem : List U8) (offset : U32) : Exec U64 :=
  if (BitVec.ofNat 32 mem.length - offset).toNat < 8 then .error .danglingPointer
  else .ok (BitVec.ofNat 64 (ofBytes (slice mem offset.toNat 8)))

/-! ## Round trips -/

theorem Header.length_serialize (h : Header) : h.serialize.length = sizeofHeader := by
  unfold Header.serialize
  rw [List.length_append, Lib.length_bytes, Lib.length_bytes]
  rfl

/-- The bit fields do not run into each other. -/
theorem Header.ofMemory_serialize (h : Header) (rest : List U8) : Header.ofMemory (h.serialize ++ rest) = h := by
  have hword : ofBytes (slice (h.serialize ++ rest) 0 4) = h.word := by
    have ht := h.type.isLt
    have hr := h.rpcId.isLt
    have hp := h.payload.isLt
    have hc := h.corId.isLt
    unfold Header.serialize
    rw [List.append_assoc, Lib.slice_append_left (Lib.length_bytes 4 _).symm, Lib.ofBytes_bytes]
    refine Nat.mod_eq_of_lt ?_
    unfold Header.word
    omega
  have hpad : ofBytes (slice (h.serialize ++ rest) 4 4) = h.padding.toNat := by
    have hlt := h.padding.isLt
    unfold Header.serialize
    rw [List.append_assoc, Lib.slice_append_at (Lib.length_bytes 4 _).symm,
      Lib.slice_append_left (Lib.length_bytes 4 _).symm, Lib.ofBytes_bytes]
    exact Nat.mod_eq_of_lt (by omega)
  obtain ⟨type, rpcId, payload, corId, padding⟩ := h
  have hval : (⟨type, rpcId, payload, corId, padding⟩ : Header).word
      = type.toNat + 2 ^ 2 * rpcId.toNat + 2 ^ 7 * payload.toNat + 2 ^ 25 * corId.toNat := rfl
  have ht := type.isLt
  have hr := rpcId.isLt
  have hp := payload.isLt
  have hc := corId.isLt
  have hd := padding.isLt
  unfold Header.ofMemory
  rw [hword, hpad, hval]
  simp only [Header.mk.injEq]
  refine ⟨?_, ?_, ?_, ?_, ?_⟩ <;> apply BitVec.eq_of_toNat_eq <;> rw [BitVec.toNat_ofNat] <;> omega

/-- A message of a header and the payload it announces is received as such. -/
theorem parse_message {h : Header} {data : List U8} (rest : List U8) (hp : h.payload.toNat = data.length) :
    parse (h.serialize ++ data ++ rest) = .ok (h, data) := by
  have hlen : (h.serialize ++ data ++ rest).length = sizeofHeader + data.length + rest.length := by
    rw [List.length_append, List.length_append, h.length_serialize]
  have hmem : Header.ofMemory (h.serialize ++ data ++ rest) = h := by
    rw [List.append_assoc]
    exact h.ofMemory_serialize _
  have hslice : slice (h.serialize ++ data ++ rest) sizeofHeader data.length = data := by
    rw [List.append_assoc, Lib.slice_append_at h.length_serialize.symm, Lib.slice_append_left rfl]
  unfold parse
  rw [if_neg (by omega)]
  simp only [hmem, hp, hslice]
  rw [if_pos (by omega)]

/-- An op over a buffer of `size` bytes: behind the place of the header stand the bytes `data`, up to `cur_ptr`. -/
def RPCOp.Holds (op : RPCOp) (size : Nat) (data : List U8) : Prop :=
  ∃ front back, op.msg = front ++ data ++ back ∧ front.length = sizeofHeader ∧ op.cur = sizeofHeader + data.length ∧
    sizeofHeader + data.length + back.length = size

theorem RPCOp.setMsg_ok (header : Header) {b : List U8} (h : sizeofHeader ≤ b.length) :
    RPCOp.setMsg header b = .ok ⟨header, b, sizeofHeader⟩ := by
  unfold RPCOp.setMsg
  rw [if_neg (by omega)]

/-- A fresh op holds nothing. -/
theorem RPCOp.holds_setMsg (header : Header) {b : List U8} (h : sizeofHeader ≤ b.length) :
    RPCOp.Holds ⟨header, b, sizeofHeader⟩ b.length [] := by
  refine ⟨b.take sizeofHeader, b.drop sizeofHeader, ?_, ?_, rfl, ?_⟩
  · rw [List.append_nil, List.take_append_drop]
  · rw [List.length_take]
    omega
  · rw [List.length_drop, List.length_nil]
    omega

/-- The setters leave the buffer alone. -/
theorem RPCOp.Holds.header {op : RPCOp} {size : Nat} {data : List U8} (h : op.Holds size data) (hd : Header) :
    RPCOp.Holds { op with header := hd } size data := h

/-- What does not fit is refused. -/
theorem RPCOp.addOpaque_refused {op : RPCOp} {size : Nat} {held : List U8} (h : op.Holds size held) (data : List U8) :
    (op.addOpaque data).1 = false ↔ size < sizeofHeader + held.length + data.length := by
  obtain ⟨front, back, hmsg, hfront, hcur, hsize⟩ := h
  unfold RPCOp.addOpaque
  rw [hmsg, hcur, List.length_append, List.length_append, hfront]
  by_cases hfull : data.length + (sizeofHeader + held.length) > sizeofHeader + held.length + back.length
  · rw [if_pos hfull]
    simp only [true_iff]
    omega
  · rw [if_neg hfull]
    simp only [Bool.true_eq_false, false_iff]
    omega

/-- What fits goes behind what is there. -/
theorem RPCOp.Holds.addOpaque {op : RPCOp} {size : Nat} {held data : List U8} (h : op.Holds size held)
    (hfits : (op.addOpaque data).1 = true) : (op.addOpaque data).2.Holds size (held ++ data) := by
  have hroom := mt (RPCOp.addOpaque_refused h data).mpr (by rw [hfits]; decide)
  obtain ⟨front, back, hmsg, hfront, hcur, hsize⟩ := h
  have hlen : (front ++ held).length = op.cur := by rw [List.length_append, hfront, hcur]
  have hnot : ¬ data.length + op.cur > op.msg.length := by
    rw [hmsg, List.length_append, hlen]
    omega
  unfold RPCOp.addOpaque
  rw [if_neg hnot]
  refine ⟨front, back.drop data.length, ?_, hfront, ?_, ?_⟩
  · show write op.msg op.cur data = _
    rw [hmsg, ← Nat.add_zero op.cur, Lib.write_append_right hlen.symm 0, Lib.write_zero]
    simp only [List.append_assoc]
  · show op.cur + data.length = _
    rw [hcur, List.length_append]
    omega
  · rw [List.length_append, List.length_drop]
    omega

/-- **The message.** The header announces what the op holds, and the message ends behind it. -/
theorem RPCOp.Holds.finalize {op : RPCOp} {size : Nat} {data : List U8} (h : op.Holds size data)
    (hsmall : data.length < 2 ^ 18) : ∃ hd : Header, hd = { op.header with payload := BitVec.ofNat 18 data.length } ∧
      hd.payload.toNat = data.length ∧ op.finalize.2 = hd.serialize ++ data := by
  obtain ⟨front, back, hmsg, hfront, hcur, -⟩ := h
  have hpay : (BitVec.ofNat 18 data.length).toNat = data.length := by
    rw [BitVec.toNat_ofNat]
    exact Nat.mod_eq_of_lt hsmall
  refine ⟨_, rfl, hpay, ?_⟩
  unfold RPCOp.finalize
  simp only [hcur, Nat.add_sub_cancel_left, hmsg, hpay]
  rw [List.append_assoc, Lib.write_append_left ((Header.length_serialize _).trans hfront.symm), ← List.append_assoc]
  refine List.take_left' ?_
  rw [List.length_append, Header.length_serialize]
  omega

/-- **Framing.** A payload that fits behind the header is what the receiver finds, whatever the buffers held before. -/
theorem parse_finalize {op : RPCOp} {header : Header} {b : List U8} (data rest : List U8)
    (hop : RPCOp.setMsg header b = .ok op) (hfits : sizeofHeader + data.length ≤ b.length) (hsmall : data.length < 2 ^ 18)
    (h' : Header) : (RPCOp.addOpaque { op with header := h' } data).1 = true ∧
      parse ((RPCOp.addOpaque { op with header := h' } data).2.finalize.2 ++ rest)
        = .ok ({ h' with payload := BitVec.ofNat 18 data.length }, data) := by
  rw [RPCOp.setMsg_ok header (by omega)] at hop
  obtain rfl := Except.ok.inj hop
  have hempty := (RPCOp.holds_setMsg header (b := b) (by omega)).header h'
  have hadded : (RPCOp.addOpaque ⟨h', b, sizeofHeader⟩ data).1 = true := by
    rw [← Bool.not_eq_false, RPCOp.addOpaque_refused hempty, List.length_nil]
    omega
  refine ⟨hadded, ?_⟩
  have hheader : (RPCOp.addOpaque ⟨h', b, sizeofHeader⟩ data).2.header = h' := by
    unfold RPCOp.addOpaque
    split <;> rfl
  obtain ⟨hd, rfl, hlen, hmsg⟩ := (hempty.addOpaque hadded).finalize (by simpa using hsmall)
  rw [hmsg, parse_message rest hlen, hheader]
  rfl

/-- Eight bytes that were serialized at an offset are read back. -/
theorem interpretAs_serialize (front : List U8) (x : U64) (back : List U8) {offset : U32} (hoff : offset.toNat = front.length)
    (hlen : (front ++ (serializeU64 x ++ back)).length < 2 ^ 32) :
    interpretAs (front ++ (serializeU64 x ++ back)) offset = .ok x := by
  have hx := x.isLt
  have hslice : slice (front ++ (serializeU64 x ++ back)) offset.toNat 8 = serializeU64 x := by
    rw [hoff, Lib.slice_append_at rfl, Lib.slice_append_left (length_serializeU64 x).symm]
  have hval : BitVec.ofNat 64 (ofBytes (serializeU64 x)) = x := by
    unfold serializeU64
    rw [Lib.ofBytes_bytes, Nat.mod_eq_of_lt (by omega), BitVec.ofNat_toNat, BitVec.setWidth_eq]
  have hroom : ¬ (BitVec.ofNat 32 (front ++ (serializeU64 x ++ back)).length - offset).toNat < 8 := by
    rw [BitVec.toNat_sub, BitVec.toNat_ofNat, Nat.mod_eq_of_lt hlen, hoff]
    simp only [List.length_append, length_serializeU64] at hlen ⊢
    omega
  unfold interpretAs
  rw [if_neg hroom, hslice, hval]

end Outback
