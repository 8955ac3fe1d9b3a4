import Outback.Rpc.Message

/-!
# `Rpc.Correctness.Framing` — a message with any number of additions, up to the call a receiver makes

A sender calls `add_arg` and `add_opaque` any number of times and usually ignores what they return: an addition that
does not fit is dropped and the next one, if it is shorter, may still fit. `RPCOp.addAll` makes a sequence of such calls
and collects the bytes of those that returned true; `Holds.addAll` says that the buffer holds these bytes and no others.

`RPCCore` parses a message in two places, `recv_event_loop` and the poll future. `framing_round_trip` is the round trip
from the additions to what either of them passes on.
-/

namespace Outback

/-! ## The sender -/

/-- `add_arg` of an object with these bytes: the check and the store of `add_opaque`. -/
def RPCOp.addArg (op : RPCOp) (object : List U8) : Bool × RPCOp := op.addOpaque object

/-- A call that appends to a message. -/
inductive Addition where
  | arg (object : List U8)
  | text (data : List U8)

def Addition.data : Addition → List U8
  | .arg object => object
  | .text data => data

namespace RPCOp

def add (op : RPCOp) : Addition → Bool × RPCOp
  | .arg object => op.addArg object
  | .text data => op.addOpaque data

/-- A sequence of additions: the bytes of those that returned true, and the op behind them. -/
def addAll (op : RPCOp) : List Addition → List U8 × RPCOp
  | [] => ([], op)
  | a :: adds =>
      let r := op.add a
      let rest := r.2.addAll adds
      (if r.1 then a.data ++ rest.1 else rest.1, rest.2)

/-- An op on which `set_msg`, one of `set_req`, `set_reply` and `set_connect`, `set_rpc_id` and `set_corid` were called. -/
def start (header : Header) (b : List U8) (type : MsgType) (rpcId corId : U32) : Exec RPCOp := do
  let op ← setMsg header b
  return ((op.setType type).setRpcId rpcId).setCorid corId

theorem add_eq (op : RPCOp) (a : Addition) : op.add a = op.addOpaque a.data := by
  cases a with
  | arg object => rfl
  | text data => rfl

variable {op : RPCOp} {size : Nat} {held : List U8}

/-- An addition that does not fit leaves the op as it is. -/
theorem add_refused (a : Addition) (h : (op.add a).1 = false) : (op.add a).2 = op := by
  rw [add_eq] at h ⊢
  unfold addOpaque at h ⊢
  by_cases hfull : a.data.length + op.cur > op.msg.length
  · rw [if_pos hfull]
  · rw [if_neg hfull] at h
    cases h

/-- No addition touches the header. -/
theorem add_header (a : Addition) : (op.add a).2.header = op.header := by
  rw [add_eq]
  unfold addOpaque
  split
  · rfl
  · rfl

theorem addAll_header (adds : List Addition) : (op.addAll adds).2.header = op.header := by
  induction adds generalizing op with
  | nil => rfl
  | cons a adds ih =>
      show ((op.add a).2.addAll adds).2.header = op.header
      rw [ih, add_header]

/-- **The run of additions.** Behind them the buffer holds what it held, and the accepted bytes in order. -/
theorem Holds.addAll (adds : List Addition) (h : op.Holds size held) :
    (op.addAll adds).2.Holds size (held ++ (op.addAll adds).1) := by
  induction adds generalizing op held with
  | nil =>
      show op.Holds size (held ++ [])
      rwa [List.append_nil]
  | cons a adds ih =>
      show ((op.add a).2.addAll adds).2.Holds size
        (held ++ if (op.add a).1 then a.data ++ ((op.add a).2.addAll adds).1 else ((op.add a).2.addAll adds).1)
      by_cases hfits : (op.add a).1 = true
      · have hstep : (op.add a).2.Holds size (held ++ a.data) := by
          rw [add_eq] at hfits ⊢
          exact h.addOpaque hfits
        rw [if_pos hfits, ← List.append_assoc]
        exact ih hstep
      · rw [if_neg hfits]
        rw [Bool.not_eq_true] at hfits
        rw [add_refused a hfits]
        exact ih h

/-- What is held fits the buffer. -/
theorem Holds.length_le (h : op.Holds size held) : sizeofHeader + held.length ≤ size := by
  obtain ⟨front, back, -, -, -, hsize⟩ := h
  omega

end RPCOp

/-! ## The receivers -/

/-- What a receive loop hands a message to. -/
inductive PassedOn where
  | callback (h : Header) (args : List U8)
  | appendReply (corId : BitVec 7) (payload : List U8)
  | addNewSession (payload : List U8)

/-- The `switch` over the type of a parsed message. -/
def passOn (h : Header) (payload : List U8) : Exec PassedOn :=
  if h.type = MsgType.req.code then .ok (.callback h payload)
  else if h.type = MsgType.reply.code then .ok (.appendReply h.corId payload)
  else if h.type = MsgType.connect.code then .ok (.addNewSession payload)
  -- "not implemented"
  else .error .assertFailed

/-- One message in `recv_event_loop`, up to the call with it. -/
def recvEventLoop (curMsg : List U8) : Exec PassedOn := do
  let r ← parse curMsg
  passOn r.1 r.2

/-- One message in the poll future of `reg_poll_future`, up to the call with it. -/
def pollFuture (curMsg : List U8) : Exec PassedOn := do
  let r ← parse curMsg
  passOn r.1 r.2

/-- What the type, the ids and the payload of a message say about the call. -/
def PassedOn.Agrees (type : MsgType) (rpcId corId : U32) (payload : List U8) : PassedOn → Prop
  | .callback h args => type = .req ∧ h.type = type.code ∧ h.rpcId.toNat = rpcId.toNat ∧ h.corId.toNat = corId.toNat ∧
      args = payload
  | .appendReply cor data => type = .reply ∧ cor.toNat = corId.toNat ∧ data = payload
  | .addNewSession data => type = .connect ∧ data = payload

theorem passOn_agrees {type : MsgType} {rpcId corId : U32} {h : Header} (payload : List U8) (ht : h.type = type.code)
    (hr : h.rpcId.toNat = rpcId.toNat) (hc : h.corId.toNat = corId.toNat) :
    ∃ p, passOn h payload = .ok p ∧ p.Agrees type rpcId corId payload := by
  unfold passOn
  rw [ht]
  cases type with
  | req => exact ⟨_, rfl, rfl, ht, hr, hc, rfl⟩
  | reply => exact ⟨_, rfl, rfl, hc, rfl⟩
  | connect => exact ⟨_, rfl, rfl, rfl⟩

/-! ## The round trip -/

/-- **Framing round trip.** On a buffer of 8 to `2^18 - 1` bytes, an addition returns false exactly when it exceeds the
    buffer and then changes nothing; the finalized message, at the front of whatever block, passes both size assertions and is
    parsed with the same type and ids, and either receiver passes on the concatenation of the additions that returned true. -/
theorem framing_round_trip (header : Header) (b : List U8) (hmin : sizeofHeader ≤ b.length) (hmax : b.length < 2 ^ 18)
    (type : MsgType) (rpcId corId : U32) (hrpc : rpcId.toNat < 32) (hcor : corId.toNat < 128) (adds : List Addition) :
    ∃ op, RPCOp.start header b type rpcId corId = .ok op ∧
      (∀ (earlier : List Addition) a,
        (((op.addAll earlier).2.add a).1 = false ↔
          b.length < sizeofHeader + (op.addAll earlier).1.length + a.data.length) ∧
        (((op.addAll earlier).2.add a).1 = false → ((op.addAll earlier).2.add a).2 = (op.addAll earlier).2)) ∧
      ∀ rest, ∃ h, parse ((op.addAll adds).2.finalize.2 ++ rest) = .ok (h, (op.addAll adds).1) ∧
        h.type = type.code ∧ h.rpcId.toNat = rpcId.toNat ∧ h.corId.toNat = corId.toNat ∧
        sizeofHeader ≤ (op.addAll adds).2.finalize.2.length ∧
        h.payload.toNat + sizeofHeader ≤ (op.addAll adds).2.finalize.2.length ∧
        (∃ p, recvEventLoop ((op.addAll adds).2.finalize.2 ++ rest) = .ok p ∧
          p.Agrees type rpcId corId (op.addAll adds).1) ∧
        ∃ p, pollFuture ((op.addAll adds).2.finalize.2 ++ rest) = .ok p ∧
          p.Agrees type rpcId corId (op.addAll adds).1 := by
  have hstart : ∃ op, RPCOp.start header b type rpcId corId = .ok op ∧ op.Holds b.length [] ∧
      op.header.type = type.code ∧ op.header.rpcId = rpcId.setWidth 5 ∧ op.header.corId = corId.setWidth 7 := by
    unfold RPCOp.start
    rw [RPCOp.setMsg_ok header hmin]
    exact ⟨_, rfl, (RPCOp.holds_setMsg header hmin).header _, rfl, rfl, rfl⟩
  obtain ⟨op, hop, hempty, htype, hrpcId, hcorId⟩ := hstart
  refine ⟨op, hop, fun earlier a => ⟨?_, RPCOp.add_refused a⟩, fun rest => ?_⟩
  · rw [RPCOp.add_eq, RPCOp.addOpaque_refused (hempty.addAll earlier), List.nil_append]
  · have hheld := hempty.addAll adds
    rw [List.nil_append] at hheld
    have hle := hheld.length_le
    obtain ⟨h, hh, hlen, hmsg⟩ := hheld.finalize (by omega)
    rw [RPCOp.addAll_header] at hh
    have ht : h.type = type.code := by rw [hh, ← htype]
    have hr : h.rpcId.toNat = rpcId.toNat := by
      rw [hh]
      show op.header.rpcId.toNat = _
      rw [hrpcId, BitVec.toNat_setWidth, Nat.mod_eq_of_lt hrpc]
    have hc : h.corId.toNat = corId.toNat := by
      rw [hh]
      show op.header.corId.toNat = _
      rw [hcorId, BitVec.toNat_setWidth, Nat.mod_eq_of_lt hcor]
    have hparse := parse_message rest hlen
    have hsize : (h.serialize ++ (op.addAll adds).1).length = sizeofHeader + (op.addAll adds).1.length := by
      rw [List.length_append, h.length_serialize]
    obtain ⟨p, hp, hagrees⟩ := passOn_agrees (op.addAll adds).1 ht hr hc
    rw [hmsg]
    refine ⟨h, hparse, ht, hr, hc, by omega, by omega, ⟨p, ?_, hagrees⟩, p, ?_, hagrees⟩
    · unfold recvEventLoop
      rw [hparse]
      exact hp
    · unfold pollFuture
      rw [hparse]
      exact hp

/-- Twelve bytes take an addition of three bytes, refuse one of two and take one of one byte. -/
theorem framing_round_trip_twelve : ∃ op, RPCOp.start ⟨0, 0, 0, 0, 0⟩ (List.replicate 12 0) .req 3 5 = .ok op ∧
    (op.addAll [.arg [1, 2, 3], .text [4, 5], .arg [6]]).1 = [1, 2, 3, 6] ∧
    ∃ h, parse (op.addAll [.arg [1, 2, 3], .text [4, 5], .arg [6]]).2.finalize.2 = .ok (h, [1, 2, 3, 6]) ∧
      h.rpcId.toNat = 3 ∧ h.corId.toNat = 5 := by
  obtain ⟨op, hop, -, hround⟩ := framing_round_trip ⟨0, 0, 0, 0, 0⟩ (List.replicate 12 0) (by decide) (by decide) .req 3 5
    (by decide) (by decide) [.arg [1, 2, 3], .text [4, 5], .arg [6]]
  obtain ⟨h, hparse, -, hr, hc, -⟩ := hround []
  have hop' : op = ⟨⟨1, 3, 0, 5, 0⟩, List.replicate 12 0, 8⟩ := by
    cases hop
    rfl
  subst hop'
  rw [List.append_nil] at hparse
  exact ⟨_, hop, rfl, h, hparse, hr, hc⟩

end Outback
