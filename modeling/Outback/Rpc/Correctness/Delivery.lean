import Mathlib.Data.List.InsertIdx
import Outback.Rpc.ReplyStation

/-!
# `Rpc.Correctness.Delivery` — every reply reaches the coroutine that asked for it, once

**`delivery_of_run`**: with at most 128 coroutines, each with at most one request outstanding and a buffer that its reply
fits into, in every order of requests and polls: no assertion fails, and what happens is what the requests and polls of the
run call for. Each poll stores one reply, in the buffer of the request that it answers, and adds that coroutine back once;
memory is written by nothing else.

What a run calls for (`dueEvents`) is said without the station, its entries and ids: the requests wait in line, and a poll
takes one of them out. The invariant `StationInv` says what the seven-bit ids and the pending counters amount to: a message
in flight finds the entry of the request it answers, and an entry that is not waited for has nothing pending.
-/

namespace Outback

/-! ## What the steps of a run call for -/

/-- A request, with the reply that the server's callback gives. -/
structure RpcRequest where
  cor : Nat
  buf : MemBlock
  reply : List U8

namespace RpcStep

/-- The requests that wait for their replies, behind a step. -/
def leaves (waiting : List RpcRequest) : RpcStep → List RpcRequest
  | .request cor buf reply _ => waiting ++ [⟨cor, buf, reply⟩]
  | .poll i => waiting.eraseIdx i

/-- What has to happen in a step. -/
def due (waiting : List RpcRequest) : RpcStep → List (Nat × CorEvent)
  | .request cor buf reply _ => [(cor, .requested buf reply)]
  | .poll i =>
      match waiting[i]? with
      | none => []
      | some r => [(r.cor, .stored r.buf.memPtr r.reply), (r.cor, .addedBack)]

/-- The request that coroutine `c` makes in a step. -/
def requestOf (c : Nat) : RpcStep → Option (MemBlock × List U8)
  | .request cor buf reply _ => if cor = c then some (buf, reply) else none
  | .poll _ => none

end RpcStep

/-- The requests of a run that no poll has answered. -/
def unanswered (l : List RpcStep) : List RpcRequest := l.foldl RpcStep.leaves []

/-- What has to happen in a run that begins with `waiting`. -/
def dueEvents : List RpcRequest → List RpcStep → List (Nat × CorEvent)
  | _, [] => []
  | waiting, a :: l => a.due waiting ++ dueEvents (a.leaves waiting) l

/-- The requests of coroutine `c` among some. -/
def ofCor (c : Nat) (rs : List RpcRequest) : List (MemBlock × List U8) :=
  (rs.filter (·.cor = c)).map fun r => (r.buf, r.reply)

/-- What one answered request does to its coroutine. -/
def round (p : MemBlock × List U8) : List CorEvent := [.requested p.1 p.2, .stored p.1.memPtr p.2, .addedBack]

/-- The memory after an event. -/
def CorEvent.apply (mem : Memory) : CorEvent → Memory
  | .stored ptr data => mem.copy ptr data
  | .requested _ _ | .addedBack => mem

def InFlight.request (m : InFlight) : RpcRequest := ⟨m.cor, m.buf, m.reply⟩

/-! ## The invariant -/

/-- What the station owes its coroutines after the requests and polls `l`. -/
structure Delivery (mem₀ : Memory) (l : List RpcStep) (w : RpcClient) : Prop where
  /-- no assertion fails -/
  progress : ∀ a, w.Allowed a → ∃ w', w.step a = .ok w'
  /-- what has happened is what the steps called for, in their order -/
  events : w.log = dueEvents [] l
  /-- the replies of the requests that no poll has answered are on their way, and no others -/
  inFlight : w.inFlight.map InFlight.request = unanswered l
  /-- for each request that a coroutine made its reply, in its buffer, then one `addback_coroutine`; at most one waits -/
  history : ∀ c, ∃ answered : List (MemBlock × List U8),
    l.filterMap (RpcStep.requestOf c) = answered ++ ofCor c (unanswered l) ∧ (ofCor c (unanswered l)).length ≤ 1 ∧
      w.history c = answered.flatMap round ++ (ofCor c (unanswered l)).map fun p => .requested p.1 p.2
  /-- the replies fit into their buffers -/
  fits : ∀ c buf reply, (c, CorEvent.requested buf reply) ∈ w.log → reply.length ≤ buf.sz
  /-- nothing else is written -/
  memory : w.mem = (w.log.map Prod.snd).foldl CorEvent.apply mem₀
  /-- a reply that is polled is in the buffer of its request, and no byte outside of that buffer has changed -/
  stores : ∀ i m, w.inFlight[i]? = some m → ∃ w', w.step (.poll i) = .ok w' ∧
    w'.log = w.log ++ [(m.cor, .stored m.buf.memPtr m.reply), (m.cor, .addedBack)] ∧
    (∀ j b, m.reply[j]? = some b → w'.mem (m.buf.memPtr + j) = b) ∧
    ∀ a, ¬ (m.buf.memPtr ≤ a ∧ a < m.buf.memPtr + m.buf.sz) → w'.mem a = w.mem a

/-- A message in flight is the reply to the request that the entry of its coroutine waits for. -/
structure Awaited (station : ReplyStation) (m : InFlight) : Prop where
  cor : m.cor < station.numCors
  entry : station.corReplies m.cor = .ofBuf m.buf
  fits : m.reply.length ≤ m.buf.sz
  echo : ∃ h, parse m.curMsg = .ok (h, m.reply) ∧ h.type = MsgType.reply.code ∧ h.corId.toNat = m.cor

/-- The invariant of a client process. -/
structure StationInv (mem₀ : Memory) (l : List RpcStep) (w : RpcClient) : Prop where
  cors : w.station.numCors ≤ 128
  nodup : (w.inFlight.map InFlight.cor).Nodup
  awaited : ∀ m ∈ w.inFlight, Awaited w.station m
  idle : ∀ c, (∀ m ∈ w.inFlight, m.cor ≠ c) → (w.station.corReplies c).pendingReplies = 0
  events : w.log = dueEvents [] l
  inFlight : w.inFlight.map InFlight.request = unanswered l
  history : ∀ c, ∃ answered : List (MemBlock × List U8),
    l.filterMap (RpcStep.requestOf c) = answered ++ ofCor c (w.inFlight.map InFlight.request) ∧
      w.history c = answered.flatMap round ++ (ofCor c (w.inFlight.map InFlight.request)).map fun p => .requested p.1 p.2
  fits : ∀ c buf reply, (c, CorEvent.requested buf reply) ∈ w.log → reply.length ≤ buf.sz
  memory : w.mem = (w.log.map Prod.snd).foldl CorEvent.apply mem₀

/-! ## The reply on the wire -/

/-- A reply that fits is received with the type, the id and the bytes that the callback gave it. -/
theorem replyMessage_ok {env : ReplyEnv} (corId : BitVec 7) {reply : List U8}
    (hbuf : sizeofHeader + reply.length ≤ env.replyBuf.length)
    (hmsg : sizeofHeader + reply.length + env.rest.length = curMsgSize) :
    ∃ msg h, replyMessage env corId reply = .ok msg ∧ parse (msg ++ env.rest) = .ok (h, reply) ∧
      h.type = MsgType.reply.code ∧ h.corId = corId := by
  have hsmall : reply.length < 2 ^ 18 := by
    unfold curMsgSize at hmsg
    omega
  have hop : RPCOp.setMsg env.header env.replyBuf = .ok ⟨env.header, env.replyBuf, sizeofHeader⟩ := by
    unfold RPCOp.setMsg
    rw [if_neg (by omega)]
  obtain ⟨-, hframe⟩ := parse_finalize reply env.rest hop hbuf hsmall
    { env.header with type := MsgType.reply.code, corId := corId }
  have hwidth : (corId.setWidth 32).setWidth 7 = corId := by
    apply BitVec.eq_of_toNat_eq
    rw [BitVec.toNat_setWidth, BitVec.toNat_setWidth]
    omega
  have hreply : replyMessage env corId reply
      = .ok (RPCOp.addOpaque ⟨{ env.header with type := MsgType.reply.code, corId := corId }, env.replyBuf, sizeofHeader⟩
          reply).2.finalize.2 := by
    unfold replyMessage
    rw [hop, Exec.ok_bind]
    unfold RPCOp.addOpaque RPCOp.setType
    simp only
    rw [if_neg (by omega), if_neg (by omega)]
    unfold RPCOp.setCorid
    simp only [hwidth]
    rfl
  exact ⟨_, ⟨MsgType.reply.code, env.header.rpcId, BitVec.ofNat 18 reply.length, corId, env.header.padding⟩, hreply,
    hframe, rfl, rfl⟩

/-! ## Runs with one more step -/

theorem unanswered_snoc (l : List RpcStep) (a : RpcStep) : unanswered (l ++ [a]) = a.leaves (unanswered l) := by
  unfold unanswered
  rw [List.foldl_append]
  rfl

theorem dueEvents_snoc (l : List RpcStep) (waiting : List RpcRequest) (a : RpcStep) :
    dueEvents waiting (l ++ [a]) = dueEvents waiting l ++ a.due (l.foldl RpcStep.leaves waiting) := by
  induction l generalizing waiting with
  | nil => exact List.append_nil _
  | cons b l ih =>
      rw [List.cons_append, dueEvents, dueEvents, ih, List.append_assoc]
      rfl

theorem ofCor_append (c : Nat) (rs rs' : List RpcRequest) : ofCor c (rs ++ rs') = ofCor c rs ++ ofCor c rs' := by
  unfold ofCor
  rw [List.filter_append, List.map_append]

/-- Behind the answer to `r` nothing of its coroutine waits, and of the others what did before. -/
theorem ofCor_answered {r : RpcRequest} {as bs : List RpcRequest} (hothers : ∀ r' ∈ as ++ bs, r'.cor ≠ r.cor) (c : Nat) :
    if c = r.cor then ofCor c (as ++ r :: bs) = [(r.buf, r.reply)] ∧ ofCor c (as ++ bs) = []
    else ofCor c (as ++ bs) = ofCor c (as ++ r :: bs) := by
  unfold ofCor
  split
  · rename_i hc
    have hnone : ∀ rs : List RpcRequest, (∀ r' ∈ rs, r' ∈ as ++ bs) → rs.filter (·.cor = c) = [] := fun rs hrs =>
      List.filter_eq_nil_iff.mpr fun r' hr' => by simpa [hc] using hothers r' (hrs r' hr')
    have has := hnone as fun r' hr' => List.mem_append_left _ hr'
    have hbs := hnone bs fun r' hr' => List.mem_append_right _ hr'
    rw [List.filter_append, List.filter_append, List.filter_cons, has, hbs, if_pos (decide_eq_true hc.symm)]
    exact ⟨rfl, rfl⟩
  · rename_i hc
    rw [List.filter_append, List.filter_append, List.filter_cons,
      if_neg (by rw [decide_eq_true_eq]; exact fun h => hc h.symm)]

/-! ## `memcpy` -/

theorem Memory.copy_inside (mem : Memory) (ptr : Nat) {data : List U8} {j : Nat} {b : U8} (h : data[j]? = some b) :
    mem.copy ptr data (ptr + j) = b := by
  unfold Memory.copy
  rw [if_pos (Nat.le_add_right ..), Nat.add_sub_cancel_left, List.getD_eq_getElem?_getD, h]
  rfl

theorem Memory.copy_outside (mem : Memory) {ptr a : Nat} {data : List U8} (h : ¬ (ptr ≤ a ∧ a < ptr + data.length)) :
    mem.copy ptr data a = mem a := by
  unfold Memory.copy
  split
  · rw [List.getD_eq_getElem?_getD, List.getElem?_eq_none (by omega)]
    rfl
  · rfl

/-! ## What one step does -/

section Steps

variable {mem₀ : Memory} {l : List RpcStep} {w w' : RpcClient}

/-- The seven bits of the header hold the coroutine's id. -/
theorem corId_toNat {cor : Nat} (h : cor < 128) : (BitVec.ofNat 7 cor).toNat = cor := by
  rw [BitVec.toNat_ofNat]
  exact Nat.mod_eq_of_lt h

/-- A request is registered, and its reply is on the way. -/
theorem StationInv.request_ok (h : StationInv mem₀ l w) {cor : Nat} {buf : MemBlock} {reply : List U8} {env : ReplyEnv}
    (ha : w.Allowed (.request cor buf reply env)) : ∃ msg hd,
    w.step (.request cor buf reply env) = .ok ⟨w.station.set cor (.ofBuf buf), w.mem,
      w.inFlight ++ [⟨msg ++ env.rest, cor, buf, reply⟩], w.log ++ [(cor, .requested buf reply)]⟩ ∧
    parse (msg ++ env.rest) = .ok (hd, reply) ∧ hd.type = MsgType.reply.code ∧ hd.corId.toNat = cor := by
  obtain ⟨hcor, hnone, -, hbuf, hmsg⟩ := ha
  have hid := corId_toNat (hcor.trans_le h.cors)
  obtain ⟨msg, hd, hok, hparse, htype, hcorId⟩ := replyMessage_ok (BitVec.ofNat 7 cor) hbuf hmsg
  refine ⟨msg, hd, ?_, hparse, htype, by rw [hcorId, hid]⟩
  unfold RpcClient.step ReplyStation.addPendingReply
  simp only [hid]
  rw [if_neg (not_not.mpr hcor), if_neg (by rw [h.idle cor hnone]; decide), Exec.ok_bind, hok]
  rfl

/-- A reply is stored through the entry of its request, and its coroutine is added back. -/
theorem Awaited.poll {station : ReplyStation} {m : InFlight} (h : Awaited station m) (mem : Memory) :
    pollMessage station mem m.curMsg
      = .ok (station.set m.cor ⟨0, m.buf, m.buf.memPtr + m.reply.length⟩, mem.copy m.buf.memPtr m.reply,
          [(m.cor, .stored m.buf.memPtr m.reply), (m.cor, .addedBack)]) := by
  obtain ⟨hd, hparse, htype, hid⟩ := h.echo
  have hready : station.corReady m.cor = .ok false := by
    unfold ReplyStation.corReady
    rw [if_pos h.cor, h.entry]
    rfl
  have happend : station.appendReply mem m.cor m.reply = .ok (true,
      station.set m.cor ⟨0, m.buf, m.buf.memPtr + m.reply.length⟩, mem.copy m.buf.memPtr m.reply) := by
    unfold ReplyStation.appendReply
    rw [hready, h.entry, Exec.ok_bind, if_neg (by decide)]
    exact if_pos (Nat.add_le_add_left h.fits _)
  have hready' : (station.set m.cor ⟨0, m.buf, m.buf.memPtr + m.reply.length⟩).corReady m.cor = .ok true := by
    unfold ReplyStation.corReady ReplyStation.set
    rw [if_pos h.cor]
    simp
  unfold pollMessage
  rw [hparse]
  simp only [Exec.ok_bind, htype, hid, if_true]
  rw [happend]
  simp only [Exec.ok_bind, hready', h.entry, ReplyEntry.ofBuf]
  rfl

theorem Awaited.step_poll {m : InFlight} (h : Awaited w.station m) {i : Nat} (hget : w.inFlight[i]? = some m) :
    w.step (.poll i) = .ok ⟨w.station.set m.cor ⟨0, m.buf, m.buf.memPtr + m.reply.length⟩,
      w.mem.copy m.buf.memPtr m.reply, w.inFlight.eraseIdx i,
      w.log ++ [(m.cor, .stored m.buf.memPtr m.reply), (m.cor, .addedBack)]⟩ := by
  unfold RpcClient.step
  simp only [hget, h.poll w.mem, Exec.ok_bind]
  rfl

/-- Taking the `i`-th message out. -/
theorem exists_split {l : List InFlight} {i : Nat} {m : InFlight} (h : l[i]? = some m) :
    ∃ as bs, l = as ++ m :: bs ∧ l.eraseIdx i = as ++ bs := by
  obtain ⟨hi, rfl⟩ := List.getElem?_eq_some_iff.mp h
  refine ⟨l.take i, l.drop (i + 1), ?_, List.eraseIdx_eq_take_drop_succ ..⟩
  rw [← List.drop_eq_getElem_cons, List.take_append_drop]

theorem history_append (w' : RpcClient) {c : Nat} {events : List (Nat × CorEvent)} (h : w'.log = w.log ++ events) :
    w'.history c = w.history c ++ (events.filter (·.1 = c)).map Prod.snd := by
  unfold RpcClient.history
  rw [h, List.filter_append, List.map_append]

/-! ## A request -/

theorem StationInv.request (h : StationInv mem₀ l w) {cor : Nat} {buf : MemBlock} {reply : List U8} {env : ReplyEnv}
    (ha : w.Allowed (.request cor buf reply env)) (hok : w.step (.request cor buf reply env) = .ok w') :
    StationInv mem₀ (l ++ [.request cor buf reply env]) w' := by
  obtain ⟨msg, hd, hstep, hecho⟩ := h.request_ok ha
  obtain rfl := Except.ok.inj (hstep.symm.trans hok)
  obtain ⟨hcor, hnone, hfits, -, -⟩ := ha
  refine ⟨h.cors, ?_, ?_, ?_, ?_, ?_, ?_, ?_, ?_⟩
  · simp only [List.map_append, List.map_cons, List.map_nil]
    rw [List.nodup_append_comm, List.singleton_append, List.nodup_cons]
    refine ⟨fun hmem => ?_, h.nodup⟩
    obtain ⟨m, hm, heq⟩ := List.mem_map.mp hmem
    exact hnone m hm heq
  · intro m hm
    rcases List.mem_append.mp hm with hold | hnew
    · have hne := hnone m hold
      have hm := h.awaited m hold
      refine ⟨hm.cor, ?_, hm.fits, hm.echo⟩
      rw [← hm.entry]
      exact Function.update_of_ne hne ..
    · obtain rfl := List.mem_singleton.mp hnew
      exact ⟨hcor, Function.update_self .., hfits, hd, hecho⟩
  · intro c hc
    have hne : c ≠ cor := fun e =>
      hc ⟨msg ++ env.rest, cor, buf, reply⟩ (List.mem_append_right _ (List.mem_singleton.mpr rfl)) e.symm
    have hold := h.idle c fun m hm => hc m (List.mem_append_left _ hm)
    rw [← hold]
    exact congrArg ReplyEntry.pendingReplies (Function.update_of_ne hne ..)
  · rw [dueEvents_snoc, h.events]
    rfl
  · rw [unanswered_snoc, ← h.inFlight, List.map_append]
    rfl
  · intro c
    obtain ⟨answered, hasked, hans⟩ := h.history c
    refine ⟨answered, ?_, ?_⟩
    · rw [List.filterMap_append, hasked, List.map_append, ofCor_append, List.append_assoc]
      by_cases hcc : cor = c
      · simp [hcc, RpcStep.requestOf, ofCor, InFlight.request]
      · simp [hcc, RpcStep.requestOf, ofCor, InFlight.request]
    · rw [history_append (w := w) _ rfl, hans, List.map_append, ofCor_append, List.append_assoc, List.map_append]
      by_cases hcc : cor = c
      · simp [hcc, ofCor, InFlight.request]
      · simp [hcc, ofCor, InFlight.request]
  · intro c b r hmem
    rcases List.mem_append.mp hmem with hold | hnew
    · exact h.fits c b r hold
    · cases List.mem_singleton.mp hnew
      exact hfits
  · simp only [List.map_append, List.map_cons, List.map_nil, List.foldl_append, List.foldl_cons, List.foldl_nil]
    exact h.memory

/-! ## A poll -/

/-- The messages around one in flight are for other coroutines. -/
theorem StationInv.others (h : StationInv mem₀ l w) {m : InFlight} {as bs : List InFlight} (hsplit : w.inFlight = as ++ m :: bs) :
    ((as ++ bs).map InFlight.cor).Nodup ∧ ∀ m' ∈ as ++ bs, m' ∈ w.inFlight ∧ m'.cor ≠ m.cor := by
  have hnd := h.nodup
  rw [hsplit, List.map_append, List.map_cons] at hnd
  have hnot := List.nodup_cons.mp (List.nodup_middle.mp hnd)
  rw [← List.map_append] at hnot
  refine ⟨hnot.2, fun m' hm' => ⟨?_, fun heq => hnot.1 (List.mem_map.mpr ⟨m', hm', heq⟩)⟩⟩
  rw [hsplit]
  rcases List.mem_append.mp hm' with hl | hr
  · exact List.mem_append_left _ hl
  · exact List.mem_append_right _ (List.mem_cons_of_mem m hr)

theorem StationInv.poll (h : StationInv mem₀ l w) {i : Nat} (hi : i < w.inFlight.length)
    (hok : w.step (.poll i) = .ok w') : StationInv mem₀ (l ++ [.poll i]) w' := by
  obtain ⟨m, hm⟩ : ∃ m, w.inFlight[i]? = some m := ⟨_, List.getElem?_eq_getElem hi⟩
  obtain ⟨as, bs, hsplit, herase⟩ := exists_split hm
  have hstep := (h.awaited m (List.mem_of_getElem? hm)).step_poll hm
  rw [herase] at hstep
  have hw' := Except.ok.inj (hstep.symm.trans hok)
  obtain ⟨hnd, hothers⟩ := h.others hsplit
  have hwaiting : (unanswered l)[i]? = some m.request := by
    rw [← h.inFlight, List.getElem?_map, hm]
    rfl
  subst hw'
  refine ⟨h.cors, hnd, ?_, ?_, ?_, ?_, ?_, ?_, ?_⟩
  · intro m' hm'
    obtain ⟨hmem, hne⟩ := hothers m' hm'
    have hold := h.awaited m' hmem
    refine ⟨hold.cor, ?_, hold.fits, hold.echo⟩
    rw [← hold.entry]
    exact Function.update_of_ne hne ..
  · intro c hc
    by_cases hcc : c = m.cor
    · subst hcc
      change (Function.update w.station.corReplies m.cor _ m.cor).pendingReplies = 0
      rw [Function.update_self]
    · have hold : (w.station.corReplies c).pendingReplies = 0 := by
        refine h.idle c fun m' hm' => ?_
        rw [hsplit] at hm'
        rcases List.mem_append.mp hm' with hl | hr
        · exact hc m' (List.mem_append_left _ hl)
        · rcases List.mem_cons.mp hr with rfl | hr
          · exact fun e => hcc e.symm
          · exact hc m' (List.mem_append_right _ hr)
      rw [← hold]
      exact congrArg ReplyEntry.pendingReplies (Function.update_of_ne hcc ..)
  · have hdue : (RpcStep.poll i).due (unanswered l)
        = [(m.cor, .stored m.buf.memPtr m.reply), (m.cor, .addedBack)] := by
      unfold RpcStep.due
      simp only [hwaiting]
      rfl
    rw [dueEvents_snoc, ← h.events]
    exact congrArg (w.log ++ ·) hdue.symm
  · rw [unanswered_snoc, ← h.inFlight, ← herase, ← List.eraseIdx_map]
    rfl
  · intro c
    obtain ⟨answered, hasked, hans⟩ := h.history c
    have hcors : ∀ r' ∈ as.map InFlight.request ++ bs.map InFlight.request, r'.cor ≠ m.request.cor := by
      intro r' hr'
      rw [← List.map_append] at hr'
      obtain ⟨m', hm', rfl⟩ := List.mem_map.mp hr'
      exact (hothers m' hm').2
    have hwait := ofCor_answered hcors c
    rw [← List.map_append, ← List.map_cons, ← List.map_append, ← hsplit] at hwait
    rw [List.filterMap_append, hasked, history_append (w := w) _ rfl, hans]
    split at hwait
    · -- its only request: the round is complete
      rename_i hc
      refine ⟨answered ++ [(m.buf, m.reply)], ?_, ?_⟩
      · rw [hwait.1, hwait.2]
        simp [RpcStep.requestOf, InFlight.request]
      · rw [hwait.1, hwait.2, List.flatMap_append]
        simp [hc, round, InFlight.request]
    · rename_i hc
      refine ⟨answered, ?_, ?_⟩
      · rw [hwait]
        simp [RpcStep.requestOf]
      · rw [hwait]
        have hne : m.cor ≠ c := fun heq => hc heq.symm
        simp [hne]
  · intro c b r hmem'
    rcases List.mem_append.mp hmem' with hold | hnew
    · exact h.fits c b r hold
    · simp at hnew
  · simp only [List.map_append, List.map_cons, List.map_nil, List.foldl_append, List.foldl_cons, List.foldl_nil]
    rw [← h.memory]
    rfl

/-! ## Every run -/

/-- **One step keeps the invariant.** -/
theorem StationInv.step (h : StationInv mem₀ l w) {a : RpcStep} (ha : w.Allowed a) (hok : w.step a = .ok w') :
    StationInv mem₀ (l ++ [a]) w' := by
  cases a with
  | request cor buf reply env => exact h.request ha hok
  | poll i => exact h.poll ha hok

theorem StationInv.init {numCors : Nat} (hn : numCors ≤ 128) (curPtr : Nat → Nat) (mem : Memory) :
    StationInv mem [] (.init numCors curPtr mem) :=
  ⟨hn, List.nodup_nil, fun _ hm => absurd hm List.not_mem_nil, fun _ _ => rfl, rfl, rfl, fun _ => ⟨[], rfl, rfl⟩,
    fun _ _ _ hm => absurd hm List.not_mem_nil, rfl⟩

/-- What the invariant gives. -/
theorem StationInv.delivery (h : StationInv mem₀ l w) : Delivery mem₀ l w := by
  refine ⟨?_, h.events, h.inFlight, fun c => ?_, h.fits, h.memory, ?_⟩
  · intro a ha
    cases a with
    | request cor buf reply env =>
        obtain ⟨msg, hd, hstep, -⟩ := h.request_ok ha
        exact ⟨_, hstep⟩
    | poll i =>
        have hget := List.getElem?_eq_getElem (l := w.inFlight) ha
        exact ⟨_, (h.awaited _ (List.mem_of_getElem? hget)).step_poll hget⟩
  · obtain ⟨answered, hasked, hans⟩ := h.history c
    rw [h.inFlight] at hasked hans
    refine ⟨answered, hasked, ?_, hans⟩
    have hcount := List.nodup_iff_count_le_one.mp h.nodup c
    rw [List.count, List.countP_map, List.countP_eq_length_filter] at hcount
    rw [← h.inFlight]
    unfold ofCor
    rw [List.filter_map, List.length_map, List.length_map]
    exact hcount
  · intro i m hget
    have hm := h.awaited m (List.mem_of_getElem? hget)
    refine ⟨_, hm.step_poll hget, rfl, fun j b hb => Memory.copy_inside _ _ hb, fun a ha => ?_⟩
    have hfits := hm.fits
    exact Memory.copy_outside _ (by omega)

end Steps

/-- Coroutines 0 and 5 of six both ask, and the second reply is polled first. -/
def crossedReplies : List RpcStep :=
  [.request 0 ⟨1000, 9⟩ [1, 7] ⟨⟨0, 0, 0, 0, 0⟩, List.replicate 64 0, List.replicate 3990 0⟩,
    .request 5 ⟨2000, 9⟩ [1, 8] ⟨⟨0, 0, 0, 0, 0⟩, List.replicate 64 0, List.replicate 3990 0⟩, .poll 1, .poll 0]

end Outback
