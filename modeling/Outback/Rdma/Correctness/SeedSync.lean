import Outback.Rdma.Correctness.PlacementInv

/-!
# `Rdma.Correctness.SeedSync` — one client's seeds and the server's

The threads of a client process share one `ludo_lookup_unit`. A reseeding put is answered with the seed chosen when the
server handled it, and `remote_put` installs that seed whatever it is: the reply carries no order. Two puts to one row
whose replies are received in the other order leave the client on the older seed (`seeds_diverge_pair`).

**`seeds_converge`**: when each row's last seed to be received is the server's current one (`SeedOrder`, a condition on
the replies in flight), the client's seeds are the server's whenever no put is outstanding. The invariant behind it: in
each row the two seeds agree, or a reply that carries a seed of the row is still in flight.
-/

namespace Outback

open RdmaServer

/-! ## Seeds in flight -/

/-- The row and the seed that the reply to a put announces. -/
def Answer.newSeed (H : HashFn) (dp : DataPlaneLudo) (a : Answer) : Option (Nat × U8) :=
  match a.req with
  | .put _ key _ =>
      if a.reply.val &&& (1 <<< 8) ≠ 0 then some (dp.row H key, (a.reply.val &&& 0xFF).setWidth 8) else none
  | _ => none

/-- One client process makes all calls, the slot numbers of its puts do not wrap in 32 bits, and a seed that is received
    is the server's current one unless another seed of the row is still in flight. -/
def SeedOrder (H : HashFn) (net : RdmaNet) : NetStep → Prop
  | .send client call => client = 0 ∧ ∀ key val, call = .put key val → (net.clients client).row H key < 2 ^ 30
  | .handle _ => True
  | .receive i => ∀ a r seed, net.replies[i]? = some a → a.newSeed H net.server.lookup = some (r, seed) →
      seed = net.server.lookup.seeds r ∨
        ∃ b ∈ net.replies.eraseIdx i, ∃ seed', b.newSeed H net.server.lookup = some (r, seed')

/-- No put request and no put reply is outstanding. -/
def RdmaNet.NoPuts (net : RdmaNet) : Prop :=
  (∀ m ∈ net.requests, ∀ loc key val, m.2 ≠ .request (.put loc key val)) ∧
    ∀ a ∈ net.replies, ∀ loc key val, a.req ≠ .put loc key val

theorem RdmaNet.NoPuts.of_empty {net : RdmaNet} (hreq : net.requests = []) (hrep : net.replies = []) : net.NoPuts := by
  refine ⟨fun m hm => ?_, fun a ha => ?_⟩
  · rw [hreq] at hm
    exact absurd hm List.not_mem_nil
  · rw [hrep] at ha
    exact absurd ha List.not_mem_nil

structure SeedInv (H : HashFn) (net : RdmaNet) : Prop where
  sameRows : ∀ k, (net.clients 0).row H k = net.server.lookup.row H k
  senders : ∀ m ∈ net.requests, m.1 = 0
  receivers : ∀ a ∈ net.replies, a.client = 0
  rows : ∀ m ∈ net.requests, ∀ loc key val, m.2 = .request (.put loc key val) → locRow loc = net.server.lookup.row H key
  seeds : ∀ r, (net.clients 0).seeds r = net.server.lookup.seeds r ∨
    ∃ a ∈ net.replies, ∃ seed, a.newSeed H net.server.lookup = some (r, seed)

/-! ## What one step does to the seeds -/

section Steps

variable {H : HashFn} {net net' : RdmaNet}

/-- Which seed a reply announces does not depend on the seeds. -/
theorem newSeed_congr {dp dp' : DataPlaneLudo} (hrows : ∀ k, dp'.row H k = dp.row H k) (a : Answer) :
    a.newSeed H dp' = a.newSeed H dp := by
  unfold Answer.newSeed
  cases a.req with
  | put loc key val => simp only [hrows]
  | get loc key | update loc key val | remove loc key => rfl

/-- Only a put changes seeds, those of its own row, and it announces what it changed. -/
theorem handle_seeds {s s' : RdmaServer} {req : Request} {rep : ReplyValue} (h : s.handle H req = .ok (s', rep)) :
    s'.lookup.seeds = s.lookup.seeds ∨ ∃ loc key val, req = .put loc key val ∧ rep.val &&& (1 <<< 8) ≠ 0 ∧
      s'.lookup.seeds = Function.update s.lookup.seeds (locRow loc) ((rep.val &&& 0xFF).setWidth 8) := by
  cases req with
  | put loc key val =>
      obtain ⟨he, rfl⟩ := put_effect h
      cases he with
      | insert hst hroom | rewrite hst hk | collide hst hk hroom | overflow hst hroom => exact Or.inl rfl
      | reseed hst seed hseed hroom =>
          obtain ⟨hbit, hlow⟩ := seedVal_fields seed
          refine Or.inr ⟨loc, key, val, rfl, ?_, ?_⟩
          · simp only [RdmaServer.putVal, hst, hseed, Option.getD_some]
            exact hbit
          · simp only [RdmaServer.putVal, hst, hseed, Option.getD_some, hlow]
            rfl
  | get loc key | update loc key val | remove loc key =>
      left
      cases (handle_effect h).1 <;> rfl

/-- What a client does with a reply: it installs the seed that is announced, and nothing else. -/
theorem processReply_seeds {dp dp' : DataPlaneLudo} {a : Answer} (h : dp.processReply H a.req a.reply = .ok dp') :
    dp'.seeds = match a.newSeed H dp with
      | some (r, seed) => Function.update dp.seeds r seed
      | none => dp.seeds := by
  unfold Answer.newSeed
  unfold DataPlaneLudo.processReply at h
  cases hreq : a.req with
  | put loc key val =>
      rw [hreq] at h
      simp only [DataPlaneLudo.processPutReply] at h
      split at h
      · cases h
        simp only
        split <;> rfl
      · cases h
  | get loc key | update loc key val | remove loc key =>
      rw [hreq] at h
      cases h
      rfl

/-! ## The invariant -/

theorem SeedInv.send {call : ClientCall} (h : SeedInv H net)
    (hput : ∀ key val, call = .put key val → (net.clients 0).row H key < 2 ^ 30) :
    SeedInv H { net with requests := net.requests ++ [(0, (net.clients 0).message H call)] } := by
  refine ⟨h.sameRows, ?_, h.receivers, ?_, h.seeds⟩
  · intro m hm
    rcases List.mem_append.mp hm with hm | hm
    · exact h.senders m hm
    · rw [List.mem_singleton.mp hm]
  · intro m hm loc key val hEq
    rcases List.mem_append.mp hm with hm | hm
    · exact h.rows m hm loc key val hEq
    · rw [List.mem_singleton.mp hm] at hEq
      cases call with
      | put key' val' =>
          cases hEq
          rw [locRow_remoteLoc, Nat.mod_eq_of_lt (hput key val rfl), h.sameRows]
      | search key' | update key' val' | remove key' | removeAt key' => cases hEq

/-- The server handles a request that has left the wire. -/
theorem SeedInv.deliver {msg : Message} (h : SeedInv H net)
    (hrow : ∀ loc key val, msg = .request (.put loc key val) → locRow loc = net.server.lookup.row H key)
    (hstep : net.deliver H 0 msg = .ok net') : SeedInv H net' := by
  cases msg with
  | bareKey key => cases hstep
  | request req =>
      obtain ⟨⟨server, reply⟩, hhandle, hstep⟩ := Lib.bind_eq_ok.mp hstep
      cases hstep
      have hrows : ∀ k, server.lookup.row H k = net.server.lookup.row H k := effect_row (handle_effect hhandle).1
      refine ⟨fun k => by rw [h.sameRows, hrows], h.senders, ?_, ?_, ?_⟩
      · intro a ha
        rcases List.mem_append.mp ha with ha | ha
        · exact h.receivers a ha
        · rw [List.mem_singleton.mp ha]
      · intro m hm loc key val hEq
        rw [hrows]
        exact h.rows m hm loc key val hEq
      · intro r
        simp only [newSeed_congr hrows]
        -- an announced seed stays in flight; so only the row that this request reseeds can lose its agreement
        have hold : server.lookup.seeds r = net.server.lookup.seeds r →
            (net.clients 0).seeds r = server.lookup.seeds r ∨
              ∃ a ∈ net.replies ++ [⟨0, req, reply, net.written req.key⟩], ∃ seed,
                a.newSeed H net.server.lookup = some (r, seed) := by
          intro hr
          rcases h.seeds r with hEq | ⟨a, ha, hseed⟩
          · exact Or.inl (hEq.trans hr.symm)
          · exact Or.inr ⟨a, List.mem_append_left _ ha, hseed⟩
        rcases handle_seeds hhandle with hsame | ⟨loc, key, val, rfl, hbit, hnew⟩
        · exact hold (congrFun hsame r)
        · by_cases hr : r = locRow loc
          · refine Or.inr ⟨_, List.mem_append_right _ (List.mem_singleton_self _), (reply.val &&& 0xFF).setWidth 8, ?_⟩
            simp only [Answer.newSeed, if_pos hbit]
            rw [hr, hrow loc key val rfl]
          · apply hold
            rw [hnew, Function.update_of_ne hr]

/-- The client receives the `i`-th reply. -/
theorem SeedInv.receive {i : Nat} {a : Answer} {dp : DataPlaneLudo} (h : SeedInv H net) (hi : net.replies[i]? = some a)
    (hok : SeedOrder H net (.receive i)) (hdp : (net.clients a.client).processReply H a.req a.reply = .ok dp) :
    SeedInv H { net with
      replies := net.replies.eraseIdx i
      clients := Function.update net.clients a.client dp } := by
  have hclient : a.client = 0 := h.receivers a (List.mem_of_getElem? hi)
  rw [hclient] at hdp ⊢
  have hself : Function.update net.clients 0 dp 0 = dp := Function.update_self ..
  refine ⟨?_, h.senders, fun b hb => h.receivers b (List.mem_of_mem_eraseIdx hb), h.rows, ?_⟩
  · intro k
    simp only [hself, processReply_row hdp, h.sameRows]
  · intro r
    simp only [hself]
    have hseeds := processReply_seeds hdp
    rw [newSeed_congr h.sameRows] at hseeds
    -- a reply other than the received one is still in flight
    have hstill : ∀ b ∈ net.replies, b ≠ a → b ∈ net.replies.eraseIdx i := by
      intro b hb hne
      obtain ⟨j, hj⟩ := List.getElem?_of_mem hb
      refine List.mem_eraseIdx_iff_getElem?.mpr ⟨j, ?_, hj⟩
      rintro rfl
      exact hne (Option.some.inj (hj.symm.trans hi))
    cases hnew : a.newSeed H net.server.lookup with
    | none =>
        simp only [hnew] at hseeds
        rw [hseeds]
        rcases h.seeds r with hEq | ⟨b, hb, seed, hseed⟩
        · exact Or.inl hEq
        · refine Or.inr ⟨b, hstill b hb ?_, seed, hseed⟩
          rintro rfl
          rw [hnew] at hseed
          cases hseed
    | some p =>
        obtain ⟨r', seed⟩ := p
        simp only [hnew] at hseeds
        rw [hseeds]
        by_cases hr : r = r'
        · -- the row of this reply: the guard says what was received
          subst hr
          rw [Function.update_self]
          exact hok a r seed hi hnew
        · rw [Function.update_of_ne hr]
          rcases h.seeds r with hEq | ⟨b, hb, seed', hseed⟩
          · exact Or.inl hEq
          · refine Or.inr ⟨b, hstill b hb ?_, seed', hseed⟩
            rintro rfl
            rw [hnew] at hseed
            cases hseed
            exact hr rfl

/-- **One step of the network.** -/
theorem SeedInv.step {a : NetStep} (h : SeedInv H net) (hok : SeedOrder H net a) (hstep : net.step H a = .ok net') :
    SeedInv H net' := by
  cases a with
  | send client call =>
      obtain ⟨rfl, hput⟩ := hok
      cases hstep
      exact h.send hput
  | handle i =>
      unfold RdmaNet.step at hstep
      cases hi : net.requests[i]? with
      | none =>
          simp only [hi] at hstep
          cases hstep
          exact h
      | some m =>
          obtain ⟨client, msg⟩ := m
          simp only [hi] at hstep
          have hmem := List.mem_of_getElem? hi
          obtain rfl : client = 0 := h.senders _ hmem
          have hrest : SeedInv H { net with requests := net.requests.eraseIdx i } :=
            ⟨h.sameRows, fun m hm => h.senders m (List.mem_of_mem_eraseIdx hm), h.receivers,
              fun m hm => h.rows m (List.mem_of_mem_eraseIdx hm), h.seeds⟩
          exact hrest.deliver (h.rows _ hmem) hstep
  | receive i =>
      unfold RdmaNet.step at hstep
      cases hi : net.replies[i]? with
      | none =>
          simp only [hi] at hstep
          cases hstep
          exact h
      | some a =>
          simp only [hi] at hstep
          obtain ⟨dp, hdp, hstep⟩ := Lib.bind_eq_ok.mp hstep
          cases hstep
          exact h.receive hi hok hdp

/-- With no put outstanding no seed is in flight. -/
theorem SeedInv.seeds_eq (h : SeedInv H net) (hquiet : net.NoPuts) (r : Nat) :
    (net.clients 0).seeds r = net.server.lookup.seeds r := by
  rcases h.seeds r with hEq | ⟨a, ha, seed, hseed⟩
  · exact hEq
  · unfold Answer.newSeed at hseed
    split at hseed
    · rename_i loc key val hreq
      exact absurd hreq (hquiet.2 a ha loc key val)
    · cases hseed

end Steps

/-! ## Every run -/

/-- **The seeds converge.** From any server, with one client process that starts from its seeds and any number of puts
    outstanding: in every run that meets `SeedOrder`, in every state without an outstanding put, the client's seed of
    every row is the server's. -/
theorem seeds_converge {H : HashFn} {s : RdmaServer} {written : U64 → Option U64} {net : RdmaNet}
    (hrun : Lib.Reaches (RdmaNet.step H) (SeedOrder H) (s.net written) net) (hquiet : net.NoPuts) (r : Nat) :
    (net.clients 0).seeds r = net.server.lookup.seeds r := by
  have hstart : SeedInv H (s.net written) :=
    ⟨fun _ => rfl, fun m hm => absurd hm List.not_mem_nil, fun a ha => absurd ha List.not_mem_nil,
      fun m hm => absurd hm List.not_mem_nil, fun _ => Or.inl rfl⟩
  have hinv := hrun.invariant hstart (fun _ _ _ h hc hstep => h.step hc hstep)
  exact hinv.seeds_eq hquiet r

/-! ## Two puts to one row -/

/-- The network of the server with keys 7 and 542 in row 423. -/
def pairNet : RdmaNet := pairServer.net ((rowTable 423 0 [7, 542]).lookUp fastHasher64)

/-- The answer to a put of key 2054, which gives the row seed 6. -/
def pairAnswer : Answer := ⟨0, .put 1694 2054 5, ⟨true, 262⟩, none⟩

/-- The answer to a put of key 3038, handled after it, which gives the row seed 10. -/
def pairAnswerNext : Answer := ⟨0, .put 1692 3038 6, ⟨true, 266⟩, none⟩

/-- The first put is on its way. -/
def pairNetSent : RdmaNet := { pairNet with requests := [(0, .request (.put 1694 2054 5))] }

/-- Both puts handled, their answers in flight. -/
def pairNetAnswers : RdmaNet where
  server := pairServerPut.reseed fastHasher64 423 3038 6 10
  clients := pairNet.clients
  requests := []
  replies := [pairAnswer, pairAnswerNext]
  written := Function.update (Function.update pairNet.written 2054 (some 5)) 3038 (some 6)

/-- The first answer received: the client has seed 6, and the answer with seed 10 is in flight. -/
def pairNetBetween : RdmaNet :=
  { pairNetAnswers with
    clients := Function.update pairNet.clients 0 (pairServer.lookup.updateSeed 423 6)
    replies := [pairAnswerNext] }

/-- Both puts are sent, then handled in that order. -/
theorem pairNet_answers {C : RdmaNet → NetStep → Prop} (hfirst : C pairNet (.send 0 (.put 2054 5)))
    (hnext : C pairNetSent (.send 0 (.put 3038 6))) (hhandle : ∀ net, C net (.handle 0)) :
    Lib.Reaches (RdmaNet.step fastHasher64) C pairNet pairNetAnswers := by
  have hsent : Lib.Reaches (RdmaNet.step fastHasher64) C pairNet pairNetSent := .snoc .refl hfirst rfl
  have hboth := hsent.snoc (u := { pairNetSent with requests := pairNetSent.requests ++ [(0, .request (.put 1692 3038 6))] })
    hnext rfl
  exact (hboth.snoc (hhandle _) rfl).snoc (hhandle _) rfl

/-- The answers are received in the order they were made. The first one brings a seed that the server has left, with the
    other in flight. -/
theorem seeds_converge_pair : ∃ net, Lib.Reaches (RdmaNet.step fastHasher64) (SeedOrder fastHasher64) pairNet net ∧
    net.NoPuts ∧ (net.clients 0).seeds 423 = 10 ∧ ∀ r, (net.clients 0).seeds r = net.server.lookup.seeds r := by
  have hput : ∀ (net : RdmaNet) key val, (net.clients 0).row fastHasher64 key < 2 ^ 30 →
      SeedOrder fastHasher64 net (.send 0 (.put key val)) := by
    rintro net key val hrow
    refine ⟨rfl, ?_⟩
    rintro key' val' hcall
    cases hcall
    exact hrow
  have hanswers : Lib.Reaches (RdmaNet.step fastHasher64) (SeedOrder fastHasher64) pairNet pairNetAnswers :=
    pairNet_answers (hput _ _ _ (by decide)) (hput _ _ _ (by decide)) fun _ => trivial
  have hfirst : SeedOrder fastHasher64 pairNetAnswers (.receive 0) := by
    intro a r seed ha hnew
    obtain rfl := Option.some.inj ha
    obtain ⟨rfl, rfl⟩ := Prod.mk.inj (Option.some.inj hnew : (423, (6 : U8)) = (r, seed))
    exact .inr ⟨pairAnswerNext, List.mem_singleton_self _, 10, rfl⟩
  have hnext : SeedOrder fastHasher64 pairNetBetween (.receive 0) := by
    intro a r seed ha hnew
    obtain rfl := Option.some.inj ha
    obtain ⟨rfl, rfl⟩ := Prod.mk.inj (Option.some.inj hnew : (423, (10 : U8)) = (r, seed))
    exact .inl rfl
  have hrun := (hanswers.snoc (u := pairNetBetween) hfirst rfl).snoc hnext rfl
  exact ⟨_, hrun, .of_empty rfl rfl, rfl, seeds_converge hrun (.of_empty rfl rfl)⟩

/-- All calls are of one client process. -/
def OneClient (_ : RdmaNet) : NetStep → Prop
  | .send client _ => client = 0
  | .handle _ | .receive _ => True

/-- The second answer is received first: the client is left with seed 6 and the server has seed 10. -/
theorem seeds_diverge_pair : ∃ net, Lib.Reaches (RdmaNet.step fastHasher64) OneClient pairNet net ∧ net.NoPuts ∧
    (net.clients 0).seeds 423 = 6 ∧ net.server.lookup.seeds 423 = 10 := by
  have hanswers : Lib.Reaches (RdmaNet.step fastHasher64) OneClient pairNet pairNetAnswers :=
    pairNet_answers rfl rfl fun _ => trivial
  have hrun := (hanswers.snoc (a := .receive 1) trivial rfl).snoc (a := .receive 0) trivial rfl
  exact ⟨_, hrun, .of_empty rfl rfl, rfl, rfl⟩

end Outback
