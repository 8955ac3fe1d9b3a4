import Outback.Numa.Deferral
import Outback.Numa.Correctness.Handlers
import Outback.Numa.Correctness.TickStores

/-!
# `Numa.Correctness.Deferred` — no deferred mutation is lost

**`deferral_safe`**: in every run in which a blocked call enqueues while there is room and the drain of the resize is still
to come, and in which no resize is called off over a queue that is not empty, a call replies `DEFERRED` only if its
mutation was enqueued, and in `NORMAL` and `PRE_RESIZE` nothing is left in the queues. **`deferral_lost`** has two runs that
break it: the creation of the region fails behind an enqueue, and a put finds the queue full.

`deferWorld_reaches` connects the steps here with the whole calls and ticks of `Numa.Direct`.
-/

namespace Outback

/-! ## The statement -/

/-- A call at its reply `DEFERRED` has enqueued its mutation; and with the state word at `NORMAL` or `PRE_RESIZE` and no
    call under way, both queues are empty. -/
structure DeferralSafe (w : DeferWorld) : Prop where
  enqueued : ∀ tid c queued, w.calls tid = .deferred c queued → queued = true
  replayed : w.server.orch.registry.resizeState = .normal ∨ w.server.orch.registry.resizeState = .preResize →
    (∀ tid, w.calls tid = .idle) → w.server.orch.deferredInserts = [] ∧ w.server.orch.deferredDeletes = []

/-- The replay of the tick under way is over: `GC_PENDING` is the next state, and no replay comes before it. -/
def OrchStore.drained : List OrchStore → Bool
  | [] => false
  | .replay :: _ => false
  | .resizeState st :: _ => st = .gcPending
  | _ :: prog => drained prog

/-- A drain is still to come: the state word blocks mutations, and the replay is not over. -/
def DeferWorld.Collecting (w : DeferWorld) : Prop :=
  (w.server.orch.registry.resizeState = .copying ∨ w.server.orch.registry.resizeState = .readyToSwitch ∨
    w.server.orch.registry.resizeState = .drainOld) ∧ OrchStore.drained w.prog = false

/-- The queue of the call's mutations is there and not full. -/
def NumaServer.HasRoom (s : NumaServer) : DirectCall → Prop
  | .put _ _ _ _ => s.intercepting = true ∧ s.orch.deferredInserts.length < kMaxDeferredDepth
  | .remove _ _ => s.intercepting = true ∧ s.orch.deferredDeletes.length < kMaxDeferredDepth
  | .get _ | .update _ _ _ => False

/-- What a handler's next step has to find. -/
def HandlerPc.EnqueuesInTime (w : DeferWorld) : HandlerPc → Prop
  | .enqueue c => w.server.HasRoom c ∧ w.Collecting
  | _ => True

/-- The store of `NORMAL` that calls a resize off finds empty queues. -/
def OrchStore.CallsOffClean (s : Server) : OrchStore → Prop
  | .resizeState .normal => s.registry.resizeState = .copying → s.deferredInserts = [] ∧ s.deferredDeletes = []
  | _ => True

/-- The condition on a step. -/
def DefersInTime (w : DeferWorld) : DeferStep → Prop
  | .go tid => (w.calls tid).EnqueuesInTime w
  | .store => ∀ a ∈ w.prog.head?, a.CallsOffClean w.server.orch
  | _ => True

section Decidable

variable (w : DeferWorld)

instance : Decidable w.Collecting := inferInstanceAs (Decidable (_ ∧ _))

instance (s : NumaServer) (c : DirectCall) : Decidable (s.HasRoom c) :=
  match c with
  | .put _ _ _ _ | .remove _ _ => inferInstanceAs (Decidable (_ ∧ _))
  | .get _ | .update _ _ _ => inferInstanceAs (Decidable False)

instance (pc : HandlerPc) : Decidable (pc.EnqueuesInTime w) :=
  match pc with
  | .enqueue _ => inferInstanceAs (Decidable (_ ∧ _))
  | .idle | .apply _ | .deferred _ _ | .applied _ => inferInstanceAs (Decidable True)

instance (s : Server) (a : OrchStore) : Decidable (a.CallsOffClean s) :=
  match a with
  | .resizeState .normal => inferInstanceAs (Decidable (_ → _ ∧ _))
  | .resizeState .preResize | .resizeState .copying | .resizeState .readyToSwitch | .resizeState .drainOld
  | .resizeState .gcPending | .blocked _ | .generation | .createRegion _ _ | .copyPacked _ | .copyBuckets _ | .fillEpoch _
  | .resetLanes _ | .published _ | .previousVersion _ | .currentVersion _ | .switchRegion _ | .newWrappers _ _
  | .dropPendingAck _ | .ackWaitStart _ | .replay | .cleanupAllowed _ | .gcStartTime _ | .reclaimOld =>
      inferInstanceAs (Decidable True)

instance (a : DeferStep) : Decidable (DefersInTime w a) :=
  match a with
  | .go tid => inferInstanceAs (Decidable ((w.calls tid).EnqueuesInTime w))
  | .store => inferInstanceAs (Decidable (∀ a ∈ w.prog.head?, a.CallsOffClean w.server.orch))
  | .load _ _ | .call _ | .tick _ | .clients _ | .stop => inferInstanceAs (Decidable True)

end Decidable

/-! ## The order of the states -/

namespace OrchStore

/-- What a store of the state word may do: `PRE_RESIZE` is entered from `NORMAL`, and `NORMAL` from `GC_PENDING` or, when
    the resize is called off, from `COPYING`. -/
def Follows (st : ResizeState) : ResizeState → Prop
  | .preResize => st = .normal
  | .normal => st = .gcPending ∨ st = .copying
  | _ => True

/-- The same of any store; the stores behind it have a drain of their own before the next `GC_PENDING`. -/
def InOrder (st : ResizeState) (prog : List OrchStore) : OrchStore → Prop
  | .resizeState st' => Follows st st' ∧ drained prog = false
  | _ => True

/-- And of all the stores to come. -/
def AllInOrder (st : ResizeState) : List OrchStore → Prop
  | [] => True
  | a :: prog => a.InOrder st prog ∧ AllInOrder (a.stateAfter st) prog

end OrchStore

/-- The stores of a tick, and that none of them is behind a replay of an earlier one. -/
theorem tickStores_inOrder (s : Server) (inp : TickInput) :
    OrchStore.AllInOrder s.registry.resizeState (s.tickStores inp) ∧ OrchStore.drained (s.tickStores inp) = false := by
  unfold Server.tickStores
  cases s.registry.resizeState with
  | normal =>
      dsimp only
      split
      · exact ⟨⟨trivial, ⟨rfl, rfl⟩, trivial, trivial⟩, rfl⟩
      · exact ⟨trivial, rfl⟩
  | preResize =>
      dsimp only
      split
      · unfold OrchStore.doCopy
        split
        · simp [OrchStore.setState, OrchStore.copyInto, OrchStore.publish, OrchStore.finishCopy, OrchStore.AllInOrder,
            OrchStore.InOrder, OrchStore.Follows, OrchStore.drained]
        · simp [OrchStore.setState, OrchStore.AllInOrder, OrchStore.InOrder, OrchStore.Follows, OrchStore.stateAfter,
            OrchStore.drained]
      · exact ⟨trivial, rfl⟩
  | copying => exact ⟨trivial, rfl⟩
  | readyToSwitch =>
      dsimp only [Server.waitStores, OrchStore.forceDrain]
      split
      · simp [OrchStore.setState, OrchStore.AllInOrder, OrchStore.InOrder, OrchStore.Follows, OrchStore.drained]
      · split
        · simp [OrchStore.setState, OrchStore.AllInOrder, OrchStore.InOrder, OrchStore.Follows, OrchStore.drained]
        · split <;> split <;>
            simp [OrchStore.setState, OrchStore.AllInOrder, OrchStore.InOrder, OrchStore.Follows, OrchStore.drained]
  | drainOld =>
      dsimp only [Server.drainStores, OrchStore.finishDrain]
      split
      · exact ⟨trivial, rfl⟩
      · split <;>
          simp [OrchStore.setState, OrchStore.AllInOrder, OrchStore.InOrder, OrchStore.Follows, OrchStore.drained]
  | gcPending =>
      dsimp only [Server.gcStores, OrchStore.reclaim]
      split <;> split <;> try split
      all_goals
        simp [OrchStore.setState, OrchStore.AllInOrder, OrchStore.InOrder, OrchStore.Follows, OrchStore.stateAfter,
          OrchStore.drained]

/-! ## The invariant -/

/-- Both queues are empty. -/
def Server.NothingQueued (s : Server) : Prop := s.deferredInserts = [] ∧ s.deferredDeletes = []

/-- The states in which nothing waits for a drain. -/
def ResizeState.AtRest (st : ResizeState) : Prop := st = .normal ∨ st = .preResize ∨ st = .gcPending

/-- What every world that guarded steps reach keeps. -/
structure DeferInv (w : DeferWorld) : Prop where
  enqueued : ∀ tid c queued, w.calls tid = .deferred c queued → queued = true
  order : OrchStore.AllInOrder w.server.orch.registry.resizeState w.prog
  rest : w.server.orch.registry.resizeState.AtRest → w.server.orch.NothingQueued
  drained : OrchStore.drained w.prog = true → w.server.orch.NothingQueued

section Inv

variable {H : HashFn} {w w' : DeferWorld}

/-- A step that touches neither the queues nor the state word nor the stores to come. -/
theorem DeferInv.congr (h : DeferInv w) (hst : w'.server.orch.registry.resizeState = w.server.orch.registry.resizeState)
    (hins : w'.server.orch.deferredInserts = w.server.orch.deferredInserts)
    (hdel : w'.server.orch.deferredDeletes = w.server.orch.deferredDeletes) (hprog : w'.prog = w.prog)
    (henq : ∀ tid c queued, w'.calls tid = .deferred c queued → queued = true) : DeferInv w' := by
  refine ⟨henq, by rw [hst, hprog]; exact h.order, ?_, ?_⟩
  · unfold Server.NothingQueued
    rw [hst, hins, hdel]
    exact h.rest
  · unfold Server.NothingQueued
    rw [hprog, hins, hdel]
    exact h.drained

/-- The replies pending behind a step of one thread. -/
theorem DeferInv.enqueued_put (h : DeferInv w) (tid : Nat) (s : NumaServer) {pc : HandlerPc}
    (hpc : ∀ c queued, pc = .deferred c queued → queued = true) (t : Nat) (c : DirectCall) (queued : Bool)
    (ht : (w.put tid s pc).calls t = .deferred c queued) : queued = true := by
  by_cases heq : t = tid
  · subst heq
    rw [DeferWorld.put_calls_self] at ht
    exact hpc c queued ht
  · rw [DeferWorld.put_calls_of_ne _ _ _ _ heq] at ht
    exact h.enqueued t c queued ht

/-- A blocked call that finds room is enqueued, and the rest of the orchestrator stays as it is. -/
theorem enqueue_hasRoom {s : NumaServer} {c : DirectCall} (h : s.HasRoom c) :
    (s.enqueue c).1 = true ∧ (s.enqueue c).2.orch.registry = s.orch.registry := by
  cases c with
  | put loc key val reply =>
      obtain ⟨hint, hlen⟩ := h
      have hlen : ¬ s.orch.deferredInserts.length ≥ kMaxDeferredDepth := Nat.not_le.mpr hlen
      simp only [NumaServer.enqueue, NumaServer.deferPut, Server.deferInsert, hint, if_neg hlen]
      exact ⟨rfl, rfl⟩
  | remove loc key =>
      obtain ⟨hint, hlen⟩ := h
      have hlen : ¬ s.orch.deferredDeletes.length ≥ kMaxDeferredDepth := Nat.not_le.mpr hlen
      simp only [NumaServer.enqueue, NumaServer.deferRemove, Server.deferDelete, hint, if_neg hlen]
      exact ⟨rfl, rfl⟩
  | get loc => exact h.elim
  | update loc key val => exact h.elim

theorem applyCall_keeps {s : NumaServer} {c : DirectCall} {r : NumaServer × ReplyValue} (h : s.applyCall H c = .ok r) :
    DataKeeps s r.1 := by
  cases c with
  | get loc =>
      obtain ⟨v, -, h⟩ := Lib.bind_eq_ok.mp h
      cases h
      exact .refl s
  | put loc key val reply => exact applyPut_keeps h
  | update loc key val => exact outbackUpdateDirect_keeps h
  | remove loc key => exact applyRemove_keeps h

/-- An access of the data. -/
theorem DeferInv.data (h : DeferInv w) {s : NumaServer} (hkeep : DataKeeps w.server s) (hserver : w'.server = s)
    (hprog : w'.prog = w.prog) (henq : ∀ tid c queued, w'.calls tid = .deferred c queued → queued = true) :
    DeferInv w' := by
  obtain ⟨regions, num, cache, -, rfl⟩ := hkeep
  refine h.congr ?_ ?_ ?_ hprog henq
  · rw [hserver]
    rfl
  · rw [hserver]
  · rw [hserver]

/-- The next step of a call. -/
theorem DeferInv.go {tid : Nat} (h : DeferInv w) (htime : (w.calls tid).EnqueuesInTime w) (hok : w.go H tid = .ok w') :
    DeferInv w' := by
  unfold DeferWorld.go at hok
  cases hpc : w.calls tid with
  | idle =>
      rw [hpc] at hok
      cases hok
      exact h
  | enqueue c =>
      rw [hpc] at hok htime
      cases hok
      obtain ⟨hroom, hst, hdrained⟩ := htime
      obtain ⟨hqueued, hreg⟩ := enqueue_hasRoom hroom
      refine ⟨?_, ?_, ?_, ?_⟩
      · refine h.enqueued_put tid _ ?_
        rintro c' queued ⟨⟩
        exact hqueued
      · show OrchStore.AllInOrder (w.server.enqueue c).2.orch.registry.resizeState w.prog
        rw [hreg]
        exact h.order
      · -- the state word blocks mutations, so a drain is to come
        intro hrest
        have hrest : (w.server.enqueue c).2.orch.registry.resizeState.AtRest := hrest
        rw [hreg] at hrest
        rcases hst with hst | hst | hst <;> (rw [hst] at hrest; rcases hrest with hrest | hrest | hrest <;> cases hrest)
      · intro hover
        have hover : OrchStore.drained w.prog = true := hover
        rw [hdrained] at hover
        cases hover
  | apply c =>
      rw [hpc] at hok
      obtain ⟨⟨s, reply⟩, hs, hok⟩ := Lib.bind_eq_ok.mp hok
      cases hok
      exact h.data (applyCall_keeps hs) rfl rfl (h.enqueued_put tid _ (by simp))
  | deferred c queued =>
      rw [hpc] at hok
      cases hok
      exact h.congr rfl rfl rfl rfl (h.enqueued_put tid _ (by simp))
  | applied reply =>
      rw [hpc] at hok
      cases hok
      exact h.congr rfl rfl rfl rfl (h.enqueued_put tid _ (by simp))

/-- A store of the orchestrator. -/
theorem DeferInv.store {a : OrchStore} {prog : List OrchStore} {s : Server} (h : DeferInv w) (hprog : w.prog = a :: prog)
    (hclean : a.CallsOffClean w.server.orch) (hs : w.server.orch.exec H a = .ok s) :
    DeferInv { w with server := { w.server with orch := s }, prog := prog } := by
  have hwrites := exec_writes hs
  have horder := h.order
  rw [hprog] at horder
  obtain ⟨hhead, htail⟩ := horder
  have hdrained := h.drained
  rw [hprog] at hdrained
  -- a replay empties the queues, any other store leaves them
  refine ⟨h.enqueued, ?_, ?_, ?_⟩
  · show OrchStore.AllInOrder s.registry.resizeState prog
    rw [hwrites.resizeState]
    exact htail
  all_goals
    rcases hwrites.queues with ⟨hne, hins, hdel⟩ | ⟨-, hempty⟩
    case' inr => exact fun _ => hempty
  · -- the state word: where the new state has to be at rest, the queues were empty before
    intro hrest
    have hrest : s.registry.resizeState.AtRest := hrest
    rw [hwrites.resizeState] at hrest
    have hold : w.server.orch.NothingQueued := by
      cases a with
      | resizeState st =>
          rcases hrest with hst | hst | hst
          · obtain rfl : st = .normal := hst
            rcases hhead.1 with hgc | hcopy
            · exact h.rest (Or.inr (Or.inr hgc))
            · exact hclean hcopy
          · obtain rfl : st = .preResize := hst
            exact h.rest (Or.inl hhead.1)
          · obtain rfl : st = .gcPending := hst
            exact hdrained rfl
      | blocked | generation | createRegion | copyPacked | copyBuckets | fillEpoch | resetLanes | published
      | previousVersion | currentVersion | switchRegion | newWrappers | dropPendingAck | ackWaitStart | replay
      | cleanupAllowed | gcStartTime | reclaimOld => exact h.rest hrest
    exact ⟨hins.trans hold.1, hdel.trans hold.2⟩
  · intro hover
    have hover : OrchStore.drained prog = true := hover
    have hold : w.server.orch.NothingQueued := by
      cases a with
      | resizeState st => exact absurd hover (by rw [hhead.2]; exact Bool.false_ne_true)
      | replay => exact absurd rfl hne
      | blocked | generation | createRegion | copyPacked | copyBuckets | fillEpoch | resetLanes | published
      | previousVersion | currentVersion | switchRegion | newWrappers | dropPendingAck | ackWaitStart
      | cleanupAllowed | gcStartTime | reclaimOld => exact hdrained hover
    exact ⟨hins.trans hold.1, hdel.trans hold.2⟩

/-- **One step of the world.** -/
theorem DeferInv.step {a : DeferStep} (h : DeferInv w) (htime : DefersInTime w a) (hok : w.step H a = .ok w') :
    DeferInv w' := by
  cases a with
  | load tid c =>
      cases hok
      split
      · refine h.congr rfl rfl rfl rfl (h.enqueued_put tid _ ?_)
        intro c' queued heq
        split at heq <;> cases heq
      · exact h
  | go tid => exact h.go htime hok
  | call c =>
      simp only [DeferWorld.step] at hok
      split at hok
      · cases hok
        exact h
      · obtain ⟨⟨s, reply⟩, hs, hok⟩ := Lib.bind_eq_ok.mp hok
        cases hok
        exact h.data (applyCall_keeps hs) rfl rfl h.enqueued
  | tick inp =>
      cases hok
      split
      · obtain ⟨horder, hover⟩ := tickStores_inOrder w.server.orch inp
        refine ⟨h.enqueued, horder, h.rest, fun hdrained => ?_⟩
        have hdrained : OrchStore.drained (w.server.orch.tickStores inp) = true := hdrained
        rw [hover] at hdrained
        cases hdrained
      · exact h
  | store =>
      change w.store H = .ok w' at hok
      unfold DeferWorld.store at hok
      split at hok
      · cases hok
        exact h
      · rename_i st prog hprog
        obtain ⟨s, hs, hok⟩ := Lib.bind_eq_ok.mp hok
        cases hok
        simp only [DefersInTime, hprog] at htime
        exact h.store hprog (htime st rfl) hs
  | clients a =>
      cases hok
      exact h.congr rfl rfl rfl rfl h.enqueued
  | stop =>
      cases hok
      split
      · exact h.congr rfl rfl rfl rfl h.enqueued
      · exact h

end Inv

/-! ## Whole calls and ticks -/

section Whole

variable {H : HashFn} {w : DeferWorld}

/-- A call, by the branch it takes at the flag. -/
theorem call_eq (H : HashFn) (s : NumaServer) (c : DirectCall) :
    s.call H c = if c.structural && s.orch.mutationsBlocked then .ok ((s.enqueue c).2, NumaServer.deferredReply)
      else s.applyCall H c := by
  cases c with
  | get loc => rfl
  | update loc key val => rfl
  | put loc key val reply => rfl
  | remove loc key => rfl

/-- The stores of the orchestrator with no handler in between. -/
theorem stores_reach {l : List OrchStore} (rest : List OrchStore) {s : Server} (hprog : w.prog = l ++ rest)
    (hrun : l.foldlM (Server.exec H) w.server.orch = .ok s) :
    Lib.Reaches (DeferWorld.step H) Lib.anyStep w { w with server := { w.server with orch := s }, prog := rest } := by
  induction l generalizing w with
  | nil =>
      cases hrun
      obtain ⟨server, prog, calls⟩ := w
      obtain rfl : prog = rest := hprog
      exact .refl
  | cons a l ih =>
      rw [List.foldlM_cons] at hrun
      obtain ⟨t, ht, hrun⟩ := Lib.bind_eq_ok.mp hrun
      have hstore : w.step H .store = .ok { w with server := { w.server with orch := t }, prog := l ++ rest } := by
        show w.store H = _
        unfold DeferWorld.store
        rw [hprog]
        simp only [List.cons_append, ht, Exec.ok_bind]
        rfl
      have hrest := ih (w := { w with server := { w.server with orch := t }, prog := l ++ rest }) rfl hrun
      exact Relation.ReflTransGen.head ⟨.store, trivial, hstore⟩ hrest

/-- A tick with no handler in between. -/
theorem tick_reaches (inp : TickInput) {s : Server} (hprog : w.prog = []) (hint : w.server.intercepting = true)
    (hok : w.server.orch.checkState H inp = .ok s) :
    Lib.Reaches (DeferWorld.step H) Lib.anyStep w { w with server := { w.server with orch := s } } := by
  have htick : w.step H (.tick inp) = .ok { w with prog := w.server.orch.tickStores inp } := by
    simp [DeferWorld.step, hprog, hint]
  have hstores := stores_reach (w := { w with prog := w.server.orch.tickStores inp }) []
    (List.append_nil _).symm ((tickStores_run H w.server.orch inp).trans hok)
  obtain ⟨server, prog, calls⟩ := w
  obtain rfl : prog = [] := hprog
  exact Relation.ReflTransGen.head ⟨.tick inp, trivial, htick⟩ hstores

/-- A thread that is idle again, with the server left as `s`. -/
theorem put_idle {tid : Nat} (hidle : w.calls tid = .idle) (s s' : NumaServer) (pc pc' : HandlerPc) :
    ((w.put tid s' pc).put tid s pc').put tid s .idle = { w with server := s } := by
  unfold DeferWorld.put
  simp only [Function.update_idem]
  rw [← hidle, Function.update_eq_self]

/-- A call with nobody in between. -/
theorem call_reaches (tid : Nat) {c : DirectCall} {r : NumaServer × ReplyValue} (hidle : w.calls tid = .idle)
    (hok : w.server.call H c = .ok r) :
    Lib.Reaches (DeferWorld.step H) Lib.anyStep w { w with server := r.1 } := by
  rw [call_eq] at hok
  cases hc : c.structural with
  | false =>
      have hok : w.server.applyCall H c = .ok r := by simpa [hc] using hok
      refine Relation.ReflTransGen.single ⟨.call c, trivial, ?_⟩
      simp [DeferWorld.step, hc, hok]
  | true =>
      rw [hc, Bool.true_and] at hok
      -- the load of the flag, the work and the reply
      obtain ⟨pc, pc', hload, hwork, hreply⟩ : ∃ pc pc', w.step H (.load tid c) = .ok (w.put tid w.server pc) ∧
          (w.put tid w.server pc).step H (.go tid) = .ok ((w.put tid w.server pc).put tid r.1 pc') ∧
          ((w.put tid w.server pc).put tid r.1 pc').step H (.go tid)
            = .ok (((w.put tid w.server pc).put tid r.1 pc').put tid r.1 .idle) := by
        split at hok
        · rename_i hblocked
          cases hok
          refine ⟨.enqueue c, .deferred c (w.server.enqueue c).1, ?_, ?_, ?_⟩
          · simp [DeferWorld.step, hidle, hc, hblocked]
          · simp [DeferWorld.step, DeferWorld.go]
            rfl
          · simp [DeferWorld.step, DeferWorld.go]
            rfl
        · rename_i hclear
          refine ⟨.apply c, .applied r.2, ?_, ?_, ?_⟩
          · simp [DeferWorld.step, hidle, hc, hclear]
          · have hok' : (w.put tid w.server (.apply c)).server.applyCall H c = .ok r := hok
            simp [DeferWorld.step, DeferWorld.go, hok']
          · simp [DeferWorld.step, DeferWorld.go]
            rfl
      have hrun : Lib.Reaches (DeferWorld.step H) Lib.anyStep w _ :=
        ((Lib.Reaches.snoc .refl trivial hload).snoc trivial hwork).snoc trivial hreply
      rw [put_idle hidle] at hrun
      exact hrun

/-- **The steps of `Numa.Direct` are runs here.** -/
theorem deferWorld_reaches {s s' : NumaServer} (hint : s.intercepting = true)
    (h : Lib.Reaches (NumaServer.step H) Lib.anyStep s s') :
    Lib.Reaches (DeferWorld.step H) Lib.anyStep s.deferWorld s'.deferWorld ∧ s'.intercepting = true := by
  refine h.invariant (P := fun t => Lib.Reaches (DeferWorld.step H) Lib.anyStep s.deferWorld t.deferWorld ∧
    t.intercepting = true) ⟨.refl, hint⟩ ?_
  rintro t a t' ⟨hrun, hint⟩ - hok
  cases a with
  | tick inp =>
      obtain ⟨u, hu, hok⟩ := Lib.bind_eq_ok.mp hok
      cases hok
      exact ⟨hrun.trans (tick_reaches (w := t.deferWorld) inp rfl hint hu), hint⟩
  | call c =>
      cases hcall : t.call H c with
      | error e =>
          simp only [NumaServer.step, hcall] at hok
          cases hok
      | ok r =>
          simp only [NumaServer.step, hcall] at hok
          cases hok
          obtain ⟨_, _, _, _, _, -, hkeep⟩ := call_keeps hcall
          refine ⟨hrun.trans (call_reaches (w := t.deferWorld) 0 rfl hcall), ?_⟩
          rw [hkeep]
          exact hint

/-- A tick, a put and another tick. -/
theorem deferWorld_reaches_seven : ∃ s',
    Lib.Reaches (NumaServer.step fastHasher64) Lib.anyStep ((rowStore 423 0 [7]).numaServer 1 1) s' ∧
    Lib.Reaches (DeferWorld.step fastHasher64) Lib.anyStep ((rowStore 423 0 [7]).numaServer 1 1).deferWorld s'.deferWorld := by
  obtain ⟨s', hrun, -⟩ : ∃ s', Lib.Reaches (NumaServer.step fastHasher64) Lib.anyStep ((rowStore 423 0 [7]).numaServer 1 1) s' ∧
      s'.intercepting = true := Lib.exists_along
    [.tick calmTick, .call (.put 1283 9 5 ⟨false, 0⟩), .tick calmTick] (by decide +kernel)
  exact ⟨s', hrun, (deferWorld_reaches rfl hrun).1⟩

end Whole

/-! ## Whole runs -/

/-- **No deferred mutation is lost as long as the enqueues come in time.** From any bulk load, with any number of handler
    threads, and whatever the clients do to the registry and the regions meanwhile. -/
theorem deferral_safe {H : HashFn} {st : Store} {sSlow sStop : Nat} {w : DeferWorld}
    (hrun : Lib.Reaches (DeferWorld.step H) DefersInTime (st.numaServer sSlow sStop).deferWorld w) : DeferralSafe w := by
  have hinv : DeferInv w := by
    refine hrun.invariant (P := DeferInv) ?_ (fun v a v' hv htime hstep => hv.step htime hstep)
    exact ⟨fun tid c queued hpc => HandlerPc.noConfusion hpc, trivial, fun _ => ⟨rfl, rfl⟩, fun hover => Bool.noConfusion hover⟩
  refine ⟨hinv.enqueued, fun hst _ => hinv.rest ?_⟩
  rcases hst with hst | hst
  · exact Or.inl hst
  · exact Or.inr (Or.inl hst)

/-- The resize is over and key 9 is found with its value. -/
def replayedNine (w : DeferWorld) : Bool :=
  w.server.orch.registry.resizeState = .normal ∧ w.server.orch.registry.currentVersion = 2 ∧
    Lib.passes (· == some 5) ((w.server.orch.store w.server.orch.lookup).numaSearch fastHasher64 9) = true

/-- A put is blocked in `COPYING` and replayed in `DRAIN_OLD`: behind the resize its key is found. -/
theorem deferral_safe_seven : ∃ w, Lib.Reaches (DeferWorld.step fastHasher64) DefersInTime
      ((rowStore 423 0 [7]).numaServer 1 1).deferWorld w ∧ replayedNine w = true ∧ DeferralSafe w := by
  obtain ⟨w, hrun, hw⟩ : ∃ w, Lib.Reaches (DeferWorld.step fastHasher64) DefersInTime
      ((rowStore 423 0 [7]).numaServer 1 1).deferWorld w ∧ replayedNine w = true := Lib.exists_along
    (.tick calmTick :: .replicate 3 .store ++ .tick calmTick :: .replicate 3 .store ++
      .load 0 (.put 1283 9 5 ⟨false, 0⟩) :: .replicate 2 (.go 0) ++ .replicate 14 .store ++
      .tick calmTick :: .replicate 3 .store ++ .tick calmTick :: .replicate 6 .store ++
      .tick lateTick :: .replicate 8 .store) (by decide +kernel)
  exact ⟨w, hrun, hw, deferral_safe hrun⟩

/-- As long as mutations are blocked, puts fill the queue to any length up to its limit. -/
theorem queue_fills {H : HashFn} {w : DeferWorld} (hidle : w.calls 0 = .idle) (hint : w.server.intercepting = true)
    (hblocked : w.server.orch.mutationsBlocked = true) (hempty : w.server.orch.deferredInserts = []) :
    ∀ n, n ≤ kMaxDeferredDepth → ∃ w', Lib.Reaches (DeferWorld.step H) Lib.anyStep w w' ∧ w'.calls 0 = .idle ∧
      w'.server.intercepting = true ∧ w'.server.orch.mutationsBlocked = true ∧
      w'.server.orch.deferredInserts.length = n := by
  intro n
  induction n with
  | zero => exact fun _ => ⟨w, .refl, hidle, hint, hblocked, by rw [hempty]; rfl⟩
  | succ n ih =>
      intro hn
      obtain ⟨v, hrun, hidle, hint, hblocked, hlen⟩ := ih (Nat.le_of_succ_le hn)
      -- one more put, from its load of the flag to its reply
      have hroom : ¬ v.server.orch.deferredInserts.length ≥ kMaxDeferredDepth := by omega
      have hcall : v.server.call H (.put 0 0 0 ⟨false, 0⟩) = .ok (v.server.deferPut 0 0, NumaServer.deferredReply) := by
        rw [call_eq, hblocked]
        rfl
      have hput : v.server.deferPut 0 0 = { v.server with
          orch := { v.server.orch with deferredInserts := v.server.orch.deferredInserts ++ [(0, 0)] } } := by
        unfold NumaServer.deferPut Server.deferInsert
        rw [if_pos hint, if_neg hroom]
      refine ⟨_, hrun.trans (call_reaches 0 hidle hcall), hidle, ?_⟩
      rw [hput]
      refine ⟨hint, hblocked, ?_⟩
      rw [List.length_append, hlen]
      rfl

/-- And the put after that is lost: it replies `DEFERRED` and is in no queue. -/
theorem full_queue_loses {H : HashFn} {w : DeferWorld} (hidle : w.calls 0 = .idle) (hint : w.server.intercepting = true)
    (hblocked : w.server.orch.mutationsBlocked = true) (hempty : w.server.orch.deferredInserts = []) (loc : Nat)
    (key val : U64) (reply : ReplyValue) : ∃ w', Lib.Reaches (DeferWorld.step H) Lib.anyStep w w' ∧
      w'.calls 0 = .deferred (.put loc key val reply) false := by
  obtain ⟨v, hrun, hidle, hint, hblocked, hlen⟩ := queue_fills hidle hint hblocked hempty kMaxDeferredDepth (le_refl _)
  have hfull : v.server.orch.deferredInserts.length ≥ kMaxDeferredDepth := hlen.ge
  -- the enqueue fails, and the handler does not notice
  have hload : v.step H (.load 0 (.put loc key val reply)) = .ok (v.put 0 v.server (.enqueue (.put loc key val reply))) := by
    simp [DeferWorld.step, hidle, hblocked, DirectCall.structural]
  have hqueued : (v.server.enqueue (.put loc key val reply)).1 = false := by
    simp [NumaServer.enqueue, Server.deferInsert, hfull]
  have hgo : (v.put 0 v.server (.enqueue (.put loc key val reply))).step H (.go 0)
      = .ok ((v.put 0 v.server (.enqueue (.put loc key val reply))).put 0
          (v.server.enqueue (.put loc key val reply)).2 (.deferred (.put loc key val reply) false)) := by
    rw [← hqueued]
    simp [DeferWorld.step, DeferWorld.go]
    rfl
  exact ⟨_, (hrun.snoc trivial hload).snoc trivial hgo, DeferWorld.put_calls_self ..⟩

/-- `create_shared_numa_region` fails. -/
def failTick : TickInput := { calmTick with create := .shmOpenFailed }

/-- The server of key 7 in `COPYING`, before its attempt to create the region. -/
def copyingServer : NumaServer :=
  { (rowStore 423 0 [7]).numaServer 1 1 with orch := (sevenServer.setState .preResize).setState .copying }

/-- The stores that are left of the tick then. -/
def abortStores : List OrchStore :=
  .createRegion ((sevenServer.setState .preResize).registry.copyPlan 1) .shmOpenFailed :: OrchStore.setState .normal

/-- The tick that fails, up to `COPYING`. -/
theorem copyingServer_reached : Lib.Reaches (DeferWorld.step fastHasher64) Lib.anyStep
    ((rowStore 423 0 [7]).numaServer 1 1).deferWorld ⟨copyingServer, abortStores, fun _ => .idle⟩ := by
  have hpre : Lib.Reaches (DeferWorld.step fastHasher64) Lib.anyStep ((rowStore 423 0 [7]).numaServer 1 1).deferWorld
      { (rowStore 423 0 [7]).numaServer 1 1 with orch := sevenServer.setState .preResize }.deferWorld :=
    tick_reaches calmTick rfl rfl rfl
  have htick := hpre.snoc (a := .tick failTick) (u := ⟨{ (rowStore 423 0 [7]).numaServer 1 1 with
    orch := sevenServer.setState .preResize }, OrchStore.setState .copying ++ abortStores, fun _ => .idle⟩) trivial rfl
  exact htick.trans (stores_reach abortStores rfl rfl)

/-- A put of key 9 is enqueued in `COPYING` and the creation of the region fails: the state is `NORMAL`, no call is under
    way, and the put is still in the queue. And with puts instead until the queue is full, the next one replies
    `DEFERRED` without being enqueued. -/
theorem deferral_lost :
    (∃ w, Lib.Reaches (DeferWorld.step fastHasher64) Lib.anyStep ((rowStore 423 0 [7]).numaServer 1 1).deferWorld w ∧
      w.server.orch.registry.resizeState = .normal ∧ (∀ tid, w.calls tid = .idle) ∧
      w.server.orch.deferredInserts = [(9, 5)] ∧ ¬ DeferralSafe w) ∧
    ∃ w, Lib.Reaches (DeferWorld.step fastHasher64) Lib.anyStep ((rowStore 423 0 [7]).numaServer 1 1).deferWorld w ∧
      w.calls 0 = .deferred (.put 1283 9 5 ⟨false, 0⟩) false ∧ ¬ DeferralSafe w := by
  constructor
  · have hcall : copyingServer.call fastHasher64 (.put 1283 9 5 ⟨false, 0⟩)
        = .ok (copyingServer.deferPut 9 5, NumaServer.deferredReply) := rfl
    have hput := copyingServer_reached.trans (call_reaches 0 rfl hcall)
    have hrun := hput.trans (stores_reach [] (List.append_nil _).symm
      (s := (copyingServer.deferPut 9 5).orch.setState .normal) rfl)
    refine ⟨_, hrun, rfl, fun _ => rfl, rfl, fun hsafe => ?_⟩
    have hempty := (hsafe.replayed (Or.inl rfl) (fun _ => rfl)).1
    cases hempty
  · obtain ⟨w, hrun, hw⟩ := full_queue_loses (H := fastHasher64) (w := ⟨copyingServer, abortStores, fun _ => .idle⟩)
      rfl rfl rfl rfl 1283 9 5 ⟨false, 0⟩
    refine ⟨w, copyingServer_reached.trans hrun, hw, fun hsafe => ?_⟩
    have hqueued := hsafe.enqueued 0 _ _ hw
    cases hqueued

end Outback
