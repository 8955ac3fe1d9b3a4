import Outback.Numa.Correctness.Accesses
import Outback.Numa.Correctness.TickStores
import Mathlib.Order.Interval.Finset.Nat

/-!
# `Numa.Correctness.Acks` — counting the acknowledgements of an epoch

`do_copy` starts `clients_pending_ack` of a new epoch at the number of registered clients, and every connect and every
remap takes one away. **`acks_counted`**: once the counter of an epoch is filled, it counts the clients that were
registered at the publication and have not remapped, in every run in which only such clients acknowledge, none registers
between the filling and the publication, and the orchestrator does not give up on one. **`acks_wrap`**: the first connect
already breaks it, for connecting acknowledges too; and a client that connects late answers for one that has not remapped.

The two halves of the argument: `Registering` is kept by every run and says that `registered_clients` counts the slots in
`registered`; `OrchOk` is kept as well and says which versions the orchestrator's coming stores are about.
-/

namespace Outback

/-! ## The statement -/

/-- The current epoch's counter is the number of clients that were registered when it was published and have not
    acknowledged it. -/
def AcksCounted (w : FineWorld) : Prop := w.registry.currentEpoch.clientsPendingAck.toNat = w.owed.card

instance (w : FineWorld) : Decidable (AcksCounted w) := inferInstanceAs (Decidable (_ = _))

/-- What the count of epoch `v` asks of a thread with slot `slot`: not to register between the filling of the epoch and
    its publication, and not to acknowledge it, or an epoch in the same place of the table, unless it is owed. -/
def ClientPc.Accounted (v : Nat) (w : FineWorld) (slot : Option Nat) : ClientPc → Prop
  | .countClient _ => v ≤ w.registry.currentVersion
  | .acknowledge ver => w.registry.currentVersion ≤ v → ver % kMaxEpochSlots = v % kMaxEpochSlots →
      w.registry.currentVersion = v ∧ ver = v ∧ slot.any (· ∈ w.owed) = true
  | _ => True

instance (v : Nat) (w : FineWorld) (slot : Option Nat) (pc : ClientPc) : Decidable (pc.Accounted v w slot) :=
  match pc with
  | .countClient _ => inferInstanceAs (Decidable (_ ≤ _))
  | .acknowledge _ => inferInstanceAs (Decidable (_ → _ → _ ∧ _ ∧ _))
  | .idle | .checkReady | .loadVersion _ | .loadPublished _ _ | .claimSlot _ | .openRegion _ _ | .loadGeneration _ _
  | .heartbeat | .checkVersion _ => inferInstanceAs (Decidable True)

/-- What it asks of the orchestrator: not to store 0 over a client that is owed. -/
def OrchStore.Accounted (v : Nat) (w : FineWorld) : OrchStore → Prop
  | .dropPendingAck version => version = v → w.owed = ∅
  | _ => True

instance (v : Nat) (w : FineWorld) (a : OrchStore) : Decidable (a.Accounted v w) :=
  match a with
  | .dropPendingAck _ => inferInstanceAs (Decidable (_ → _))
  | .blocked _ | .resizeState _ | .generation | .createRegion _ _ | .copyPacked _ | .copyBuckets _ | .fillEpoch _
  | .resetLanes _ | .published _ | .previousVersion _ | .currentVersion _ | .switchRegion _ | .newWrappers _ _
  | .ackWaitStart _ | .replay | .cleanupAllowed _ | .gcStartTime _ | .reclaimOld => inferInstanceAs (Decidable True)

/-- What the count of epoch `v` asks of a step. -/
def Accounted (v : Nat) (w : FineWorld) : FineStep → Prop
  | .advance tid _ => (w.threads tid).pc.Accounted v w (w.threads tid).region.clientSlot
  | .store => ∀ st ∈ w.prog.head?, st.Accounted v w
  | _ => True

instance (v : Nat) (w : FineWorld) (a : FineStep) : Decidable (Accounted v w a) :=
  match a with
  | .advance _ _ => inferInstanceAs (Decidable (ClientPc.Accounted _ _ _ _))
  | .store => inferInstanceAs (Decidable (∀ st ∈ w.prog.head?, st.Accounted v w))
  | .tick _ | .connect _ _ | .check _ | .operate _ _ => inferInstanceAs (Decidable True)

/-- The counter of epoch `v` has just been filled: the server has started, or `do_copy` has stored it. -/
inductive EpochFilled (H : HashFn) (start : FineWorld) : Nat → FineWorld → Prop where
  | setup : EpochFilled H start 1 start
  | copied {w w' : FineWorld} {plan : CopyPlan} {prog : List OrchStore}
      (hrun : Lib.Reaches (FineWorld.step H) Lib.anyStep start w) (hprog : w.prog = .fillEpoch plan :: prog)
      (hstore : w.store H = .ok w') : EpochFilled H start plan.newVer w'

/-! ## The client table -/

/-- The thread is about to count itself. -/
def FineThread.Counting (t : FineThread) : Prop := ∃ ver, t.pc = .countClient ver

/-- `registered_clients` counts the slots in `registered`; who is about to count itself has a slot of its own. -/
structure Registering (w : FineWorld) : Prop where
  count : w.registry.registeredClients.toNat = w.registered.card
  active : ∀ i ∈ w.registered, i < kMaxClients ∧ (w.registry.clients i).active = true
  claimed : ∀ tid, (w.threads tid).Counting → ∃ i, (w.threads tid).region.clientSlot = some i ∧ i < kMaxClients ∧
    (w.registry.clients i).active = true ∧ i ∉ w.registered
  apart : ∀ tid tid', (w.threads tid).Counting → (w.threads tid').Counting →
    (w.threads tid).region.clientSlot = (w.threads tid').region.clientSlot → tid = tid'

section Table

variable {H : HashFn} {w w' : FineWorld}

/-- A step that counts nobody and leaves the flags and those about to count themselves as they were. -/
theorem Registering.congr (h : Registering w) (hregistered : w'.registered = w.registered)
    (hcount : w'.registry.registeredClients = w.registry.registeredClients)
    (hactive : ∀ i, (w'.registry.clients i).active = (w.registry.clients i).active)
    (hthreads : ∀ tid, (w'.threads tid).Counting →
      (w.threads tid).Counting ∧ (w'.threads tid).region.clientSlot = (w.threads tid).region.clientSlot) :
    Registering w' := by
  refine ⟨by rw [hcount, hregistered, h.count], ?_, ?_, ?_⟩
  · intro i hi
    rw [hactive]
    exact h.active i (hregistered ▸ hi)
  · intro tid hpc
    obtain ⟨hold, hslot⟩ := hthreads tid hpc
    obtain ⟨i, hi, hlt, hact, hnew⟩ := h.claimed tid hold
    exact ⟨i, hslot.trans hi, hlt, (hactive i).trans hact, by rw [hregistered]; exact hnew⟩
  · intro tid tid' hpc hpc' heq
    obtain ⟨hold, hslot⟩ := hthreads tid hpc
    obtain ⟨hold', hslot'⟩ := hthreads tid' hpc'
    exact h.apart tid tid' hold hold' (by rw [← hslot, heq, hslot'])

/-- At most `kMaxClients` are counted. -/
theorem Registering.card_le (h : Registering w) : w.registered.card ≤ kMaxClients := by
  have hsub : w.registered ⊆ Finset.range kMaxClients := fun i hi => Finset.mem_range.mpr (h.active i hi).1
  calc w.registered.card ≤ (Finset.range kMaxClients).card := Finset.card_le_card hsub
    _ = kMaxClients := Finset.card_range kMaxClients

theorem freeClientSlot_some {reg : SharedNumaRegistry} {i : Nat} (h : reg.freeClientSlot = some i) :
    i < kMaxClients ∧ (reg.clients i).active = false := by
  have hmem : i ∈ List.range kMaxClients := List.mem_of_find?_eq_some h
  have hfree := List.find?_some h
  exact ⟨List.mem_range.mp hmem, by simpa using hfree⟩

theorem heartbeat_active (reg : SharedNumaRegistry) (slot : Option Nat) (now : U64) (i : Nat) :
    ((reg.heartbeat slot now).clients i).active = (reg.clients i).active := by
  cases slot with
  | none => rfl
  | some j =>
      unfold SharedNumaRegistry.heartbeat
      by_cases hij : i = j
      · subst hij
        simp
      · simp [hij]

/-- The counting threads behind a step of thread `tid` that does not count next are among those before. -/
theorem counting_putView (w : FineWorld) (tid : Nat) (c : ClientView) {pc : ClientPc} (hpc : ∀ ver, pc ≠ .countClient ver)
    (t : Nat) (h : ((w.putView tid c pc).threads t).Counting) :
    t ≠ tid ∧ (w.threads t).Counting ∧
      ((w.putView tid c pc).threads t).region.clientSlot = (w.threads t).region.clientSlot := by
  by_cases ht : t = tid
  · subst ht
    rw [FineWorld.putView_threads_self] at h
    obtain ⟨ver, hver⟩ := h
    exact absurd hver (hpc ver)
  · rw [FineWorld.putView_threads_of_ne _ _ _ _ ht] at h ⊢
    exact ⟨ht, h, rfl⟩

theorem registeredAfter_of_ne {tid : Nat} (h : ∀ ver, (w.threads tid).pc ≠ .countClient ver) :
    w.registeredAfter tid = w.registered := by
  unfold FineWorld.registeredAfter
  split
  · rename_i ver i hpc hslot
    exact absurd hpc (h ver)
  · rfl

/-- A slot is claimed: it was free, so nobody else has it. -/
theorem Registering.claim (h : Registering w) (tid ver : Nat) {i : Nat} {c : ClientView}
    (hfree : w.registry.freeClientSlot = some i)
    (hreg : c.shared.registry = { w.registry with
      clients := Function.update w.registry.clients i { w.registry.clients i with active := true } })
    (hslot : c.region.clientSlot = some i) : Registering (w.putView tid c (.countClient ver)) := by
  obtain ⟨hlt, hinactive⟩ := freeClientSlot_some hfree
  -- whoever is active has another slot
  have hi : ∀ {j}, (w.registry.clients j).active = true → j ≠ i := by
    rintro j hj rfl
    rw [hinactive] at hj
    cases hj
  have hactive : ∀ j, (w.registry.clients j).active = true →
      ((w.putView tid c (.countClient ver)).registry.clients j).active = true := by
    intro j hj
    show (c.shared.registry.clients j).active = true
    rw [hreg]
    simp only [Function.update_of_ne (hi hj), hj]
  have hnew : ((w.putView tid c (.countClient ver)).registry.clients i).active = true := by
    show (c.shared.registry.clients i).active = true
    rw [hreg]
    simp
  -- what another thread that is about to count itself has
  have hother : ∀ t, t ≠ tid → ((w.putView tid c (.countClient ver)).threads t).Counting →
      (w.threads t).Counting ∧ ∃ j, (w.threads t).region.clientSlot = some j ∧ j < kMaxClients ∧
        (w.registry.clients j).active = true ∧ j ∉ w.registered := by
    intro t ht hpc
    rw [FineWorld.putView_threads_of_ne _ _ _ _ ht] at hpc
    exact ⟨hpc, h.claimed t hpc⟩
  refine ⟨?_, fun j hj => ⟨(h.active j hj).1, hactive j (h.active j hj).2⟩, ?_, ?_⟩
  · show c.shared.registry.registeredClients.toNat = w.registered.card
    rw [hreg]
    exact h.count
  · intro t hpc
    by_cases ht : t = tid
    · subst ht
      rw [FineWorld.putView_threads_self]
      exact ⟨i, hslot, hlt, hnew, fun hmem => hi (h.active i hmem).2 rfl⟩
    · obtain ⟨-, j, hj, hjlt, hjact, hjnew⟩ := hother t ht hpc
      rw [FineWorld.putView_threads_of_ne _ _ _ _ ht]
      exact ⟨j, hj, hjlt, hactive j hjact, hjnew⟩
  · intro t t' hpc hpc' heq
    by_cases ht : t = tid
    · by_cases ht' : t' = tid
      · rw [ht, ht']
      · obtain ⟨-, j, hj, -, hjact, -⟩ := hother t' ht' hpc'
        subst ht
        rw [FineWorld.putView_threads_self, FineWorld.putView_threads_of_ne _ _ _ _ ht', hj] at heq
        exact absurd (Option.some.inj (heq.symm.trans hslot)) (hi hjact)
    · obtain ⟨hold, j, hj, -, hjact, -⟩ := hother t ht hpc
      by_cases ht' : t' = tid
      · subst ht'
        rw [FineWorld.putView_threads_self, FineWorld.putView_threads_of_ne _ _ _ _ ht, hj] at heq
        exact absurd (Option.some.inj (heq.trans hslot)) (hi hjact)
      · obtain ⟨hold', -⟩ := hother t' ht' hpc'
        rw [FineWorld.putView_threads_of_ne _ _ _ _ ht, FineWorld.putView_threads_of_ne _ _ _ _ ht'] at heq
        exact h.apart t t' hold hold' heq

/-- A client is counted. -/
theorem Registering.counted (h : Registering w) {tid ver : Nat} (env : OpEnv)
    (hpc : (w.threads tid).pc = .countClient ver) : Registering (w.advance tid env) := by
  obtain ⟨i, hslot, hlt, hact, hnew⟩ := h.claimed tid ⟨ver, hpc⟩
  have hregistered : (w.advance tid env).registered = insert i w.registered := by
    show w.registeredAfter tid = _
    simp only [FineWorld.registeredAfter, hpc, hslot]
  have hreg : (w.advance tid env).registry
      = { w.registry with registeredClients := w.registry.registeredClients + 1 } := by
    show ((w.view tid).advance tid env (w.threads tid).pc).1.shared.registry = _
    rw [hpc]
    rfl
  have hnext : ∀ ver, ((w.view tid).advance tid env (w.threads tid).pc).2 ≠ .countClient ver := by
    rw [hpc]
    exact fun ver => ClientPc.noConfusion
  have hother : ∀ t, ((w.advance tid env).threads t).Counting → t ≠ tid ∧ (w.threads t).Counting ∧
      ((w.advance tid env).threads t).region.clientSlot = (w.threads t).region.clientSlot :=
    fun t => counting_putView w tid _ hnext t
  refine ⟨?_, ?_, ?_, ?_⟩
  · -- the machine word does not wrap: there are at most `kMaxClients` slots
    have hcard := h.card_le
    rw [hreg, hregistered, Finset.card_insert_of_notMem hnew, BitVec.toNat_add, h.count]
    unfold kMaxClients at hcard
    simp
    omega
  · intro j hj
    rw [hregistered] at hj
    rw [hreg]
    rcases Finset.mem_insert.mp hj with rfl | hj
    · exact ⟨hlt, hact⟩
    · exact h.active j hj
  · intro t ht
    obtain ⟨hne, hold, hsame⟩ := hother t ht
    obtain ⟨j, hj, hjlt, hjact, hjnew⟩ := h.claimed t hold
    refine ⟨j, hsame.trans hj, hjlt, by rw [hreg]; exact hjact, ?_⟩
    rw [hregistered, Finset.mem_insert, not_or]
    refine ⟨?_, hjnew⟩
    rintro rfl
    exact hne (h.apart t tid hold ⟨ver, hpc⟩ (hj.trans hslot.symm))
  · intro t t' ht ht' heq
    obtain ⟨-, hold, hsame⟩ := hother t ht
    obtain ⟨-, hold', hsame'⟩ := hother t' ht'
    exact h.apart t t' hold hold' (by rw [← hsame, heq, hsame'])

theorem Registering.advance (h : Registering w) (tid : Nat) (env : OpEnv) : Registering (w.advance tid env) := by
  have hview : (w.view tid).shared.registry = w.registry := rfl
  -- an access that neither claims nor counts
  have hkeep : (∀ ver, (w.threads tid).pc ≠ .countClient ver) →
      (∀ ver, ((w.view tid).advance tid env (w.threads tid).pc).2 ≠ .countClient ver) →
      (w.advance tid env).registry.registeredClients = w.registry.registeredClients →
      (∀ i, ((w.advance tid env).registry.clients i).active = (w.registry.clients i).active) →
      Registering (w.advance tid env) := fun hpc hnext hcount hactive =>
    h.congr (registeredAfter_of_ne hpc) hcount hactive (fun t ht => (counting_putView w tid _ hnext t ht).2)
  rcases (w.view tid).advance_cases tid env (w.threads tid).pc with
    ⟨hreg, hpc, -, hnext⟩ | ⟨ver, i, hpc, hfree, hreg, hslot, hnext⟩ | ⟨ver, hpc, -⟩ | ⟨ver, hpc, hnext, hreg⟩ |
    ⟨hpc, hnext, hreg⟩
  · have hreg : (w.advance tid env).registry = w.registry := hreg
    exact hkeep hpc hnext (by rw [hreg]) (fun i => by rw [hreg])
  · have hpc' : ∀ ver, (w.threads tid).pc ≠ .countClient ver := by
      rw [hpc]
      exact fun ver => ClientPc.noConfusion
    have hclaim := h.claim tid ver hfree hreg hslot
    rw [← hnext] at hclaim
    exact hclaim.congr (registeredAfter_of_ne hpc') rfl (fun _ => rfl) (fun t ht => ⟨ht, rfl⟩)
  · exact h.counted env hpc
  · have hreg : (w.advance tid env).registry = w.registry.acknowledge ver := hreg
    exact hkeep (by simp [hpc]) (by simp [hnext]) (by rw [hreg]; rfl) (fun i => by rw [hreg]; rfl)
  · have hreg : (w.advance tid env).registry = w.registry.heartbeat (w.threads tid).region.clientSlot env.now := hreg
    refine hkeep (by simp [hpc]) (by simp [hnext]) ?_ (fun i => ?_)
    · rw [hreg]
      cases (w.threads tid).region.clientSlot <;> rfl
    · rw [hreg]
      exact heartbeat_active _ _ _ i

/-- **The client table over one step.** -/
theorem Registering.step {a : FineStep} (h : Registering w) (hok : w.step H a = .ok w') : Registering w' := by
  rcases FineWorld.step_cases hok with rfl | ⟨inp, -, -, rfl⟩ | ⟨st, prog, s, -, -, hs, rfl⟩ |
    ⟨tid, c, pc, -, hsh, -, hpc, rfl⟩ | ⟨tid, env, -, rfl⟩ | ⟨tid, op, c, -, -, hc, rfl⟩
  · exact h
  · exact h.congr rfl rfl (fun _ => rfl) (fun t ht => ⟨ht, rfl⟩)
  · have hwrites := exec_writes hs
    refine h.congr rfl hwrites.registeredClients (fun i => ?_) (fun t ht => ⟨ht, rfl⟩)
    show (s.registry.clients i).active = (w.server.registry.clients i).active
    rw [hwrites.clients]
  · have hreg : (w.putView tid c pc).registry = w.registry := congrArg Shared.registry hsh
    have hnext : ∀ ver, pc ≠ .countClient ver := by
      rcases hpc with rfl | rfl | rfl <;> exact fun ver => ClientPc.noConfusion
    exact h.congr rfl (by rw [hreg]) (fun i => by rw [hreg]) (fun t ht => (counting_putView w tid _ hnext t ht).2)
  · exact h.advance tid env
  · obtain ⟨-, l, hreg⟩ := operate_keeps hc
    have hreg : (w.putView tid c .idle).registry = { w.registry with lanes := l } := hreg
    exact h.congr rfl (by rw [hreg]) (fun i => by rw [hreg])
      (fun t ht => (counting_putView w tid _ (fun ver => ClientPc.noConfusion) t ht).2)

end Table

/-! ## The orchestrator's coming stores -/

namespace OrchStore

/-- The next store that is not quiet publishes `v`. -/
def Publishes (v : Nat) : List OrchStore → Prop
  | [] => False
  | a :: prog => a = .currentVersion v ∨ (a.Quiet ∧ Publishes v prog)

/-- Which version a store is about, given the current one and the stores that follow. -/
def About (cur : Nat) (prog : List OrchStore) : OrchStore → Prop
  | .fillEpoch plan => plan.newVer = nextVersion cur ∧ Publishes plan.newVer prog
  | .currentVersion version => version = nextVersion cur
  | .dropPendingAck version => version = cur
  | _ => True

/-- The same for all the stores to come. -/
def AllAbout (cur : Nat) : List OrchStore → Prop
  | [] => True
  | a :: prog => a.About cur prog ∧ AllAbout (a.versionAfter cur) prog

end OrchStore

/-- What is published next is published by the first store that is not quiet. -/
theorem OrchStore.Publishes.head {v : Nat} {a : OrchStore} {prog : List OrchStore} (h : Publishes v (a :: prog))
    (hq : ¬ a.Quiet) : a = .currentVersion v := by
  rcases h with heq | ⟨hquiet, -⟩
  · exact heq
  · exact absurd hquiet hq

/-- The stores of a tick. -/
theorem tickStores_about (s : Server) (inp : TickInput) :
    OrchStore.AllAbout s.registry.currentVersion (s.tickStores inp) := by
  have hset : ∀ {cur : Nat} (st : ResizeState), OrchStore.AllAbout cur (OrchStore.setState st) := by
    simp [OrchStore.setState, OrchStore.AllAbout, OrchStore.About]
  have hforce : OrchStore.AllAbout s.registry.currentVersion (OrchStore.forceDrain s.registry.currentVersion) :=
    ⟨rfl, hset _⟩
  unfold Server.tickStores
  cases s.registry.resizeState with
  | normal =>
      dsimp only
      split
      · exact hset _
      · trivial
  | preResize =>
      dsimp only
      split
      · unfold OrchStore.doCopy
        split
        · simp [OrchStore.setState, OrchStore.copyInto, OrchStore.publish, OrchStore.finishCopy, OrchStore.AllAbout,
            OrchStore.About, OrchStore.versionAfter, OrchStore.Publishes, OrchStore.Quiet, SharedNumaRegistry.copyPlan]
        · simp [OrchStore.setState, OrchStore.AllAbout, OrchStore.About]
      · trivial
  | copying => trivial
  | readyToSwitch =>
      dsimp only [Server.waitStores]
      split
      · exact hset _
      · split
        · exact hforce
        · split <;> split <;>
            simp [OrchStore.forceDrain, OrchStore.setState, OrchStore.AllAbout, OrchStore.About, OrchStore.versionAfter]
  | drainOld =>
      dsimp only [Server.drainStores, OrchStore.finishDrain]
      split
      · trivial
      · split <;> simp [OrchStore.setState, OrchStore.AllAbout, OrchStore.About]
  | gcPending =>
      dsimp only [Server.gcStores, OrchStore.reclaim]
      split <;> split <;> try split
      all_goals simp [OrchStore.setState, OrchStore.AllAbout, OrchStore.About]

/-! ## The count -/

/-- `clients_pending_ack` of epoch `v`. -/
def FineWorld.pending (w : FineWorld) (v : Nat) : U64 := (w.registry.epochOf v).clientsPendingAck

/-- The count of epoch `v` once it is filled: it is superseded, or current and counts the clients that are owed, or about
    to be published and counts those registered. -/
def EpochCounted (v : Nat) (w : FineWorld) : Prop :=
  v < w.registry.currentVersion ∨
  (w.registry.currentVersion = v ∧ (w.pending v).toNat = w.owed.card) ∨
  (w.registry.currentVersion < v ∧ OrchStore.Publishes v w.prog ∧ (w.pending v).toNat = w.registered.card)

section Count

variable {H : HashFn} {w w' : FineWorld} {v : Nat}

/-- A step that leaves alone what the count is about. -/
theorem EpochCounted.congr (h : EpochCounted v w) (hver : w'.registry.currentVersion = w.registry.currentVersion)
    (hpend : w'.pending v = w.pending v) (howed : w'.owed = w.owed) (hregistered : w'.registered = w.registered)
    (hprog : OrchStore.Publishes v w.prog → OrchStore.Publishes v w'.prog) : EpochCounted v w' := by
  unfold EpochCounted
  rw [hver, hpend, howed, hregistered]
  rcases h with hlt | hcur | ⟨hlt, hpub, hcount⟩
  · exact Or.inl hlt
  · exact Or.inr (Or.inl hcur)
  · exact Or.inr (Or.inr ⟨hlt, hprog hpub, hcount⟩)

/-- A store that moves neither `current_version` nor a counter. -/
theorem EpochCounted.quiet {a : OrchStore} {prog : List OrchStore} {s : Server} (h : EpochCounted v w)
    (hprog : w.prog = a :: prog) (hq : a.Quiet) (hs : w.server.exec H a = .ok s) :
    EpochCounted v (w.stored a prog s) := by
  have hwrites := exec_writes hs
  refine h.congr ?_ (hwrites.pending hq v) ?_ rfl ?_
  · have hver : (w.stored a prog s).registry.currentVersion = a.versionAfter w.registry.currentVersion :=
      hwrites.currentVersion
    rw [hver]
    cases a <;> first | exact hq.elim | rfl
  · cases a <;> first | exact hq.elim | rfl
  · rw [hprog]
    rintro (rfl | ⟨-, hpub⟩)
    · exact hq.elim
    · exact hpub

/-- The counter of the next epoch is filled; it has another place in the table. -/
theorem EpochCounted.fillEpoch {plan : CopyPlan} {prog : List OrchStore} (h : EpochCounted v w)
    (hprog : w.prog = .fillEpoch plan :: prog) (hnew : plan.newVer = nextVersion w.registry.currentVersion) :
    EpochCounted v (w.stored (.fillEpoch plan) prog (w.server.fillEpoch plan)) := by
  rcases h with hlt | ⟨hcur, hcount⟩ | ⟨-, hpub, -⟩
  · exact Or.inl hlt
  · refine Or.inr (Or.inl ⟨hcur, ?_⟩)
    have hslot : v % kMaxEpochSlots ≠ plan.newVer % kMaxEpochSlots := by
      rw [hnew, hcur]
      exact (nextVersion_slot v).2
    have hpend : (w.stored (.fillEpoch plan) prog (w.server.fillEpoch plan)).pending v = w.pending v :=
      congrArg ResizeEpoch.clientsPendingAck (SharedNumaRegistry.setEpoch_of_ne _ _ hslot)
    rw [hpend]
    exact hcount
  · rw [hprog] at hpub
    cases hpub.head id

/-- A version is published: `v` itself, whose registered clients are owed from now on, or one behind it. -/
theorem EpochCounted.currentVersion {version : Nat} {prog : List OrchStore} (h : EpochCounted v w)
    (hprog : w.prog = .currentVersion version :: prog) (hnew : version = nextVersion w.registry.currentVersion) :
    EpochCounted v (w.stored (.currentVersion version) prog
      (w.server.withRegistry { w.server.registry with currentVersion := version })) := by
  have hlater := lt_nextVersion w.registry.currentVersion
  rcases h with hlt | ⟨hcur, -⟩ | ⟨-, hpub, hcount⟩
  · left
    show v < version
    omega
  · left
    show v < version
    omega
  · rw [hprog] at hpub
    cases hpub.head id
    exact Or.inr (Or.inl ⟨rfl, hcount⟩)

/-- The counter of the current epoch is stored as 0. -/
theorem EpochCounted.dropPendingAck {version : Nat} {prog : List OrchStore} (h : EpochCounted v w)
    (hprog : w.prog = .dropPendingAck version :: prog) (hcurrent : version = w.registry.currentVersion)
    (hacc : version = v → w.owed = ∅) :
    EpochCounted v (w.stored (.dropPendingAck version) prog (w.server.withRegistry (w.server.registry.setEpoch version
      { w.server.registry.epochOf version with clientsPendingAck := 0 }))) := by
  rcases h with hlt | ⟨hcur, -⟩ | ⟨-, hpub, -⟩
  · exact Or.inl hlt
  · refine Or.inr (Or.inl ⟨hcur, ?_⟩)
    obtain rfl : version = v := hcurrent.trans hcur
    show (((w.registry.setEpoch version _).epochOf version).clientsPendingAck).toNat = w.owed.card
    rw [SharedNumaRegistry.setEpoch_self, hacc rfl]
    rfl
  · rw [hprog] at hpub
    cases hpub.head id

/-- A store of the orchestrator. -/
theorem EpochCounted.stored {a : OrchStore} {prog : List OrchStore} {s : Server} (h : EpochCounted v w)
    (hprog : w.prog = a :: prog) (habout : a.About w.registry.currentVersion prog) (hacc : a.Accounted v w)
    (hs : w.server.exec H a = .ok s) : EpochCounted v (w.stored a prog s) := by
  cases a with
  | fillEpoch plan =>
      cases hs
      exact h.fillEpoch hprog habout.1
  | currentVersion version =>
      cases hs
      exact h.currentVersion hprog habout
  | dropPendingAck version =>
      cases hs
      exact h.dropPendingAck hprog habout hacc
  | blocked | resizeState | generation | createRegion | copyPacked | copyBuckets | resetLanes | published
  | previousVersion | switchRegion | newWrappers | ackWaitStart | replay | cleanupAllowed | gcStartTime
  | reclaimOld => exact h.quiet hprog trivial hs

/-! ### Acknowledgements -/

theorem owedAfter_of_ne {tid : Nat} (h : ∀ ver, (w.threads tid).pc ≠ .acknowledge ver) : w.owedAfter tid = w.owed := by
  unfold FineWorld.owedAfter
  split
  · rename_i ver i hpc hslot
    exact absurd hpc (h ver)
  · rfl

/-- An access that is no acknowledgement moves no counter. -/
theorem FineWorld.advance_pending (w : FineWorld) {tid : Nat} (env : OpEnv)
    (h : ∀ ver, (w.threads tid).pc ≠ .acknowledge ver) (v : Nat) :
    (w.advance tid env).registry.currentVersion = w.registry.currentVersion ∧
    (w.advance tid env).pending v = w.pending v := by
  have hview : (w.advance tid env).registry = ((w.view tid).advance tid env (w.threads tid).pc).1.shared.registry := rfl
  unfold FineWorld.pending
  rcases (w.view tid).advance_cases tid env (w.threads tid).pc with
    ⟨hreg, -⟩ | ⟨ver, i, -, -, hreg, -⟩ | ⟨ver, -, -, hreg⟩ | ⟨ver, hpc, -⟩ | ⟨-, -, hreg⟩
  · rw [hview, hreg]
    exact ⟨rfl, rfl⟩
  · rw [hview, hreg]
    exact ⟨rfl, rfl⟩
  · rw [hview, hreg]
    exact ⟨rfl, rfl⟩
  · exact absurd hpc (h ver)
  · rw [hview, hreg]
    unfold SharedNumaRegistry.heartbeat
    split <;> exact ⟨rfl, rfl⟩

/-- An acknowledgement of an epoch in another place of the table. -/
theorem acknowledge_pending_of_ne (reg : SharedNumaRegistry) {ver : Nat}
    (h : v % kMaxEpochSlots ≠ ver % kMaxEpochSlots) :
    ((reg.acknowledge ver).epochOf v).clientsPendingAck = (reg.epochOf v).clientsPendingAck :=
  congrArg ResizeEpoch.clientsPendingAck (SharedNumaRegistry.setEpoch_of_ne _ _ h)

theorem acknowledge_pending (reg : SharedNumaRegistry) {ver : Nat} (h : v % kMaxEpochSlots = ver % kMaxEpochSlots) :
    ((reg.acknowledge ver).epochOf v).clientsPendingAck = (reg.epochOf v).clientsPendingAck - 1 := by
  rw [SharedNumaRegistry.epochOf_congr _ h, SharedNumaRegistry.epochOf_congr _ h, SharedNumaRegistry.acknowledge,
    SharedNumaRegistry.setEpoch_self]

theorem FineWorld.advance_acknowledge (w : FineWorld) {tid ver : Nat} (env : OpEnv)
    (hpc : (w.threads tid).pc = .acknowledge ver) :
    (w.advance tid env).registry = w.registry.acknowledge ver := by
  show ((w.view tid).advance tid env (w.threads tid).pc).1.shared.registry = _
  rw [hpc]
  rfl

/-- Who is owed behind an acknowledgement. -/
theorem owedAfter_acknowledge {tid ver : Nat} (hpc : (w.threads tid).pc = .acknowledge ver) :
    w.owedAfter tid = match (w.threads tid).region.clientSlot with
      | some i => if ver = w.registry.currentVersion then w.owed.erase i else w.owed
      | none => w.owed := by
  unfold FineWorld.owedAfter
  rw [hpc]
  cases (w.threads tid).region.clientSlot <;> rfl

/-- An acknowledgement. -/
theorem EpochCounted.acknowledged {tid ver : Nat} (env : OpEnv) (h : EpochCounted v w)
    (hpc : (w.threads tid).pc = .acknowledge ver)
    (hacc : (w.threads tid).pc.Accounted v w (w.threads tid).region.clientSlot) :
    EpochCounted v (w.advance tid env) := by
  have hreg := w.advance_acknowledge env hpc
  have hver : (w.advance tid env).registry.currentVersion = w.registry.currentVersion := by
    rw [hreg]
    rfl
  have hregistered : (w.advance tid env).registered = w.registered := registeredAfter_of_ne (by simp [hpc])
  rw [hpc] at hacc
  -- a superseded epoch asks nothing
  rcases Nat.lt_or_ge v w.registry.currentVersion with hlt | hle
  · exact Or.inl (hver.symm ▸ hlt)
  · by_cases hslot : v % kMaxEpochSlots = ver % kMaxEpochSlots
    · -- the counter of `v`: the thread is owed
      obtain ⟨hcur, rfl, hany⟩ := hacc hle hslot.symm
      obtain ⟨i, hi, hmem⟩ := (Option.any_eq_true _ _).mp hany
      have hmem : i ∈ w.owed := of_decide_eq_true hmem
      have howed : (w.advance tid env).owed = w.owed.erase i := by
        show w.owedAfter tid = _
        rw [owedAfter_acknowledge hpc, hi]
        exact if_pos hcur.symm
      have hpos : 0 < w.owed.card := Finset.card_pos.mpr ⟨i, hmem⟩
      rcases h with hlt | ⟨-, hcount⟩ | ⟨hlt, -⟩
      · omega
      · refine Or.inr (Or.inl ⟨hver.trans hcur, ?_⟩)
        have hpend : (w.advance tid env).pending ver = w.pending ver - 1 := by
          unfold FineWorld.pending
          rw [hreg, acknowledge_pending _ rfl]
        rw [hpend, howed, Finset.card_erase_of_mem hmem, ← hcount]
        rw [← hcount] at hpos
        bv_omega
      · omega
    · -- another counter
      have hpend : (w.advance tid env).pending v = w.pending v := by
        unfold FineWorld.pending
        rw [hreg, acknowledge_pending_of_ne _ hslot]
      rcases h with hlt | ⟨hcur, hcount⟩ | ⟨hlt, hpub, hcount⟩
      · omega
      · refine Or.inr (Or.inl ⟨hver.trans hcur, ?_⟩)
        have hne : ver ≠ w.registry.currentVersion := fun hv => hslot (by rw [hv, hcur])
        have howed : (w.advance tid env).owed = w.owed := by
          show w.owedAfter tid = _
          rw [owedAfter_acknowledge hpc]
          split
          · exact if_neg hne
          · rfl
        rw [hpend, howed]
        exact hcount
      · refine Or.inr (Or.inr ⟨hver.symm ▸ hlt, hpub, ?_⟩)
        rw [hpend, hregistered]
        exact hcount

/-- **The count over one step.** -/
theorem EpochCounted.step {a : FineStep} (h : EpochCounted v w)
    (habout : OrchStore.AllAbout w.registry.currentVersion w.prog) (hacc : Accounted v w a) (hok : w.step H a = .ok w') :
    EpochCounted v w' := by
  rcases FineWorld.step_cases hok with rfl | ⟨inp, -, hprog, rfl⟩ | ⟨st, prog, s, rfl, hprog, hs, rfl⟩ |
    ⟨tid, c, pc, -, hsh, -, -, rfl⟩ | ⟨tid, env, rfl, rfl⟩ | ⟨tid, op, c, -, -, hc, rfl⟩
  · exact h
  · refine h.congr rfl rfl rfl rfl (fun hpub => ?_)
    rw [hprog] at hpub
    exact hpub.elim
  · rw [hprog] at habout
    refine h.stored hprog habout.1 ?_ hs
    simp only [Accounted, hprog] at hacc
    exact hacc st rfl
  · have hreg : (w.putView tid c pc).registry = w.registry := congrArg Shared.registry hsh
    exact h.congr (by rw [hreg]) (by unfold FineWorld.pending; rw [hreg]) rfl rfl id
  · -- an access of a thread
    have hacc : (w.threads tid).pc.Accounted v w (w.threads tid).region.clientSlot := hacc
    by_cases hack : ∃ ver, (w.threads tid).pc = .acknowledge ver
    · obtain ⟨ver, hpc⟩ := hack
      exact h.acknowledged env hpc hacc
    · have hack : ∀ ver, (w.threads tid).pc ≠ .acknowledge ver := fun ver hpc => hack ⟨ver, hpc⟩
      obtain ⟨hver, hpend⟩ := w.advance_pending env hack v
      have howed : (w.advance tid env).owed = w.owed := owedAfter_of_ne hack
      by_cases hcount : (w.threads tid).Counting
      · -- a client counts itself, which is too late for `v`
        obtain ⟨ver, hpc⟩ := hcount
        have hle : v ≤ w.registry.currentVersion := by
          rw [hpc] at hacc
          exact hacc
        unfold EpochCounted
        rw [hver, hpend, howed]
        rcases h with hlt | hcur | ⟨hlt, -⟩
        · exact Or.inl hlt
        · exact Or.inr (Or.inl hcur)
        · omega
      · exact h.congr hver hpend howed (registeredAfter_of_ne (fun ver hpc => hcount ⟨ver, hpc⟩)) id
  · obtain ⟨-, l, hreg⟩ := operate_keeps hc
    have hreg : (w.putView tid c .idle).registry = { w.registry with lanes := l } := hreg
    exact h.congr (by rw [hreg]) (by unfold FineWorld.pending; rw [hreg]; rfl) rfl rfl id

/-- **The coming stores over one step.** -/
theorem allAbout_step {a : FineStep} (h : OrchStore.AllAbout w.registry.currentVersion w.prog)
    (hok : w.step H a = .ok w') : OrchStore.AllAbout w'.registry.currentVersion w'.prog := by
  rcases FineWorld.step_cases hok with rfl | ⟨inp, -, -, rfl⟩ | ⟨st, prog, s, -, hprog, hs, rfl⟩ |
    ⟨tid, c, pc, -, hsh, -, -, rfl⟩ | ⟨tid, env, -, rfl⟩ | ⟨tid, op, c, -, -, hc, rfl⟩
  · exact h
  · exact tickStores_about w.server inp
  · rw [hprog] at h
    have hver : (w.stored st prog s).registry.currentVersion = st.versionAfter w.registry.currentVersion :=
      (exec_writes hs).currentVersion
    rw [hver]
    exact h.2
  · have hreg : (w.putView tid c pc).registry = w.registry := congrArg Shared.registry hsh
    rw [hreg]
    exact h
  · have hver : (w.advance tid env).registry.currentVersion = w.registry.currentVersion :=
      (advance_words (w.view tid) tid env (w.threads tid).pc).1
    rw [hver]
    exact h
  · obtain ⟨-, l, hreg⟩ := operate_keeps hc
    have hreg : (w.putView tid c .idle).registry = { w.registry with lanes := l } := hreg
    rw [hreg]
    exact h

/-! ### The condition is exact -/

/-- An acknowledgement behind which the count is right was owed: the counter has gone down, so the set has. -/
theorem owed_of_acknowledged {tid ver : Nat} (env : OpEnv) (hpc : (w.threads tid).pc = .acknowledge ver)
    (hslot : v % kMaxEpochSlots = ver % kMaxEpochSlots) (hcount : (w.pending v).toNat = w.owed.card)
    (hcount' : ((w.advance tid env).pending v).toNat = (w.advance tid env).owed.card) :
    ver = w.registry.currentVersion ∧ (w.threads tid).region.clientSlot.any (· ∈ w.owed) = true := by
  have hpend : (w.advance tid env).pending v = w.pending v - 1 := by
    unfold FineWorld.pending
    rw [w.advance_acknowledge env hpc, acknowledge_pending _ hslot]
  have hless : w.owedAfter tid ≠ w.owed := by
    intro heq
    have howed : (w.advance tid env).owed = w.owed := heq
    rw [hpend, howed, ← hcount] at hcount'
    bv_omega
  rw [owedAfter_acknowledge hpc] at hless
  cases hi : (w.threads tid).region.clientSlot with
  | none =>
      rw [hi] at hless
      exact absurd rfl hless
  | some i =>
      rw [hi] at hless
      by_cases hver : ver = w.registry.currentVersion
      · refine ⟨hver, ?_⟩
        by_contra hmem
        have hmem : i ∉ w.owed := by simpa using hmem
        exact hless ((if_pos hver).trans (Finset.erase_eq_of_notMem hmem))
      · exact absurd (if_neg hver) hless

/-- Behind a store of 0 the count is right only if nobody was owed. -/
theorem owed_of_dropPendingAck {version : Nat} {prog : List OrchStore} (hprog : w.prog = .dropPendingAck version :: prog)
    (hok : w.store H = .ok w') (hcount' : (w'.pending version).toNat = w'.owed.card) : w.owed = ∅ := by
  unfold FineWorld.store at hok
  rw [hprog] at hok
  obtain ⟨s, hs, hok⟩ := Lib.bind_eq_ok.mp hok
  cases hs
  cases hok
  have hzero := congrArg ResizeEpoch.clientsPendingAck (SharedNumaRegistry.setEpoch_self w.registry version
    { w.registry.epochOf version with clientsPendingAck := 0 })
  have hcard : (0 : U64).toNat = w.owed.card := (congrArg BitVec.toNat hzero).symm.trans hcount'
  exact Finset.card_eq_zero.mp hcard.symm

/-- A step that keeps `v` current and the count right meets the condition. -/
theorem EpochCounted.accounted {a : FineStep} (h : EpochCounted v w) (hcur : w.registry.currentVersion = v)
    (hok : w.step H a = .ok w') (hcur' : w'.registry.currentVersion = v) (hcounted : AcksCounted w') :
    Accounted v w a := by
  have hcount : (w.pending v).toNat = w.owed.card := by
    rcases h with hlt | ⟨-, hcount⟩ | ⟨hlt, -⟩
    · omega
    · exact hcount
    · omega
  have hcount' : (w'.pending v).toNat = w'.owed.card := by
    rw [← hcur']
    exact hcounted
  cases a with
  | advance tid env =>
      show (w.threads tid).pc.Accounted v w (w.threads tid).region.clientSlot
      cases hpc : (w.threads tid).pc with
      | countClient ver => exact hcur.ge
      | acknowledge ver =>
          intro _ hslot
          cases hok
          obtain ⟨hver, howed⟩ := owed_of_acknowledged env hpc hslot.symm hcount hcount'
          exact ⟨hcur, hver.trans hcur, howed⟩
      | idle | checkReady | loadVersion | loadPublished | claimSlot | openRegion | loadGeneration | heartbeat
      | checkVersion => trivial
  | store =>
      intro st hst
      cases st with
      | dropPendingAck version =>
          rintro rfl
          obtain ⟨prog, hprog⟩ : ∃ prog, w.prog = .dropPendingAck version :: prog := List.head?_eq_some_iff.mp hst
          exact owed_of_dropPendingAck hprog hok hcount'
      | blocked | resizeState | generation | createRegion | copyPacked | copyBuckets | fillEpoch | resetLanes | published
      | previousVersion | currentVersion | switchRegion | newWrappers | ackWaitStart | replay | cleanupAllowed
      | gcStartTime | reclaimOld => trivial
  | tick | connect | check | operate => trivial

end Count

/-! ## Whole runs -/

section Runs

variable {H : HashFn} {st : Store} {sSlow sStop : Nat} {lookup : Nat → DataPlaneLudo} {proc lane : Nat → Nat}
  {v : Nat} {w w' : FineWorld}

/-- What every run from the start of the server keeps. -/
theorem reached_registering
    (h : Lib.Reaches (FineWorld.step H) Lib.anyStep ((st.server sSlow sStop).fineWorld lookup proc lane) w) :
    Registering w ∧ OrchStore.AllAbout w.registry.currentVersion w.prog := by
  refine h.invariant (P := fun w => Registering w ∧ OrchStore.AllAbout w.registry.currentVersion w.prog) ?_ ?_
  -- at the start nobody is counted and no tick is under way
  · have hidle : ∀ tid, ¬ (((st.server sSlow sStop).fineWorld lookup proc lane).threads tid).Counting := by
      rintro tid ⟨ver, hver⟩
      cases hver
    refine ⟨⟨rfl, ?_, fun tid hpc => absurd hpc (hidle tid), fun tid _ hpc => absurd hpc (hidle tid)⟩, trivial⟩
    intro i hi
    exact absurd hi (Finset.notMem_empty i)
  · rintro v a v' ⟨hreg, habout⟩ - hok
    exact ⟨hreg.step hok, allAbout_step habout hok⟩

/-- The count when it is filled. -/
theorem EpochFilled.counted (h : EpochFilled H ((st.server sSlow sStop).fineWorld lookup proc lane) v w) :
    EpochCounted v w ∧ OrchStore.AllAbout w.registry.currentVersion w.prog := by
  cases h with
  | setup => exact ⟨Or.inr (Or.inl ⟨rfl, rfl⟩), trivial⟩
  | @copied w₀ _ plan prog hrun hprog hstore =>
      obtain ⟨hreg, habout⟩ := reached_registering hrun
      refine ⟨?_, allAbout_step habout (a := .store) hstore⟩
      rw [hprog] at habout
      obtain ⟨⟨hnew, hpub⟩, -⟩ := habout
      unfold FineWorld.store at hstore
      rw [hprog] at hstore
      cases hstore
      -- the counter is `registered_clients`, which counts the registered slots
      refine Or.inr (Or.inr ⟨?_, hpub, ?_⟩)
      · show w₀.registry.currentVersion < plan.newVer
        rw [hnew]
        exact lt_nextVersion _
      · have hpend := congrArg ResizeEpoch.clientsPendingAck (SharedNumaRegistry.setEpoch_self w₀.registry plan.newVer
          ⟨plan.newVer, plan.geometry, w₀.registry.registeredClients, 0, 0,
            (w₀.registry.epochOf plan.newVer).published, false⟩)
        exact (congrArg BitVec.toNat hpend).trans hreg.count

/-- **Acknowledgement accounting.** From any bulk load, with any number of client processes and threads, after any run up
    to the filling of epoch `v`: as long as the steps from there on meet the condition, the counter is right while `v` is
    current; and a step that leaves `v` current keeps it right exactly when it meets the condition. -/
theorem acks_counted (hfill : EpochFilled H ((st.server sSlow sStop).fineWorld lookup proc lane) v w)
    (hrun : Lib.Reaches (FineWorld.step H) (Accounted v) w w') (hcur : w'.registry.currentVersion = v) :
    AcksCounted w' ∧ ∀ a w'', w'.step H a = .ok w'' → w''.registry.currentVersion = v →
      (AcksCounted w'' ↔ Accounted v w' a) := by
  have hinv : EpochCounted v w' ∧ OrchStore.AllAbout w'.registry.currentVersion w'.prog := by
    refine hrun.invariant (P := fun w => EpochCounted v w ∧ OrchStore.AllAbout w.registry.currentVersion w.prog)
      hfill.counted ?_
    rintro u a u' ⟨hcount, habout⟩ hacc hok
    exact ⟨hcount.step habout hacc hok, allAbout_step habout hok⟩
  -- of the three cases only the middle one has `v` current
  have hcounted : ∀ {u : FineWorld}, EpochCounted v u → u.registry.currentVersion = v → AcksCounted u := by
    rintro u (hlt | ⟨-, hcount⟩ | ⟨hlt, -⟩) hu
    · omega
    · unfold AcksCounted SharedNumaRegistry.currentEpoch
      rw [hu]
      exact hcount
    · omega
  refine ⟨hcounted hinv.1 hcur, fun a w'' hok hcur' => ⟨fun hcount => ?_, fun hacc => ?_⟩⟩
  · exact hinv.1.accounted hcur hok hcur' hcount
  · exact hcounted (hinv.1.step hinv.2 hacc hok) hcur'

end Runs

/-- The next store fills epoch `v`, and from there on the labels `l` meet its condition and end in a world with `p`. -/
def fillsAndRuns (v : Nat) (l : List FineStep) (p : FineWorld → Bool) (w : FineWorld) : Bool :=
  match w.prog, w.store fastHasher64 with
  | .fillEpoch plan :: _, .ok w' =>
      plan.newVer = v ∧ (Lib.runAlong (FineWorld.step fastHasher64) (Accounted v) l w').any p = true
  | _, _ => false

/-- A client that has connected in epoch 1 remaps to epoch 2: the counter is back at 0, and nobody is owed. -/
theorem acks_counted_seven : ∃ w w', EpochFilled fastHasher64 sevenFineWorld 2 w ∧
    Lib.Reaches (FineWorld.step fastHasher64) (Accounted 2) w w' ∧
    (w'.registry.currentVersion = 2 ∧ w'.pending 2 = 0 ∧ w'.owed = ∅) ∧ AcksCounted w' := by
  obtain ⟨w₀, hrun, hw₀⟩ : ∃ w, Lib.Reaches (FineWorld.step fastHasher64) Lib.anyStep sevenFineWorld w ∧
      fillsAndRuns 2 (.replicate 10 .store ++ .check 0 :: .replicate 7 (.advance 0 calmEnv))
        (fun w => w.registry.currentVersion = 2 ∧ w.pending 2 = 0 ∧ w.owed = ∅) w = true := Lib.exists_along
    (.connect 0 calmEnv :: .replicate 9 (.advance 0 calmEnv) ++ .tick calmTick :: .replicate 3 .store ++
      .tick calmTick :: .replicate 6 .store) (by decide +kernel)
  unfold fillsAndRuns at hw₀
  split at hw₀
  · rename_i plan prog w hprog hstore
    obtain ⟨hnew, hlater⟩ := of_decide_eq_true hw₀
    obtain ⟨w', hrun', hw'⟩ := Lib.exists_along _ hlater
    have hw' := of_decide_eq_true hw'
    have hfill : EpochFilled fastHasher64 sevenFineWorld 2 w := hnew ▸ .copied hrun hprog hstore
    exact ⟨w, w', hfill, hrun', hw', (acks_counted hfill hrun' hw'.1).1⟩
  · cases hw₀

/-- The first connect of all takes epoch 1 from 0 to `2 ^ 64 - 1`. And behind a resize a client that connects takes epoch
    2 to 0, while the one client that was registered has not remapped. -/
theorem acks_wrap :
    (∃ w, Lib.Reaches (FineWorld.step fastHasher64) Lib.anyStep sevenFineWorld w ∧
      (w.registry.currentVersion = 1 ∧ (w.pending 1).toNat = 2 ^ 64 - 1 ∧ w.owed = ∅) ∧ ¬ AcksCounted w) ∧
    ∃ w, Lib.Reaches (FineWorld.step fastHasher64) Lib.anyStep sevenFineWorld w ∧
      (w.registry.currentVersion = 2 ∧ w.pending 2 = 0 ∧ w.owed = {0}) ∧ ¬ AcksCounted w := by
  constructor
  · obtain ⟨w, hrun, hw⟩ : ∃ w, Lib.Reaches (FineWorld.step fastHasher64) Lib.anyStep sevenFineWorld w ∧
        decide ((w.registry.currentVersion = 1 ∧ (w.pending 1).toNat = 2 ^ 64 - 1 ∧ w.owed = ∅) ∧ ¬ AcksCounted w)
          = true := Lib.exists_along (.connect 0 calmEnv :: .replicate 9 (.advance 0 calmEnv)) (by decide +kernel)
    exact ⟨w, hrun, of_decide_eq_true hw⟩
  · obtain ⟨w, hrun, hw⟩ : ∃ w, Lib.Reaches (FineWorld.step fastHasher64) Lib.anyStep sevenFineWorld w ∧
        decide ((w.registry.currentVersion = 2 ∧ w.pending 2 = 0 ∧ w.owed = {0}) ∧ ¬ AcksCounted w) = true :=
      Lib.exists_along (.connect 0 calmEnv :: .replicate 9 (.advance 0 calmEnv) ++ .tick calmTick ::
        .replicate 3 .store ++ .tick calmTick :: .replicate 17 .store ++ .connect 1 calmEnv ::
        .replicate 9 (.advance 1 calmEnv)) (by decide +kernel)
    exact ⟨w, hrun, of_decide_eq_true hw⟩

end Outback
