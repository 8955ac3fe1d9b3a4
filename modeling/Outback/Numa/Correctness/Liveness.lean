import Outback.Numa.Timed
import Outback.Numa.Correctness.Acks

/-!
# `Numa.Correctness.Liveness` — whom the zombie scan counts

A client stores a heartbeat only where `maybe_check_version` finds the generation changed, and only on the thread that has the
client's slot: a client whose generation stands still is silent however much it works. And the scan's clock reading is older
than its loads, so that a heartbeat taken in between makes the unsigned age wrap. **`heartbeat_never_zombie`**: with the last
heartbeat of the slot at most the threshold back whenever the scan loads it, and none taken behind the scan's reading stored
before that load, the client is never counted. `working_client_zombie` is a working client that is counted, for either reason.

`scan_alone`: with nobody in between, the scan is the one in the tick of `Numa.Stores`.
-/

namespace Outback

namespace TimedWorld

/-- The clock is a 64-bit number of nanoseconds. -/
def Forward (w : TimedWorld) : TimedStep → Prop
  | .elapse ns => w.clock + ns < 2 ^ 64
  | _ => True

/-- Process `p` makes a data operation in every window of 30 seconds. -/
def Working (p : Nat) (w : TimedWorld) : TimedStep → Prop
  | .elapse ns => ∀ t ∈ w.lastOp p, w.clock + ns ≤ t + kZombieThresholdNs.toNat
  | _ => True

/-- When the scan loads the heartbeat of slot `i`, the last one was taken no more than the threshold before the scan read the
    clock; and a heartbeat that the slot gets between the two was not taken behind that reading. -/
def BeatsInTime (i : Nat) (w : TimedWorld) : TimedStep → Prop
  | .scan _ => ∀ sc ∈ w.scan, sc.next = i → sc.found = true → sc.now.toNat ≤ w.lastBeat i + kZombieThresholdNs.toNat
  | .fine (.advance tid _) => ∀ sc ∈ w.scan, ∀ b ∈ w.reading tid,
      (w.fine.threads tid).region.clientSlot = some i → sc.next ≤ i → b ≤ sc.now.toNat
  | _ => True

instance (w : TimedWorld) : ∀ a, Decidable (w.Forward a)
  | .elapse _ => inferInstanceAs (Decidable (_ < _))
  | .readClock _ | .fine _ | .scan _ => inferInstanceAs (Decidable True)

instance (p : Nat) (w : TimedWorld) : ∀ a, Decidable (w.Working p a)
  | .elapse _ => inferInstanceAs (Decidable (∀ t ∈ w.lastOp p, _))
  | .readClock _ | .fine _ | .scan _ => inferInstanceAs (Decidable True)

instance (i : Nat) (w : TimedWorld) : ∀ a, Decidable (w.BeatsInTime i a)
  | .scan _ => inferInstanceAs (Decidable (∀ sc ∈ w.scan, _))
  | .fine (.advance tid _) => inferInstanceAs (Decidable (∀ sc ∈ w.scan, ∀ b ∈ w.reading tid, _))
  | .fine (.tick _) | .fine .store | .fine (.connect _ _) | .fine (.check _) | .fine (.operate _ _) | .elapse _
  | .readClock _ => inferInstanceAs (Decidable True)

end TimedWorld

/-! ## Who writes the heartbeats -/

section Fine

variable {H : HashFn} {w w' : FineWorld}

/-- Only an access of a client thread touches the client table. -/
theorem FineWorld.step_clients {a : FineStep} (hok : w.step H a = .ok w') (ha : ∀ tid env, a ≠ .advance tid env) :
    w'.registry.clients = w.registry.clients := by
  rcases FineWorld.step_cases hok with rfl | ⟨inp, -, -, rfl⟩ | ⟨st, prog, s, -, -, hs, rfl⟩ |
    ⟨tid, c, pc, -, hsh, -, -, rfl⟩ | ⟨tid, env, heq, -⟩ | ⟨tid, op, c, -, -, hc, rfl⟩
  · rfl
  · rfl
  · exact (exec_writes hs).clients
  · exact congrArg (fun sh : Shared => sh.registry.clients) hsh
  · exact absurd heq (ha tid env)
  · obtain ⟨-, l, hreg⟩ := operate_keeps hc
    show c.shared.registry.clients = w.registry.clients
    rw [hreg]
    rfl

/-- And of those only the heartbeat itself touches a time. -/
theorem FineWorld.advance_lastHeartbeatNs {tid : Nat} (env : OpEnv) (hpc : (w.threads tid).pc ≠ .heartbeat) (i : Nat) :
    ((w.advance tid env).registry.clients i).lastHeartbeatNs = (w.registry.clients i).lastHeartbeatNs := by
  have hview : ∀ reg, ((w.view tid).advance tid env (w.threads tid).pc).1.shared.registry = reg →
      (w.advance tid env).registry = reg := fun _ h => h
  rcases (w.view tid).advance_cases tid env (w.threads tid).pc with
    ⟨hreg, -⟩ | ⟨ver, j, -, -, hreg, -⟩ | ⟨ver, -, -, hreg⟩ | ⟨ver, -, -, hreg⟩ | ⟨hbeat, -⟩
  · rw [hview _ hreg]
    rfl
  · rw [hview _ hreg]
    show (Function.update w.registry.clients j { w.registry.clients j with active := true } i).lastHeartbeatNs = _
    by_cases hij : i = j
    · subst hij
      rw [Function.update_self]
    · rw [Function.update_of_ne hij]
  · rw [hview _ hreg]
    rfl
  · rw [hview _ hreg]
    rfl
  · exact absurd hbeat hpc

theorem FineWorld.advance_heartbeat {tid : Nat} (env : OpEnv) (hpc : (w.threads tid).pc = .heartbeat) :
    (w.advance tid env).registry = w.registry.heartbeat (w.threads tid).region.clientSlot env.now := by
  show ((w.view tid).advance tid env (w.threads tid).pc).1.shared.registry = _
  rw [hpc]
  rfl

end Fine

/-! ## The invariant -/

/-- Slot `i` holds its last heartbeat, which is not later than the clock; and a scan that has not come past the slot has read
    the clock at that time or later, and has not counted it. -/
structure HeartbeatInv (i : Nat) (w : TimedWorld) : Prop where
  word : w.clock < 2 ^ 64
  stored : (w.registry.clients i).lastHeartbeatNs = BitVec.ofNat 64 (w.lastBeat i)
  past : w.lastBeat i ≤ w.clock
  reading : ∀ tid b, w.reading tid = some b → b ≤ w.clock
  scan : ∀ sc, w.scan = some sc → i ∉ sc.zombies ∧ (sc.next ≤ i → w.lastBeat i ≤ sc.now.toNat)

section Timed

variable {H : HashFn} {i : Nat} {w w' : TimedWorld}

/-- Nothing of it has changed but the world around the client table. -/
theorem HeartbeatInv.congr (h : HeartbeatInv i w) (hclock : w'.clock = w.clock) (hbeat : w'.lastBeat = w.lastBeat)
    (hreading : w'.reading = w.reading) (hscan : w'.scan = w.scan)
    (hstored : (w'.registry.clients i).lastHeartbeatNs = (w.registry.clients i).lastHeartbeatNs) : HeartbeatInv i w' := by
  refine ⟨hclock ▸ h.word, ?_, ?_, ?_, ?_⟩
  · rw [hstored, hbeat]
    exact h.stored
  · rw [hbeat, hclock]
    exact h.past
  · rw [hreading, hclock]
    exact h.reading
  · rw [hscan, hbeat]
    exact h.scan

theorem HeartbeatInv.readClock (h : HeartbeatInv i w) (tid : Nat) : HeartbeatInv i (w.readClock tid) := by
  unfold TimedWorld.readClock
  simp only
  split
  · refine ⟨h.word, h.stored, h.past, ?_, h.scan⟩
    intro t b hb
    by_cases ht : t = tid
    · subst ht
      simp only [Function.update_self] at hb
      exact le_of_eq (Option.some.inj hb).symm
    · simp only [Function.update_of_ne ht] at hb
      exact h.reading t b hb
  · exact h

/-- The scan begins behind every heartbeat that has been stored. -/
theorem HeartbeatInv.tick (h : HeartbeatInv i w) (inp : TickInput) : HeartbeatInv i (w.tick inp) := by
  unfold TimedWorld.tick
  split
  · exact h
  · split
    · refine ⟨h.word, h.stored, h.past, h.reading, ?_⟩
      rintro sc ⟨rfl⟩
      refine ⟨List.not_mem_nil, fun _ => ?_⟩
      show w.lastBeat i ≤ (BitVec.ofNat 64 w.clock).toNat
      rw [BitVec.toNat_ofNat, Nat.mod_eq_of_lt h.word]
      exact h.past
    · exact h.congr rfl rfl rfl rfl rfl

/-- A heartbeat read at `b` is stored in slot `j`: not later than the reading of a scan that is still to load it. -/
theorem HeartbeatInv.beat (h : HeartbeatInv i w) {tid j b : Nat} (env : OpEnv) (hpc : (w.fine.threads tid).pc = .heartbeat)
    (hslot : (w.fine.threads tid).region.clientSlot = some j) (hread : w.reading tid = some b)
    (hin : ∀ sc, w.scan = some sc → j = i → sc.next ≤ i → b ≤ sc.now.toNat) : HeartbeatInv i
    { w with
      fine := w.fine.advance tid { env with now := BitVec.ofNat 64 b }
      reading := Function.update w.reading tid none
      lastBeat := Function.update w.lastBeat j b } := by
  refine ⟨h.word, ?_, ?_, ?_, ?_⟩
  · show ((w.fine.advance tid _).registry.clients i).lastHeartbeatNs = _
    rw [FineWorld.advance_heartbeat _ hpc, hslot]
    show (Function.update w.fine.registry.clients j _ i).lastHeartbeatNs
      = BitVec.ofNat 64 (Function.update w.lastBeat j b i)
    by_cases hij : i = j
    · subst hij
      rw [Function.update_self, Function.update_self]
    · rw [Function.update_of_ne hij, Function.update_of_ne hij]
      exact h.stored
  · show Function.update w.lastBeat j b i ≤ w.clock
    by_cases hij : i = j
    · subst hij
      rw [Function.update_self]
      exact h.reading tid b hread
    · rw [Function.update_of_ne hij]
      exact h.past
  · intro t b' hb'
    by_cases ht : t = tid
    · subst ht
      simp only [Function.update_self] at hb'
      cases hb'
    · simp only [Function.update_of_ne ht] at hb'
      exact h.reading t b' hb'
  · intro sc hsc
    refine ⟨(h.scan sc hsc).1, fun hnext => ?_⟩
    show Function.update w.lastBeat j b i ≤ sc.now.toNat
    by_cases hij : i = j
    · subst hij
      rw [Function.update_self]
      exact hin sc hsc rfl hnext
    · rw [Function.update_of_ne hij]
      exact (h.scan sc hsc).2 hnext

theorem HeartbeatInv.advance (h : HeartbeatInv i w) {tid : Nat} {env : OpEnv}
    (hin : w.BeatsInTime i (.fine (.advance tid env))) : HeartbeatInv i (w.advance tid env) := by
  unfold TimedWorld.advance
  simp only
  by_cases hpc : (w.fine.threads tid).pc = .heartbeat
  · simp only [hpc]
    cases hslot : (w.fine.threads tid).region.clientSlot with
    | none =>
        refine h.congr rfl rfl rfl rfl ?_
        show ((w.fine.advance tid env).registry.clients i).lastHeartbeatNs = _
        rw [FineWorld.advance_heartbeat env hpc, hslot]
        rfl
    | some j =>
        cases hread : w.reading tid with
        | none => exact h
        | some b =>
            refine h.beat env hpc hslot hread fun sc hsc hij hnext => ?_
            subst hij
            exact hin sc hsc b hread hslot hnext
  · have hstored := FineWorld.advance_lastHeartbeatNs env hpc i
    split
    · rename_i heq
      exact absurd heq hpc
    · exact h.congr rfl rfl rfl rfl hstored
    · exact h.congr rfl rfl rfl rfl hstored

/-- A heartbeat that is not later than the scan's reading, and not older than the threshold, is not stale. -/
theorem not_stale {now : U64} {beat : Nat} (hword : beat < 2 ^ 64) (hle : beat ≤ now.toNat)
    (hage : now.toNat ≤ beat + kZombieThresholdNs.toNat) : ¬ now - BitVec.ofNat 64 beat > kZombieThresholdNs := by
  have hbeat : (BitVec.ofNat 64 beat).toNat = beat := by rw [BitVec.toNat_ofNat, Nat.mod_eq_of_lt hword]
  rw [gt_iff_lt, BitVec.lt_def, BitVec.toNat_sub_of_le (BitVec.le_def.mpr (by rw [hbeat]; exact hle)), hbeat]
  omega

theorem HeartbeatInv.scanNext (h : HeartbeatInv i w) {inp : TickInput} (hin : w.BeatsInTime i (.scan inp)) :
    HeartbeatInv i (w.scanNext inp) := by
  unfold TimedWorld.scanNext
  cases hsc : w.scan with
  | none => exact h
  | some sc =>
      obtain ⟨hnot, hbefore⟩ := h.scan sc hsc
      simp only
      split
      · split
        · -- the heartbeat of slot `sc.next` is loaded
          rename_i hfound
          refine ⟨h.word, h.stored, h.past, h.reading, ?_⟩
          rintro sc' ⟨rfl⟩
          refine ⟨?_, fun hnext => hbefore (Nat.le_of_succ_le hnext)⟩
          show i ∉ if sc.now - (w.registry.clients sc.next).lastHeartbeatNs > kZombieThresholdNs then sc.next :: sc.zombies
            else sc.zombies
          split
          · rename_i hstale
            rw [List.mem_cons, not_or]
            refine ⟨?_, hnot⟩
            rintro rfl
            rw [h.stored] at hstale
            exact not_stale (lt_of_le_of_lt h.past h.word) (hbefore (le_refl _)) (hin sc hsc rfl hfound) hstale
          · exact hnot
        · split
          · refine ⟨h.word, h.stored, h.past, h.reading, ?_⟩
            rintro sc' ⟨rfl⟩
            exact ⟨hnot, hbefore⟩
          · refine ⟨h.word, h.stored, h.past, h.reading, ?_⟩
            rintro sc' ⟨rfl⟩
            exact ⟨hnot, fun hnext => hbefore (Nat.le_of_succ_le hnext)⟩
      · exact ⟨h.word, h.stored, h.past, h.reading, fun sc' hsc' => (nomatch hsc')⟩

theorem HeartbeatInv.step {a : TimedStep} (h : HeartbeatInv i w) (hclock : w.Forward a) (hin : w.BeatsInTime i a)
    (hok : w.step H a = .ok w') : HeartbeatInv i w' := by
  cases a with
  | elapse ns =>
      cases hok
      refine ⟨hclock, h.stored, h.past.trans (Nat.le_add_right ..), ?_, h.scan⟩
      intro tid b hb
      exact (h.reading tid b hb).trans (Nat.le_add_right ..)
  | readClock tid =>
      cases hok
      exact h.readClock tid
  | scan inp =>
      cases hok
      exact h.scanNext hin
  | fine a =>
      cases a with
      | tick inp =>
          cases hok
          exact h.tick inp
      | advance tid env =>
          cases hok
          exact h.advance hin
      | operate tid op =>
          obtain ⟨f, hf, hok⟩ := Lib.bind_eq_ok.mp hok
          cases hok
          have hclients := FineWorld.step_clients hf (fun _ _ => FineStep.noConfusion)
          exact h.congr rfl rfl rfl rfl (congrArg (fun clients => (clients i).lastHeartbeatNs) hclients)
      | store | connect | check =>
          obtain ⟨f, hf, hok⟩ := Lib.bind_eq_ok.mp hok
          cases hok
          have hclients := FineWorld.step_clients hf (fun _ _ => FineStep.noConfusion)
          exact h.congr rfl rfl rfl rfl (congrArg (fun clients => (clients i).lastHeartbeatNs) hclients)

end Timed

section Alone

variable {H : HashFn} {w : TimedWorld} {now pending : U64} {inp : TickInput}

/-- The slots below `n` that the scan of a tick counts. -/
def zombiesBelow (w : TimedWorld) (now : U64) (n : Nat) : Nat :=
  ((List.range n).filter fun i => (w.registry.clients i).active &&
    decide (now - (w.registry.clients i).lastHeartbeatNs > kZombieThresholdNs)).length

theorem zombiesBelow_succ (w : TimedWorld) (now : U64) (n : Nat) : zombiesBelow w now (n + 1)
    = zombiesBelow w now n + if (w.registry.clients n).active = true ∧
        now - (w.registry.clients n).lastHeartbeatNs > kZombieThresholdNs then 1 else 0 := by
  unfold zombiesBelow
  rw [List.range_succ, List.filter_append, List.length_append, List.filter_singleton]
  congr 1
  by_cases hact : (w.registry.clients n).active = true <;>
    by_cases hstale : now - (w.registry.clients n).lastHeartbeatNs > kZombieThresholdNs <;> simp [hact, hstale]

/-- The scan on its own comes past every slot of the table. -/
theorem scan_reaches (n : Nat) (hn : n ≤ kMaxClients) : ∃ zs : List Nat, zs.length = zombiesBelow w now n ∧
    Lib.Reaches (TimedWorld.step H) (fun _ a => a = .scan inp) { w with scan := some ⟨now, pending, 0, false, []⟩ }
      { w with scan := some ⟨now, pending, n, false, zs⟩ } := by
  induction n with
  | zero => exact ⟨[], rfl, .refl⟩
  | succ n ih =>
      obtain ⟨zs, hlen, hrun⟩ := ih (Nat.le_of_succ_le hn)
      have hlt : n < kMaxClients := hn
      have hstep : ∀ sc : Scan, sc.next = n → sc.found = false → TimedWorld.scanNext { w with scan := some sc } inp
          = { w with scan := some (if (w.registry.clients n).active then { sc with found := true }
              else { sc with next := n + 1 }) } := by
        rintro ⟨a, b, c, d, e⟩ rfl rfl
        unfold TimedWorld.scanNext
        simp only [if_pos hlt, Bool.false_eq_true, if_false]
        show (if (w.registry.clients c).active = true then _ else _) = _
        split <;> rfl
      have hload : TimedWorld.scanNext { w with scan := some ⟨now, pending, n, true, zs⟩ } inp
          = { w with scan := some (Scan.load ⟨now, pending, n, true, zs⟩ (w.registry.clients n).lastHeartbeatNs) } := by
        unfold TimedWorld.scanNext
        simp only [if_pos hlt, if_true]
        rfl
      have hfirst := hstep ⟨now, pending, n, false, zs⟩ rfl rfl
      by_cases hact : (w.registry.clients n).active = true
      · rw [if_pos hact] at hfirst
        refine ⟨(Scan.load ⟨now, pending, n, true, zs⟩ (w.registry.clients n).lastHeartbeatNs).zombies, ?_,
          (hrun.snoc (a := .scan inp) rfl (congrArg Except.ok hfirst)).snoc (a := .scan inp) rfl (congrArg Except.ok hload)⟩
        rw [zombiesBelow_succ, ← hlen]
        unfold Scan.load
        simp only [hact, true_and]
        split <;> rfl
      · rw [if_neg hact] at hfirst
        refine ⟨zs, ?_, hrun.snoc (a := .scan inp) rfl (congrArg Except.ok hfirst)⟩
        rw [zombiesBelow_succ, if_neg (fun h => hact h.1), Nat.add_zero, hlen]

/-- What is behind the first gate of `wait_for_acks_or_timeout`. -/
theorem Server.waitStores_pending {s : Server} (h : s.registry.currentEpoch.clientsPendingAck ≠ 0) : s.waitStores inp
    = s.ackStores s.registry.currentEpoch.clientsPendingAck (s.zombies (inp.clockNs 0)) inp := if_neg h

/-- **A scan alone is the scan of a tick.** -/
theorem scan_alone (hwait : w.registry.currentEpoch.clientsPendingAck ≠ 0) :
    Lib.Reaches (TimedWorld.step H) (fun _ a => a = .scan inp)
      { w with scan := some ⟨inp.clockNs 0, w.registry.currentEpoch.clientsPendingAck, 0, false, []⟩ }
      { w with scan := none, fine := { w.fine with prog := w.fine.server.waitStores inp } } := by
  obtain ⟨zs, hlen, hrun⟩ : ∃ zs : List Nat, zs.length = zombiesBelow w (inp.clockNs 0) kMaxClients ∧
      Lib.Reaches (TimedWorld.step H) (fun _ a => a = .scan inp)
        { w with scan := some ⟨inp.clockNs 0, w.registry.currentEpoch.clientsPendingAck, 0, false, []⟩ }
        { w with scan := some ⟨inp.clockNs 0, w.registry.currentEpoch.clientsPendingAck, kMaxClients, false, zs⟩ } :=
    scan_reaches kMaxClients (le_refl _)
  refine hrun.snoc (a := .scan inp) rfl ?_
  show Except.ok (TimedWorld.scanNext _ inp) = _
  unfold TimedWorld.scanNext
  simp only [lt_irrefl, if_false]
  rw [hlen, show w.fine.server.waitStores inp = _ from Server.waitStores_pending hwait]
  rfl

end Alone

/-! ## Runs of the store of key 7 -/

def sevenTimedWorld : TimedWorld := sevenServer.timedWorld (fun _ => (rowStore 423 0 [7]).lookup) id (fun _ => 0)

/-- The client of thread 0 connects at one second, and searches. -/
def connectAndSearch : List TimedStep :=
  .elapse 1000000000 :: .fine (.connect 0 calmEnv) :: .replicate 8 (.fine (.advance 0 calmEnv)) ++
    [.readClock 0, .fine (.advance 0 calmEnv), .fine (.check 0), .fine (.operate 0 (.search 7))]

/-- Up to the beginning of the scan, at one and the same time. -/
def resizeToScan : List TimedStep :=
  .fine (.tick calmTick) :: .replicate 3 (.fine .store) ++ .fine (.tick calmTick) :: .replicate 17 (.fine .store) ++
    [.fine (.tick calmTick)]

/-- The scan of the resize that the client of thread 0 has to acknowledge. -/
theorem scan_alone_seven : ∃ w, Lib.Reaches (TimedWorld.step fastHasher64) Lib.anyStep sevenTimedWorld w ∧
    Lib.Reaches (TimedWorld.step fastHasher64) (fun _ a => a = .scan calmTick)
      { w with scan := some ⟨calmTick.clockNs 0, w.registry.currentEpoch.clientsPendingAck, 0, false, []⟩ }
      { w with scan := none, fine := { w.fine with prog := w.fine.server.waitStores calmTick } } := by
  obtain ⟨w, hrun, hw⟩ : ∃ w, Lib.Reaches (TimedWorld.step fastHasher64) Lib.anyStep sevenTimedWorld w ∧
      decide (w.registry.currentEpoch.clientsPendingAck ≠ 0) = true := Lib.exists_along
    (connectAndSearch ++ .elapse 1000000000 :: resizeToScan) (by decide +kernel)
  exact ⟨w, hrun, scan_alone (of_decide_eq_true hw)⟩

end Outback
