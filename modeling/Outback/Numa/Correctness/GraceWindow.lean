import Outback.Numa.Correctness.Orchestrator
import Outback.Numa.Correctness.ZombieGate

/-!
# `Numa.Correctness.GraceWindow` — the timer of the acknowledgement phase

`ack_wait_start_` is set by the first tick of `READY_TO_SWITCH` that finds it zero and that has to wait. Only the timeout
clears it: a phase that ends because every client has acknowledged, or because the rest are zombies, leaves its start time
to the next resize. **`grace_window`**: as long as every copy finds the timer cleared, no timeout comes before more than
`kAckGraceMs` have passed since the first tick of the phase. In `grace_cut_short` the first tick of the second resize is
already the last.

A run keeps the time of the last reading, against which the clock is monotonic, and as a ghost the first reading of the
first tick of the current phase.
-/

namespace Outback

/-! ## The timed run -/

/-- The timeout branch is taken. -/
def Server.TimesOut (s : Server) (inp : TickInput) : Prop :=
  s.registry.resizeState = .readyToSwitch ∧ s.registry.currentEpoch.clientsPendingAck ≠ 0 ∧
    s.zombies (inp.clockNs 0) < s.registry.currentEpoch.clientsPendingAck.toNat ∧ s.GraceOver inp

instance (s : Server) (inp : TickInput) : Decidable (s.TimesOut inp) := inferInstanceAs (Decidable (_ ∧ _))

instance (s : Server) (inp : TickInput) : Decidable (s.CompletesCopy inp) := inferInstanceAs (Decidable (_ ∧ _))

structure GraceWorld where
  server : Server
  /-- the last reading of the clock -/
  lastNs : Nat
  /-- the first reading of the first tick of the current `READY_TO_SWITCH` phase -/
  phaseStart : Option Nat

namespace GraceWorld

/-- When the current phase began, for a tick with input `inp`. -/
def start (w : GraceWorld) (inp : TickInput) : Nat := w.phaseStart.getD (inp.clockNs 0).toNat

def step (H : HashFn) (w : GraceWorld) : ServerStep → Exec GraceWorld
  | .tick inp => do
      let s ← w.server.checkState H inp
      let inPhase := w.server.registry.resizeState = .readyToSwitch ∧ s.registry.resizeState = .readyToSwitch
      return ⟨s, (inp.clockNs 2).toNat, if inPhase then some (w.start inp) else none⟩
  | .clients c => .ok { w with server := w.server.clientsWrite c }

/-- The clock does not go back. -/
def Forward (w : GraceWorld) : ServerStep → Prop
  | .tick inp => w.lastNs ≤ (inp.clockNs 0).toNat ∧ (inp.clockNs 0).toNat ≤ (inp.clockNs 1).toNat ∧
      (inp.clockNs 1).toNat ≤ (inp.clockNs 2).toNat
  | .clients _ => True

/-- A copy finds the timer cleared. -/
def FreshTimer (w : GraceWorld) : ServerStep → Prop
  | .tick inp => w.server.CompletesCopy inp → w.server.ackWaitStart = 0
  | .clients _ => True

instance (w : GraceWorld) : ∀ a, Decidable (w.Forward a)
  | .tick _ => inferInstanceAs (Decidable (_ ∧ _))
  | .clients _ => inferInstanceAs (Decidable True)

instance (w : GraceWorld) : ∀ a, Decidable (w.FreshTimer a)
  | .tick _ => inferInstanceAs (Decidable (_ → _))
  | .clients _ => inferInstanceAs (Decidable True)

end GraceWorld

def Server.graceWorld (s : Server) : GraceWorld := ⟨s, 0, none⟩

/-! ## One tick -/

section Tick

variable {H : HashFn} {s s' : Server} {inp : TickInput}

/-- The timeout branch stores zero in the counter, goes on, and clears the timer. -/
theorem checkState_of_timesOut (h : s.TimesOut inp) :
    s.checkState H inp = .ok { s.forceDrain with ackWaitStart := 0 } := by
  obtain ⟨hst, hpending, hzombies, hgrace⟩ := h
  unfold Server.checkState
  rw [hst]
  simp only [Server.waitForAcks_grace hpending hzombies, if_pos hgrace]

/-- A tick that stays in the phase has at most started the timer. -/
theorem ackWaitStart_of_stay (hst : s.registry.resizeState = .readyToSwitch) (hok : s.checkState H inp = .ok s')
    (hst' : s'.registry.resizeState = .readyToSwitch) :
    s'.ackWaitStart = if s.ackWaitStart = 0 then inp.nowMs 1 else s.ackWaitStart := by
  unfold Server.checkState at hok
  rw [hst] at hok
  cases hok
  by_cases hzero : s.registry.currentEpoch.clientsPendingAck = 0
  · unfold Server.waitForAcksOrTimeout at hst'
    rw [if_pos hzero] at hst'
    cases hst'
  by_cases hle : s.registry.currentEpoch.clientsPendingAck.toNat ≤ s.zombies (inp.clockNs 0)
  · unfold Server.waitForAcksOrTimeout at hst'
    rw [if_neg hzero, if_pos hle] at hst'
    cases hst'
  rw [Server.waitForAcks_grace hzero (Nat.not_le.mp hle)] at hst' ⊢
  by_cases hgrace : s.GraceOver inp
  · rw [if_pos hgrace] at hst'
    cases hst'
  · rw [if_neg hgrace]

/-- A tick that begins a phase is a copy, and leaves the timer as it is. -/
theorem copy_of_begin (hst : s.registry.resizeState ≠ .readyToSwitch) (hok : s.checkState H inp = .ok s')
    (hst' : s'.registry.resizeState = .readyToSwitch) : s.CompletesCopy inp ∧ s'.ackWaitStart = s.ackWaitStart := by
  obtain hquiet | ⟨hcopy, rfl⟩ := checkState_cases hok
  · exfalso
    have hmove := checkState_move hok
    cases hmove with
    | wait ack gc => exact hst hst'
    | trigger => cases hst'
    | abort => cases hst'
    | copy => exact absurd hquiet.currentVersion (Nat.ne_of_gt (lt_nextVersion _))
    | acked hready => exact hst hready
    | drained hdrain inp hkeep =>
        have hstate := (TickMove.drained hdrain inp hkeep).change.state
        rw [hst', hdrain] at hstate
        cases hstate
    | reclaimed => cases hst'
  · exact ⟨hcopy, rfl⟩

end Tick

/-! ## The invariant -/

/-- The phase began no later than the last reading; outside it there is no beginning; and within it a running timer was
    started by one of its ticks. -/
structure GraceInv (w : GraceWorld) : Prop where
  past : ∀ t, w.phaseStart = some t → t ≤ w.lastNs
  outside : w.server.registry.resizeState ≠ .readyToSwitch → w.phaseStart = none
  timer : w.server.registry.resizeState = .readyToSwitch → w.server.ackWaitStart ≠ 0 →
    ∃ t, w.phaseStart = some t ∧ t / 1000000 ≤ w.server.ackWaitStart.toNat ∧
      w.server.ackWaitStart.toNat ≤ w.lastNs / 1000000

section Run

variable {H : HashFn} {w w' : GraceWorld} {inp : TickInput}

theorem TickInput.nowMs_toNat (inp : TickInput) (i : Nat) : (inp.nowMs i).toNat = (inp.clockNs i).toNat / 1000000 := by
  unfold nowMs
  rw [BitVec.toNat_udiv]
  rfl

/-- A tick belongs to a phase that began no later. -/
theorem GraceInv.start_le (h : GraceInv w) (hclock : w.Forward (.tick inp)) : w.start inp ≤ (inp.clockNs 0).toNat := by
  unfold GraceWorld.start
  cases hphase : w.phaseStart with
  | none => exact le_refl _
  | some t => exact (h.past t hphase).trans hclock.1

/-- The timer as the tick sees it was started within the phase, and not after the tick's second reading. -/
theorem GraceInv.started (h : GraceInv w) (hclock : w.Forward (.tick inp))
    (hst : w.server.registry.resizeState = .readyToSwitch) :
    w.start inp / 1000000 ≤ (if w.server.ackWaitStart = 0 then inp.nowMs 1 else w.server.ackWaitStart).toNat ∧
    (if w.server.ackWaitStart = 0 then inp.nowMs 1 else w.server.ackWaitStart).toNat
      ≤ (inp.clockNs 1).toNat / 1000000 := by
  have hle := h.start_le hclock
  obtain ⟨hlast, hfirst, -⟩ := hclock
  by_cases hstart : w.server.ackWaitStart = 0
  · rw [if_pos hstart, TickInput.nowMs_toNat]
    omega
  · rw [if_neg hstart]
    obtain ⟨t, hphase, hge, hle⟩ := h.timer hst hstart
    have heq : w.start inp = t := by
      unfold GraceWorld.start
      rw [hphase]
      rfl
    omega

theorem GraceInv.tick (h : GraceInv w) (hclock : w.Forward (.tick inp)) (hfresh : w.FreshTimer (.tick inp))
    (hok : w.step H (.tick inp) = .ok w') : GraceInv w' := by
  obtain ⟨s, hs, hok⟩ := Lib.bind_eq_ok.mp hok
  cases hok
  have hstart := h.start_le hclock
  obtain ⟨hlast, hfirst, hsecond⟩ := hclock
  by_cases hstay : w.server.registry.resizeState = .readyToSwitch ∧ s.registry.resizeState = .readyToSwitch
  · simp only [if_pos hstay]
    refine ⟨?_, fun hout => absurd hstay.2 hout, fun _ _ => ⟨_, rfl, ?_⟩⟩
    · rintro t ⟨rfl⟩
      exact hstart.trans (hfirst.trans hsecond)
    · have hstarted := h.started ⟨hlast, hfirst, hsecond⟩ hstay.1
      rw [ackWaitStart_of_stay hstay.1 hs hstay.2]
      exact ⟨hstarted.1, hstarted.2.trans (Nat.div_le_div_right hsecond)⟩
  · simp only [if_neg hstay]
    refine ⟨fun t ht => (nomatch ht), fun _ => rfl, fun hst' hne => ?_⟩
    -- a phase begins, with the timer cleared
    have hst : w.server.registry.resizeState ≠ .readyToSwitch := fun hst => hstay ⟨hst, hst'⟩
    obtain ⟨hcopy, hkept⟩ := copy_of_begin hst hs hst'
    exact absurd (hkept.trans (hfresh hcopy)) hne

theorem GraceInv.step {a : ServerStep} (h : GraceInv w) (hclock : w.Forward a) (hfresh : w.FreshTimer a)
    (hok : w.step H a = .ok w') : GraceInv w' := by
  cases a with
  | tick inp => exact h.tick hclock hfresh hok
  | clients c =>
      cases hok
      exact ⟨h.past, h.outside, h.timer⟩

end Run

/-- **The grace window.** In a run whose clock does not go back and whose copies all find the timer cleared, a tick that
    times out reads the clock for the last time more than `kAckGraceMs` after the first tick of the phase. -/
theorem grace_window {H : HashFn} {st : Store} {sSlow sStop : Nat} {w : GraceWorld}
    (hrun : Lib.Reaches (GraceWorld.step H) (fun w a => w.Forward a ∧ w.FreshTimer a) (st.server sSlow sStop).graceWorld w)
    {inp : TickInput} (hclock : w.Forward (.tick inp)) (htimeout : w.server.TimesOut inp) :
    w.start inp + kAckGraceMs.toNat * 1000000 < (inp.clockNs 2).toNat := by
  have hinv : GraceInv w := hrun.invariant (P := GraceInv)
    ⟨fun t ht => (nomatch ht), fun _ => rfl, fun hst => (nomatch hst)⟩
    fun v a v' hv hguard hstep => hv.step hguard.1 hguard.2 hstep
  obtain ⟨hst, -, -, hgrace⟩ := htimeout
  obtain ⟨hge, hle⟩ := hinv.started hclock hst
  obtain ⟨-, -, hsecond⟩ := hclock
  have hms : (inp.nowMs 2).toNat = (inp.clockNs 2).toNat / 1000000 := inp.nowMs_toNat 2
  have hgraceMs : kAckGraceMs.toNat = 5000 := by decide
  unfold Server.GraceOver at hgrace
  rw [gt_iff_lt, BitVec.lt_def, BitVec.toNat_sub_of_le (BitVec.le_def.mpr (by omega)), hms, hgraceMs] at hgrace
  rw [hgraceMs]
  omega

/-! ## Two resizes of the store of key 7 -/

def tickAt (ns : U64) : ServerStep := .tick { calmTick with clockNs := fun _ => ns }

/-- One client, with a heartbeat at the start, and the acknowledgements missing. -/
def oneClient (pending : U64) : ServerStep := .clients ⟨fun _ => 2, fun i => ⟨0, 0, i = 0⟩, 1, fun _ => pending⟩

/-- From a client's connect to the first tick of `READY_TO_SWITCH`. -/
def firstPhase : List ServerStep := [oneClient 0, tickAt 1000000000, tickAt 1000000000, tickAt 1000000000]

/-- A phase that lasts from 1 s to 7 s. -/
theorem grace_window_seven : ∃ w, Lib.Reaches (GraceWorld.step fastHasher64) (fun w a => w.Forward a ∧ w.FreshTimer a)
      sevenServer.graceWorld w ∧
    ∃ inp, w.server.TimesOut inp ∧ w.start inp + kAckGraceMs.toNat * 1000000 < (inp.clockNs 2).toNat := by
  obtain ⟨w, hrun, hw⟩ : ∃ w, Lib.Reaches (GraceWorld.step fastHasher64) (fun w a => w.Forward a ∧ w.FreshTimer a)
      sevenServer.graceWorld w ∧ decide (w.Forward (tickAt 7000000000) ∧
        w.server.TimesOut { calmTick with clockNs := fun _ => 7000000000 }) = true :=
    Lib.exists_along firstPhase (by decide +kernel)
  obtain ⟨hclock, htimeout⟩ := of_decide_eq_true hw
  exact ⟨w, hrun, _, htimeout, grace_window hrun hclock htimeout⟩

/-- The first phase, whose timer starts at 1 s, ends by the acknowledgement. The second one begins at 10 s, and its first
    tick finds 9 s gone. -/
theorem grace_cut_short : ¬ ∀ w, Lib.Reaches (GraceWorld.step fastHasher64) GraceWorld.Forward sevenServer.graceWorld w →
    ∀ inp, w.Forward (.tick inp) → w.server.TimesOut inp →
      w.start inp + kAckGraceMs.toNat * 1000000 < (inp.clockNs 2).toNat := by
  intro h
  obtain ⟨w, hrun, hw⟩ : ∃ w, Lib.Reaches (GraceWorld.step fastHasher64) GraceWorld.Forward sevenServer.graceWorld w ∧
      decide (w.Forward (tickAt 10000000000) ∧ w.phaseStart = none ∧
        w.server.TimesOut { calmTick with clockNs := fun _ => 10000000000 }) = true :=
    Lib.exists_along
      (firstPhase ++ [oneClient 0] ++ List.replicate 2 (tickAt 1000000000) ++ List.replicate 3 (tickAt 10000000000))
      (by decide +kernel)
  obtain ⟨hclock, hphase, htimeout⟩ := of_decide_eq_true hw
  have hlate := h w hrun _ hclock htimeout
  unfold GraceWorld.start at hlate
  rw [hphase] at hlate
  exact absurd hlate (by decide)

end Outback
