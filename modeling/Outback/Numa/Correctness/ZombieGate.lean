import Mathlib.Data.Finset.Card
import Mathlib.Data.Finset.Range
import Outback.Numa.Resize

/-!
# `Numa.Correctness.ZombieGate` — whom the zombie gate discounts

`wait_for_acks_or_timeout` goes on to `DRAIN_OLD` when `clients_pending_ack` is not above the number of clients with a stale
heartbeat. The counter is about the clients that have not remapped, the scan about all that are registered.
**`gateSound_iff`**: the gate opens on dead clients only exactly when the stale clients that have remapped are fewer than the
fresh ones that have not, or there are none of the latter. `gate_opens_on_live` is one stale client that has remapped beside
a fresh one that has not.

A heartbeat later than the scan's clock reading wraps and counts as stale, dead is who has been silent for longer than the
threshold.
-/

namespace Outback

namespace Server

variable (s : Server) (remapped : Nat → Bool) (now : U64)

/-- The slots of the client table that are taken. -/
def registered : Finset Nat := (Finset.range kMaxClients).filter fun i => (s.registry.clients i).active = true

/-- What the scan asks of a client's heartbeat. -/
def Stale (i : Nat) : Prop := now - (s.registry.clients i).lastHeartbeatNs > kZombieThresholdNs

/-- The client's last heartbeat is older than the threshold. -/
def Dead (i : Nat) : Prop := (s.registry.clients i).lastHeartbeatNs.toNat + kZombieThresholdNs.toNat < now.toNat

instance (i : Nat) : Decidable (s.Stale now i) := inferInstanceAs (Decidable (_ > _))

instance (i : Nat) : Decidable (s.Dead now i) := inferInstanceAs (Decidable (_ < _))

/-- The registered clients that have not remapped to the current epoch. -/
def unacked : Finset Nat := s.registered.filter fun i => remapped i = false

/-- The registered clients that have. -/
def acked : Finset Nat := s.registered.filter fun i => remapped i = true

/-- The scan's count. -/
theorem zombies_eq : s.zombies now = (s.registered.filter (s.Stale now)).card := by
  unfold zombies registered
  rw [Finset.filter_filter]
  change _ = ((List.range kMaxClients).filter fun i =>
    decide ((s.registry.clients i).active = true ∧ s.Stale now i)).length
  congr 2
  funext i
  simp [Stale]

variable {s remapped now}

/-- The gate compares two parts of the client table: it opens when the stale clients that have remapped make up for the fresh
    ones that have not. -/
theorem card_unacked_le_zombies_iff : (s.unacked remapped).card ≤ s.zombies now ↔
    ((s.unacked remapped).filter (¬ s.Stale now ·)).card ≤ ((s.acked remapped).filter (s.Stale now)).card := by
  have hzombies : s.zombies now
      = ((s.acked remapped).filter (s.Stale now)).card + ((s.unacked remapped).filter (s.Stale now)).card := by
    rw [zombies_eq, ← Finset.card_filter_add_card_filter_not (fun i => remapped i = true)]
    unfold acked unacked
    simp only [Finset.filter_filter, and_comm, Bool.not_eq_true]
  have hunacked := Finset.card_filter_add_card_filter_not (s := s.unacked remapped) (s.Stale now)
  omega

/-! ## The tick -/

variable {inp : TickInput}

/-- The tick finds the grace window over. -/
def GraceOver (s : Server) (inp : TickInput) : Prop :=
  inp.nowMs 2 - (if s.ackWaitStart = 0 then inp.nowMs 1 else s.ackWaitStart) > kAckGraceMs

instance (s : Server) (inp : TickInput) : Decidable (s.GraceOver inp) := inferInstanceAs (Decidable (_ > _))

/-- What is left of the tick behind its two gates. -/
theorem waitForAcks_grace (hzero : s.registry.currentEpoch.clientsPendingAck ≠ 0)
    (hzombies : s.zombies (inp.clockNs 0) < s.registry.currentEpoch.clientsPendingAck.toNat) :
    s.waitForAcksOrTimeout inp = if s.GraceOver inp then { s.forceDrain with ackWaitStart := 0 }
      else { s with ackWaitStart := if s.ackWaitStart = 0 then inp.nowMs 1 else s.ackWaitStart } := by
  unfold waitForAcksOrTimeout GraceOver
  simp only [if_neg hzero, if_neg (Nat.not_le.mpr hzombies)]
  by_cases hstart : s.ackWaitStart = 0
  · simp only [if_pos hstart]
    rfl
  · simp only [if_neg hstart]

/-- Within the grace window the tick goes on exactly when the counter is not above the scan's count. -/
theorem gate_opens_iff (hst : s.registry.resizeState = .readyToSwitch) (hgrace : ¬ s.GraceOver inp) :
    (s.waitForAcksOrTimeout inp).registry.resizeState = .drainOld ↔
      s.registry.currentEpoch.clientsPendingAck.toNat ≤ s.zombies (inp.clockNs 0) := by
  by_cases hzero : s.registry.currentEpoch.clientsPendingAck = 0
  · unfold waitForAcksOrTimeout
    rw [if_pos hzero, hzero]
    exact iff_of_true rfl (Nat.zero_le _)
  by_cases hle : s.registry.currentEpoch.clientsPendingAck.toNat ≤ s.zombies (inp.clockNs 0)
  · unfold waitForAcksOrTimeout
    rw [if_neg hzero, if_pos hle]
    exact iff_of_true rfl hle
  rw [waitForAcks_grace hzero (Nat.not_le.mp hle), if_neg hgrace]
  refine iff_of_false (fun hdrain => ?_) hle
  cases hst.symm.trans hdrain

/-- The number of those who have not remapped fits the counter. -/
theorem card_unacked_lt (s : Server) (remapped : Nat → Bool) : (s.unacked remapped).card < 2 ^ 64 := by
  have hregistered : s.registered.card ≤ kMaxClients := by
    simpa [registered] using Finset.card_filter_le (Finset.range kMaxClients) fun i => (s.registry.clients i).active = true
  have hunacked := Finset.card_filter_le s.registered fun i => remapped i = false
  unfold unacked
  unfold kMaxClients at hregistered
  omega

/-- **The zombie gate discounts dead clients only exactly when the fresh clients it waits for outnumber the stale ones it
    need not wait for, or all it waits for are dead.** -/
theorem gateSound_iff (hst : s.registry.resizeState = .readyToSwitch)
    (hpending : s.registry.currentEpoch.clientsPendingAck = BitVec.ofNat 64 (s.unacked remapped).card)
    (hgrace : ¬ s.GraceOver inp) :
    ((s.waitForAcksOrTimeout inp).registry.resizeState = .drainOld →
        ∀ i ∈ s.unacked remapped, s.Dead (inp.clockNs 0) i) ↔
      (∀ i ∈ s.unacked remapped, s.Dead (inp.clockNs 0) i) ∨
        ((s.acked remapped).filter (s.Stale (inp.clockNs 0))).card
          < ((s.unacked remapped).filter (¬ s.Stale (inp.clockNs 0) ·)).card := by
  have hopens : (s.waitForAcksOrTimeout inp).registry.resizeState = .drainOld ↔
      ((s.unacked remapped).filter (¬ s.Stale (inp.clockNs 0) ·)).card
        ≤ ((s.acked remapped).filter (s.Stale (inp.clockNs 0))).card := by
    rw [gate_opens_iff hst hgrace, hpending, BitVec.toNat_ofNat, Nat.mod_eq_of_lt (card_unacked_lt s remapped),
      card_unacked_le_zombies_iff]
  rw [hopens, imp_iff_not_or, not_le, or_comm]

/-- Two registered clients at 40 s: the one in slot 0 has remapped and been silent since, the one in slot 1 has just sent
    its heartbeat. -/
def liveServer : Server :=
  (sevenServer.setState .readyToSwitch).clientsWrite
    ⟨fun _ => 0, fun i => ⟨if i = 0 then 0 else 40000000000, 0, i < 2⟩, 2, fun _ => 1⟩

def liveTick : TickInput := { calmTick with clockNs := fun _ => 40000000000 }

theorem gateSound_iff_live :
    ((liveServer.waitForAcksOrTimeout liveTick).registry.resizeState = .drainOld →
        ∀ i ∈ liveServer.unacked (· == 1), liveServer.Dead (liveTick.clockNs 0) i) ↔
      (∀ i ∈ liveServer.unacked (· == 1), liveServer.Dead (liveTick.clockNs 0) i) ∨
        ((liveServer.acked (· == 1)).filter (liveServer.Stale (liveTick.clockNs 0))).card
          < ((liveServer.unacked (· == 1)).filter (¬ liveServer.Stale (liveTick.clockNs 0) ·)).card :=
  gateSound_iff rfl (by decide +kernel) (by decide +kernel)

/-- The gate opens, although the client it waits for is alive. -/
theorem gate_opens_on_live :
    liveServer.registry.resizeState = .readyToSwitch ∧
    liveServer.registry.currentEpoch.clientsPendingAck = BitVec.ofNat 64 (liveServer.unacked (· == 0)).card ∧
    liveServer.registry.currentEpoch.clientsPendingAck ≠ 0 ∧ ¬ liveServer.GraceOver liveTick ∧
    (liveServer.waitForAcksOrTimeout liveTick).registry.resizeState = .drainOld ∧
    1 ∈ liveServer.unacked (· == 0) ∧ ¬ liveServer.Dead (liveTick.clockNs 0) 1 := by
  decide +kernel

end Server

end Outback
