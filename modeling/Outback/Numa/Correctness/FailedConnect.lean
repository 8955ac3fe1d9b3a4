import Outback.Numa.Correctness.Attach
import Outback.Lib.Reach

/-!
# `Numa.Correctness.FailedConnect` — what a connect that gives up leaves behind

`connect_to_numa_server` takes its slot of the client table before it opens the region, and gives it back on no path.
**`failed_connect_traceless`**: a failing connect leaves the registry as it was exactly when it fails before the
registration, or finds the table full; and as long as no attempt of the connect loop registers and then fails, the process
holds at most one slot. `failed_connect_leaks` is a process with two.
-/

namespace Outback

section Call

variable {c : ClientView} {tid : Nat} {env : OpEnv}

/-- A free slot is free. -/
theorem SharedNumaRegistry.inactive_of_free {reg : SharedNumaRegistry} {i : Nat} (h : reg.freeClientSlot = some i) :
    (reg.clients i).active = false := by
  have hfree := List.find?_some h
  simpa using hfree

/-- Registering changes the registry unless the table is full. -/
theorem SharedNumaRegistry.registerClient_eq_self_iff {reg : SharedNumaRegistry} :
    reg.registerClient = reg ↔ reg.freeClientSlot = none := by
  unfold registerClient
  cases hfree : reg.freeClientSlot with
  | none => exact iff_of_true rfl rfl
  | some i =>
      refine iff_of_false (fun h => ?_) (fun h => nomatch h)
      have hactive := congrArg (fun r => (r.clients i).active) h
      simp only [Function.update_self, inactive_of_free hfree] at hactive
      cases hactive

/-- A heartbeat registers nobody. -/
theorem SharedNumaRegistry.heartbeat_active (reg : SharedNumaRegistry) (slot : Option Nat) (now : U64) (i : Nat) :
    ((reg.heartbeat slot now).clients i).active = (reg.clients i).active := by
  cases slot with
  | none => rfl
  | some j =>
      show (Function.update reg.clients j { reg.clients j with
        lastHeartbeatNs := now, lastSeenGeneration := reg.generation } i).active = _
      by_cases hij : i = j
      · rw [hij, Function.update_self]
      · rw [Function.update_of_ne hij]

/-- The call gets as far as the registration. -/
def ClientView.Registers (c : ClientView) (env : OpEnv) : Prop := env.opensRegistry = true ∧ c.shared.RegistryReady

instance (c : ClientView) (env : OpEnv) : Decidable (c.Registers env) := inferInstanceAs (Decidable (_ ∧ _))

/-- The region of the current version opens. -/
def ClientView.RegionOpens (c : ClientView) (env : OpEnv) : Prop :=
  c.shared.openRegion c.shared.registry.currentVersion env.opensRegion = true

instance (c : ClientView) (env : OpEnv) : Decidable (c.RegionOpens env) := inferInstanceAs (Decidable (_ = _))

/-- A connect that fails has stopped before the registration, or behind it. -/
theorem connect_failed (h : (c.connectToNumaServer tid env).1 = false) :
    ¬ c.Registers env ∧ (c.connectToNumaServer tid env).2.shared = c.shared ∨
    (c.Registers env ∧ ¬ c.RegionOpens env) ∧
      (c.connectToNumaServer tid env).2.shared = c.shared.withRegistry c.shared.registry.registerClient := by
  unfold ClientView.connectToNumaServer at h ⊢
  by_cases hopens : env.opensRegistry = false
  · simp only [if_pos hopens]
    exact Or.inl ⟨fun hreg => absurd (hopens.symm.trans hreg.1) Bool.false_ne_true, trivial⟩
  by_cases hready : c.shared.RegistryReady
  · right
    have hreg : c.Registers env := ⟨Bool.eq_true_of_not_eq_false hopens, hready⟩
    by_cases hopen : (c.shared.withRegistry c.shared.registry.registerClient).openRegion c.shared.registry.currentVersion
        env.opensRegion = false
    · simp only [if_neg hopens, if_neg (not_not.mpr hready), if_pos hopen]
      exact ⟨⟨hreg, fun ho => absurd (hopen.symm.trans ho) Bool.false_ne_true⟩, trivial⟩
    · simp only [if_neg hopens, if_neg (not_not.mpr hready), if_neg hopen] at h
      cases h
  · simp only [if_neg hopens, if_pos hready]
    exact Or.inl ⟨fun hreg => hready hreg.2, trivial⟩

/-- A connect that succeeds attaches behind its registration. -/
theorem connect_clients (h : (c.connectToNumaServer tid env).1 = true) (i : Nat) :
    ((c.connectToNumaServer tid env).2.shared.registry.clients i).active
      = (c.shared.registry.registerClient.clients i).active := by
  unfold ClientView.connectToNumaServer at h ⊢
  by_cases hopens : env.opensRegistry = false
  · rw [if_pos hopens] at h
    cases h
  by_cases hready : c.shared.RegistryReady
  · by_cases hopen : (c.shared.withRegistry c.shared.registry.registerClient).openRegion c.shared.registry.currentVersion
        env.opensRegion = false
    · simp only [if_neg hopens, if_neg (not_not.mpr hready), if_pos hopen] at h
      cases h
    · simp only [if_neg hopens, if_neg (not_not.mpr hready), if_neg hopen]
      exact SharedNumaRegistry.heartbeat_active _ _ _ i
  · simp only [if_neg hopens, if_pos hready] at h
    cases h

/-- A failing connect leaves the registry as it was exactly when it does not take a slot. -/
theorem connect_failed_iff (h : (c.connectToNumaServer tid env).1 = false) :
    (c.connectToNumaServer tid env).2.shared.registry = c.shared.registry ↔
      ¬ c.Registers env ∨ c.shared.registry.freeClientSlot = none := by
  obtain ⟨hreg, heq⟩ | ⟨⟨hreg, -⟩, heq⟩ := connect_failed h
  · rw [heq]
    exact iff_of_true rfl (Or.inl hreg)
  · rw [heq]
    show c.shared.registry.registerClient = c.shared.registry ↔ _
    rw [SharedNumaRegistry.registerClient_eq_self_iff]
    exact ⟨Or.inr, fun hstop => hstop.resolve_left (not_not.mpr hreg)⟩

end Call

/-! ## The connect loop -/

/-- A client process in the connect loop of its `main`. `held` are the slots that the process itself has taken. -/
structure ConnectLoop where
  view : ClientView
  connected : Bool
  held : Nat → Bool

/-- One more attempt, or something that others do to the shared memory. -/
inductive LoopStep where
  | attempt (env : OpEnv)
  | others (sh : Shared)

namespace ConnectLoop

def start (sh : Shared) (lookup : DataPlaneLudo) : ConnectLoop :=
  ⟨⟨sh, .init lookup, .init 0⟩, false, fun _ => false⟩

/-- An attempt takes the slots that are taken behind it and were not before. -/
def attempt (w : ConnectLoop) (env : OpEnv) : ConnectLoop :=
  let r := w.view.connectToNumaServer 0 env
  { view := r.2
    connected := r.1
    held := fun i => w.held i || (!(w.view.shared.registry.clients i).active && (r.2.shared.registry.clients i).active) }

def step (w : ConnectLoop) : LoopStep → Exec ConnectLoop
  | .attempt env => .ok (if w.connected then w else w.attempt env)
  | .others sh => .ok { w with view := { w.view with shared := sh } }

/-- An attempt that registers goes on to open the region. -/
def OpensOnceRegistered (w : ConnectLoop) : LoopStep → Prop
  | .attempt env => w.view.Registers env → w.view.RegionOpens env
  | .others _ => True

instance (w : ConnectLoop) : ∀ a, Decidable (w.OpensOnceRegistered a)
  | .attempt _ => inferInstanceAs (Decidable (_ → _))
  | .others _ => inferInstanceAs (Decidable True)

/-- The slots the process holds are one slot at most, and none before it is connected. -/
structure OneSlot (w : ConnectLoop) : Prop where
  unique : ∀ i j, w.held i = true → w.held j = true → i = j
  waiting : w.connected = false → ∀ i, w.held i = false

/-- The slot a registration takes. -/
theorem registerClient_takes {reg : SharedNumaRegistry} {i : Nat} (hbefore : (reg.clients i).active = false)
    (hafter : (reg.registerClient.clients i).active = true) : reg.freeClientSlot = some i := by
  unfold SharedNumaRegistry.registerClient at hafter
  split at hafter
  · rw [hbefore] at hafter
    cases hafter
  · rename_i j hfree
    by_cases hij : i = j
    · rw [hij]
      exact hfree
    · simp only [Function.update_of_ne hij, hbefore] at hafter
      cases hafter

variable {w : ConnectLoop} {env : OpEnv}

theorem OneSlot.attempt (h : OneSlot w) (hwait : w.connected = false) (hopens : w.view.Registers env → w.view.RegionOpens env) :
    OneSlot (w.attempt env) := by
  have hnone := h.waiting hwait
  by_cases hok : (w.view.connectToNumaServer 0 env).1 = false
  · -- it has failed before the registration
    have hshared : (w.view.connectToNumaServer 0 env).2.shared = w.view.shared := by
      obtain ⟨-, heq⟩ | ⟨⟨hreg, hno⟩, -⟩ := connect_failed hok
      · exact heq
      · exact absurd (hopens hreg) hno
    have hheld : ∀ i, (w.attempt env).held i = false := by
      intro i
      unfold ConnectLoop.attempt
      simp only [hnone i, hshared, Bool.not_and_self, Bool.or_self]
    exact ⟨fun i j hi => absurd ((hheld i).symm.trans hi) Bool.false_ne_true, fun _ => hheld⟩
  · have hok := Bool.eq_true_of_not_eq_false hok
    have htaken : ∀ i, (w.attempt env).held i = true → w.view.shared.registry.freeClientSlot = some i := by
      intro i hi
      unfold ConnectLoop.attempt at hi
      simp only [hnone i, Bool.false_or, Bool.and_eq_true, Bool.not_eq_true', connect_clients hok i] at hi
      exact registerClient_takes hi.1 hi.2
    refine ⟨fun i j hi hj => ?_, fun hwait' => ?_⟩
    · have heq := (htaken i hi).symm.trans (htaken j hj)
      exact Option.some.inj heq
    · exact absurd (hwait'.symm.trans hok) Bool.false_ne_true

theorem OneSlot.step {w' : ConnectLoop} {a : LoopStep} (h : OneSlot w) (hguard : w.OpensOnceRegistered a)
    (hok : w.step a = .ok w') : OneSlot w' := by
  cases a with
  | attempt env =>
      cases hok
      split
      · exact h
      · rename_i hwait
        exact h.attempt (Bool.eq_false_of_not_eq_true hwait) hguard
  | others sh =>
      cases hok
      exact ⟨h.unique, h.waiting⟩

end ConnectLoop

/-- **A failing connect and its traces.** For every registry and every outcome of the two openings, a connect that fails
    leaves the registry as it was exactly when it fails before the registration or the client table is full. And over any
    number of attempts, with anything happening to the shared memory in between: if no attempt registers and then fails,
    the process never holds two slots. -/
theorem failed_connect_traceless (sh : Shared) (lookup : DataPlaneLudo) :
    (∀ (c : ClientView) (tid : Nat) (env : OpEnv), (c.connectToNumaServer tid env).1 = false →
      ((c.connectToNumaServer tid env).2.shared.registry = c.shared.registry ↔
        ¬ c.Registers env ∨ c.shared.registry.freeClientSlot = none)) ∧
    ∀ w, Lib.Reaches ConnectLoop.step ConnectLoop.OpensOnceRegistered (.start sh lookup) w →
      ∀ i j, w.held i = true → w.held j = true → i = j := by
  refine ⟨fun c tid env => connect_failed_iff, fun w hrun => ?_⟩
  have hinv : ConnectLoop.OneSlot w := hrun.invariant
    ⟨fun i j hi => (nomatch hi), fun _ _ => rfl⟩ fun v a v' hv hguard hstep => hv.step hguard hstep
  exact hinv.unique

/-- A process before the store of key 7. -/
def sevenLoop : ConnectLoop := .start ((rowStore 423 0 [7]).publish 1 1) (rowStore 423 0 [7]).lookup

/-- The registry does not open at first, and then everything does. -/
theorem failed_connect_traceless_seven :
    (sevenLoop.view.connectToNumaServer 0 ⟨false, true, .zero, 1⟩).2.shared.registry = sevenLoop.view.shared.registry ∧
    ∃ w, Lib.Reaches ConnectLoop.step ConnectLoop.OpensOnceRegistered sevenLoop w ∧
      w.connected = true ∧ w.held 0 = true ∧ ∀ i, w.held i = true → i = 0 := by
  obtain ⟨hcall, hloop⟩ := failed_connect_traceless ((rowStore 423 0 [7]).publish 1 1) (rowStore 423 0 [7]).lookup
  refine ⟨(hcall _ _ _ rfl).mpr (Or.inl (by decide)), ?_⟩
  obtain ⟨w, hrun, hw⟩ : ∃ w, Lib.Reaches ConnectLoop.step ConnectLoop.OpensOnceRegistered sevenLoop w ∧
      decide (w.connected = true ∧ w.held 0 = true) = true := Lib.exists_along
    [.attempt ⟨false, true, .zero, 1⟩, .attempt ⟨true, true, .zero, 1⟩] (by decide +kernel)
  obtain ⟨hconnected, hheld⟩ := of_decide_eq_true hw
  exact ⟨w, hrun, hconnected, hheld, fun i hi => hloop w hrun i 0 hi hheld⟩

/-- The region does not open at first: the slot taken in that attempt stays taken, and the next one takes another. -/
theorem failed_connect_leaks :
    (¬ ∀ (c : ClientView) (tid : Nat) (env : OpEnv), (c.connectToNumaServer tid env).1 = false →
      (c.connectToNumaServer tid env).2.shared.registry = c.shared.registry) ∧
    ¬ ∀ w, Lib.Reaches ConnectLoop.step Lib.anyStep sevenLoop w → ∀ i j, w.held i = true → w.held j = true → i = j := by
  constructor
  · intro h
    have hsame := h sevenLoop.view 0 ⟨true, false, .zero, 1⟩ rfl
    have hregistered := congrArg SharedNumaRegistry.registeredClients hsame
    exact absurd hregistered (by decide)
  · intro h
    obtain ⟨w, hrun, hw⟩ : ∃ w, Lib.Reaches ConnectLoop.step Lib.anyStep sevenLoop w ∧
        decide (w.held 0 = true ∧ w.held 1 = true) = true := Lib.exists_along
      [.attempt ⟨true, false, .zero, 1⟩, .attempt ⟨true, true, .zero, 1⟩] (by decide +kernel)
    obtain ⟨hzero, hone⟩ := of_decide_eq_true hw
    exact absurd (h w hrun 0 1 hzero hone) (by decide)

end Outback
