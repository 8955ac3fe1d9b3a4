import Outback.Numa.Correctness.ClientSteps

/-!
# `Numa.Correctness.ResizeRace` — client writes while the region is being copied

The client path never looks at `resize_state`, so a client may write into the old region after `do_copy` has copied
it and before `current_version` is stored. **`published_copy_exact`**: in every interleaving of any number of clients
with the steps of `do_copy` in which no client writes in that window, the region that gets published equals the old
one on the copied range at that moment. `write_lost_in_window` is a run in which one client does.
-/

namespace Outback

/-! ## The window -/

namespace CopyPhase

/-- The packed array has been copied and the version has not been stored. -/
def inWindow : CopyPhase → Bool
  | .packedCopied | .bucketsCopied | .epochFilled | .lanesReset => true
  | .created | .versionStored | .generationBumped => false

/-- The buckets too have been copied. -/
def bucketsDone : CopyPhase → Bool
  | .bucketsCopied | .epochFilled | .lanesReset => true
  | .created | .packedCopied | .versionStored | .generationBumped => false

/-- `current_version` is the new one. -/
def stored : CopyPhase → Bool
  | .versionStored | .generationBumped => true
  | .created | .packedCopied | .bucketsCopied | .epochFilled | .lanesReset => false

end CopyPhase

/-- The branches of an operation that write neither an entry nor a slot word. -/
def Store.WritesNothing (H : HashFn) (st : Store) : NumaOp → Prop
  | .put laneId k _ =>
      match st.status H k with
      | .good | .emptyExists => st.nextIndex laneId = none
      | .maybeUpdate => (st.primaryEntry H k).key ≠ k
      | .full => False
  | .update k _ => (st.primaryEntry H k).key ≠ k
  | .remove k => (st.primaryEntry H k).key ≠ k

/-- The version check remaps: the generation has moved to another version, and the remap goes through. -/
def ClientView.Remaps (c : ClientView) (env : OpEnv) : Prop :=
  c.process.registryMapped = true ∧ c.shared.registry.generation ≠ c.region.localGeneration ∧
    c.shared.registry.currentVersion ≠ c.region.localVersion ∧ c.shared.RemapOpens env

/-- An operation that leaves the current region alone: it does not remap, and if it is a write that goes to the current
    region, it takes a branch that writes nothing. -/
def ClientView.Harmless (H : HashFn) (c : ClientView) (tid : Nat) (env : OpEnv) : ClientOp → Prop
  | .search _ => ¬ c.Remaps env
  | .write op => ¬ c.Remaps env ∧ ∀ w, (c.maybeCheckVersion tid env).selectWrappers = .ok (some w) →
      w.ver = c.shared.registry.currentVersion →
      ((c.maybeCheckVersion tid env).store w).WritesNothing H (op.onLane c.region.remoteLaneId)

/-- A connect attaches: the registry and the current region can be used. -/
def ClientView.Connects (c : ClientView) (env : OpEnv) : Prop :=
  env.opensRegistry = true ∧ c.shared.RegistryReady ∧ c.shared.RemapOpens env

/-- The condition on a step: in the window of a copy, no client attaches and clients are harmless. -/
def QuietWindow (H : HashFn) (w : World) : WorldStep → Prop
  | .orchestrator _ => True
  | .connect tid env => ∀ phase plan, w.copy = some (phase, plan) → phase.inWindow = true →
      ¬ (w.view tid).Connects env
  | .client tid env op => ∀ phase plan, w.copy = some (phase, plan) → phase.inWindow = true →
      (w.view tid).Harmless H tid env op

/-! ## A branch that writes nothing -/

section WritesNothing

variable {H : HashFn} {st st' : Store}

/-- Such a branch leaves both arrays. -/
theorem step_writesNothing {op : NumaOp} (hw : st.WritesNothing H op) (h : st.step H op = .ok st') :
    st'.packed = st.packed ∧ st'.buckets = st.buckets := by
  cases op with
  | put laneId k v =>
      simp only [Store.WritesNothing] at hw
      cases numaPut_inv h with
      | noSpace s hs ha => exact ⟨rfl, rfl⟩
      | insert s idx hs ha =>
          -- a slot is found in two of the four answers, and both ask for an exhausted lane
          unfold Store.putSlot at hs
          cases hst : st.status H k with
          | good | emptyExists =>
              rw [hst] at hw
              cases ha.symm.trans hw
          | maybeUpdate | full =>
              rw [hst] at hs
              cases hs
      | update hst hk =>
          rw [hst] at hw
          exact absurd hk hw
      | dropped hst hk => exact ⟨rfl, rfl⟩
      | overwrite hst =>
          rw [hst] at hw
          exact absurd hw id
  | update k v =>
      rcases numaUpdate_cases h with ⟨-, rfl⟩ | ⟨hk, -⟩
      · exact ⟨rfl, rfl⟩
      · exact absurd hk hw
  | remove k =>
      rcases numaRemove_cases h with ⟨-, rfl⟩ | ⟨hk, -⟩
      · exact ⟨rfl, rfl⟩
      · exact absurd hk hw

end WritesNothing

/-! ## One client operation -/

section ClientStep

variable {H : HashFn} {c c' : ClientView} {tid : Nat} {env : OpEnv}

/-- Every wrapper a client can reach is over a version up to the current one. -/
structure ClientView.Bounded (c : ClientView) : Prop where
  own : ∀ w, c.region.wrappers = some w → w.ver ≤ c.shared.registry.currentVersion
  remote : ∀ r, c.process.remote = some r → r.wrappers.ver ≤ c.shared.registry.currentVersion

/-- What a version check does: it attaches to the current version when it `Remaps`, and touches no region else. -/
theorem maybeCheckVersion_regions (c : ClientView) (tid : Nat) (env : OpEnv) :
    (c.maybeCheckVersion tid env).shared.registry.currentVersion = c.shared.registry.currentVersion ∧
    (∀ v, v ≠ c.shared.registry.currentVersion →
      (c.maybeCheckVersion tid env).shared.regions v = c.shared.regions v) ∧
    (¬ c.Remaps env → (c.maybeCheckVersion tid env).shared.regions = c.shared.regions) := by
  unfold ClientView.maybeCheckVersion
  simp only
  split
  · exact ⟨rfl, fun _ _ => rfl, fun _ => rfl⟩
  · rename_i hm
    split
    · exact ⟨rfl, fun _ _ => rfl, fun _ => rfl⟩
    · rename_i hg
      split
      · rename_i hv
        rcases remap_shared c tid env with ⟨-, hsh⟩ | ⟨⟨h₁, h₂⟩, heq⟩
        · rw [hsh]
          exact ⟨rfl, fun _ _ => rfl, fun _ => rfl⟩
        · obtain ⟨hreg, hod⟩ := attach_shared (c.unmapOld tid) env c.shared.registry.currentVersion
          have hver := hod.registry.currentVersion
          rw [unmapOld_shared] at hreg hver
          rw [heq]
          refine ⟨hver, fun v hne => ?_, fun hno => absurd ⟨h₁, hg, hv, h₂⟩ hno⟩
          rw [hreg]
          exact Shared.setRegion_of_ne _ _ hne
      · have hreg := SharedNumaRegistry.sameData_heartbeat c.shared.registry c.region.clientSlot env.now
        exact ⟨hreg.currentVersion, fun _ _ => rfl, fun _ => rfl⟩

theorem ClientView.bounded_iff : c.Bounded ↔ c.AllWrappers (fun w => w.ver ≤ c.shared.registry.currentVersion) :=
  ⟨fun h => ⟨h.own, h.remote⟩, fun h => ⟨h.own, h.remote⟩⟩

/-- A version check keeps every view bounded. -/
theorem ClientView.Bounded.maybeCheckVersion (h : c.Bounded) (tid : Nat) (env : OpEnv) :
    (c.maybeCheckVersion tid env).Bounded := by
  rw [ClientView.bounded_iff, (maybeCheckVersion_regions c tid env).1]
  exact (ClientView.bounded_iff.mp h).maybeCheckVersion (le_refl _) tid env

/-- The wrappers an operation goes through. -/
theorem ClientView.Bounded.select (h : c.Bounded) {w : Wrappers} (hs : c.selectWrappers = .ok (some w)) :
    w.ver ≤ c.shared.registry.currentVersion :=
  (ClientView.bounded_iff.mp h).select hs

/-- What a client's step does to the shared memory: it keeps the current version and the view bounded, writes no region
    past the current version, and leaves the current one alone when it is `harmless`. -/
structure ClientEffect (c c' : ClientView) (harmless : Prop) : Prop where
  currentVersion : c'.shared.registry.currentVersion = c.shared.registry.currentVersion
  bounded : c'.Bounded
  newer : ∀ v, c.shared.registry.currentVersion < v → c'.shared.regions v = c.shared.regions v
  current : harmless → c'.shared.regions c.shared.registry.currentVersion
    = c.shared.regions c.shared.registry.currentVersion

/-- **One client operation.** -/
theorem clientStep_spec {op : ClientOp} (h : c.Bounded) (hok : c.step H tid env op = .ok c') :
    ClientEffect c c' (c.Harmless H tid env op) := by
  obtain ⟨hver, hother, hsame⟩ := maybeCheckVersion_regions c tid env
  have hb := h.maybeCheckVersion tid env
  have hcheck : ∀ v, c.shared.registry.currentVersion < v →
      (c.maybeCheckVersion tid env).shared.regions v = c.shared.regions v := fun v hv => hother v (Nat.ne_of_gt hv)
  rcases clientStep_inv hok with rfl | ⟨w, numaOp, st, rfl, hsel, hst, rfl⟩
  · refine ⟨hver, hb, hcheck, fun hh => ?_⟩
    cases op with
    | search key => rw [hsame hh]
    | write numaOp => rw [hsame hh.1]
  · have hwle := hb.select hsel
    rw [hver] at hwle
    refine ⟨hver, ⟨hb.own, hb.remote⟩, fun v hv => ?_, fun hh => ?_⟩
    · refine Eq.trans ?_ (hcheck v hv)
      exact Shared.setRegion_of_ne _ _ (by omega)
    · rw [← hsame hh.1]
      by_cases hw : w.ver = c.shared.registry.currentVersion
      · -- the write goes to the current region: it takes a branch that writes nothing
        have hno := hh.2 w hsel hw
        rw [← (maybeCheckVersion_keeps c tid env).2.2] at hno
        obtain ⟨hp, hbk⟩ := step_writesNothing hno hst
        show (Shared.setRegion _ _ _).regions _ = _
        rw [← hw, Shared.setRegion_self, hp, hbk]
        rfl
      · exact Shared.setRegion_of_ne _ _ (Ne.symm hw)

/-- **One connect.** -/
theorem connect_spec (h : c.Bounded) (tid : Nat) (env : OpEnv) :
    ClientEffect c (c.connectToNumaServer tid env).2 (¬ c.Connects env) := by
  have hver : (c.connectToNumaServer tid env).2.shared.registry.currentVersion = c.shared.registry.currentVersion := by
    rcases connect_shared c tid env with ⟨-, -, hod⟩ | ⟨-, -, hod⟩
    · exact hod.registry.currentVersion
    · exact hod.registry.currentVersion
  have hregions : (∀ v, v ≠ c.shared.registry.currentVersion →
        (c.connectToNumaServer tid env).2.shared.regions v = c.shared.regions v) ∧
      (¬ c.Connects env → (c.connectToNumaServer tid env).2.shared.regions = c.shared.regions) := by
    rcases connect_shared c tid env with ⟨-, hreg, -⟩ | ⟨hc, hreg, -⟩
    · exact ⟨fun v _ => by rw [hreg], fun _ => hreg⟩
    · refine ⟨fun v hv => ?_, fun hno => absurd hc hno⟩
      rw [hreg]
      exact Shared.setRegion_of_ne _ _ hv
  refine ⟨hver, ?_, fun v hv => hregions.1 v (Nat.ne_of_gt hv), fun hno => by rw [hregions.2 hno]⟩
  · rw [ClientView.bounded_iff, hver]
    exact (ClientView.bounded_iff.mp h).connect (le_refl _) tid env

end ClientStep

/-! ## The invariant of a world -/

/-- The region that is being filled equals the old one on what has been copied, until the version is stored. -/
structure CopyInv (s : Server) (phase : CopyPhase) (plan : CopyPlan) : Prop where
  newVer : plan.oldVer < plan.newVer
  srvRegion : s.srvRegion = plan.oldVer
  currentVersion : s.registry.currentVersion = if phase.stored then plan.newVer else plan.oldVer
  packed : phase.inWindow = true → ∀ i, i < plan.oldDataEntries →
    (s.shared.regions plan.newVer).packed i = (s.shared.regions plan.oldVer).packed i
  buckets : phase.bucketsDone = true → ∀ b, b < plan.copiedBuckets →
    (s.shared.regions plan.newVer).buckets b = (s.shared.regions plan.oldVer).buckets b

structure WorldInv (w : World) : Prop where
  bounded : ∀ tid, (w.view tid).Bounded
  idle : w.copy = none → w.server.srvRegion = w.server.registry.currentVersion
  copying : ∀ phase plan, w.copy = some (phase, plan) → CopyInv w.server phase plan

namespace CopyPhase

theorem inWindow_not_stored {phase : CopyPhase} (h : phase.inWindow = true) : phase.stored = false := by
  cases phase <;> first | rfl | cases h

theorem bucketsDone_inWindow {phase : CopyPhase} (h : phase.bucketsDone = true) : phase.inWindow = true := by
  cases phase <;> first | rfl | cases h

end CopyPhase

section WorldSteps

variable {H : HashFn} {w w' : World}

/-- A client's step keeps what has been copied, when it is harmless in the window. -/
theorem CopyInv.client {c c' : ClientView} {harmless : Prop} {s : Server} {phase : CopyPhase} {plan : CopyPlan}
    (h : CopyInv s phase plan) (hs : c.shared = s.shared) (he : ClientEffect c c' harmless)
    (hq : phase.inWindow = true → harmless) : CopyInv { s with shared := c'.shared } phase plan := by
  have hver : c'.shared.registry.currentVersion = s.registry.currentVersion := by
    rw [he.currentVersion, hs]
    rfl
  -- in the window the old region is the current one and the new one lies past it
  have hold : phase.inWindow = true → c'.shared.regions plan.newVer = s.shared.regions plan.newVer ∧
      c'.shared.regions plan.oldVer = s.shared.regions plan.oldVer := by
    intro hw
    have hcur : c.shared.registry.currentVersion = plan.oldVer := by
      rw [hs]
      have := h.currentVersion
      rw [CopyPhase.inWindow_not_stored hw] at this
      exact this
    have hnew := he.newer plan.newVer (by rw [hcur]; exact h.newVer)
    have hcurrent := he.current (hq hw)
    rw [hcur] at hcurrent
    rw [hs] at hnew hcurrent
    exact ⟨hnew, hcurrent⟩
  refine ⟨h.newVer, h.srvRegion, hver.trans h.currentVersion, fun hw i hi => ?_, fun hb b hlt => ?_⟩
  · show (c'.shared.regions plan.newVer).packed i = (c'.shared.regions plan.oldVer).packed i
    rw [(hold hw).1, (hold hw).2]
    exact h.packed hw i hi
  · show (c'.shared.regions plan.newVer).buckets b = (c'.shared.regions plan.oldVer).buckets b
    have hw := CopyPhase.bucketsDone_inWindow hb
    rw [(hold hw).1, (hold hw).2]
    exact h.buckets hb b hlt

/-- A client's step keeps the invariant. -/
theorem WorldInv.putView {tid : Nat} {c' : ClientView} {harmless : Prop} (h : WorldInv w)
    (he : ClientEffect (w.view tid) c' harmless)
    (hq : ∀ phase plan, w.copy = some (phase, plan) → phase.inWindow = true → harmless) :
    WorldInv (w.putView tid c') := by
  have hver : c'.shared.registry.currentVersion = w.server.registry.currentVersion := he.currentVersion
  have hall : ∀ t, (w.view t).AllWrappers (fun wr => wr.ver ≤ w.server.registry.currentVersion) :=
    fun t => ClientView.bounded_iff.mp (h.bounded t)
  refine ⟨fun t => ClientView.bounded_iff.mpr ?_, fun hc => ?_, fun phase plan hc => ?_⟩
  · have hc' := ClientView.bounded_iff.mp he.bounded
    rw [hver] at hc'
    show ((w.putView tid c').view t).AllWrappers (fun wr => wr.ver ≤ c'.shared.registry.currentVersion)
    rw [hver]
    exact World.allWrappers_putView hall hc' t
  · exact (h.idle hc).trans hver.symm
  · exact (h.copying phase plan hc).client rfl he (hq phase plan hc)

/-- The views stay bounded when only the orchestrator moved and the version did not go back. -/
theorem WorldInv.bounded_of_le (h : WorldInv w) {s : Server} {cp : Option (CopyPhase × CopyPlan)}
    (hle : w.server.registry.currentVersion ≤ s.registry.currentVersion) (tid : Nat) :
    (World.view { w with server := s, copy := cp } tid).Bounded :=
  ⟨fun wr hwr => ((h.bounded tid).own wr hwr).trans hle, fun r hr => ((h.bounded tid).remote r hr).trans hle⟩

/-- A step of the orchestrator outside a copy. -/
theorem WorldInv.orchestrate_idle (h : WorldInv w) {inp : TickInput} (hc : w.copy = none)
    (hok : w.orchestrate H inp = .ok w') : WorldInv w' := by
  have hsrv := h.idle hc
  unfold World.orchestrate at hok
  rw [hc] at hok
  simp only at hok
  split at hok
  · cases hok
    by_cases hcr : inp.create = .created
    · simp only [hcr, if_true]
      refine ⟨h.bounded_of_le (le_refl _), fun hn => (by cases hn), fun phase plan hp => ?_⟩
      obtain ⟨rfl, rfl⟩ := Prod.mk.inj (Option.some.inj hp)
      exact ⟨lt_nextVersion _, hsrv, rfl, fun hw => (by cases hw), fun hb => (by cases hb)⟩
    · have hquiet := quiet_enterCopying_failed w.server hcr
        (w.server.registry.copyPlan w.server.registry.currentVersion)
      simp only [if_neg hcr]
      refine ⟨h.bounded_of_le (le_of_eq hquiet.currentVersion.symm), fun _ => ?_, fun phase plan hp => (by cases hp)⟩
      exact hquiet.srvRegion.trans (hsrv.trans hquiet.currentVersion.symm)
  · cases hs : w.server.checkState H inp with
    | error e => rw [hs] at hok; cases hok
    | ok s =>
        rw [hs, Exec.ok_bind] at hok
        cases hok
        rcases checkState_cases hs with hquiet | ⟨-, rfl⟩
        · refine ⟨h.bounded_of_le (le_of_eq hquiet.currentVersion.symm), fun _ => ?_, fun phase plan hp => (by cases hp)⟩
          exact hquiet.srvRegion.trans (hsrv.trans hquiet.currentVersion.symm)
        · exact ⟨h.bounded_of_le (le_of_lt (lt_nextVersion _)), fun _ => rfl, fun phase plan hp => (by cases hp)⟩

/-- A step of a copy. -/
theorem WorldInv.orchestrate_copying (h : WorldInv w) {inp : TickInput} {phase : CopyPhase} {plan : CopyPlan}
    (hc : w.copy = some (phase, plan)) (hok : w.orchestrate H inp = .ok w') : WorldInv w' := by
  have hinv := h.copying phase plan hc
  have hlt := hinv.newVer
  have hne : plan.oldVer ≠ plan.newVer := Nat.ne_of_lt hlt
  have hver := hinv.currentVersion
  unfold World.orchestrate at hok
  rw [hc] at hok
  cases phase with
  | created =>
      cases hok
      refine ⟨h.bounded_of_le (le_refl _), fun hn => (by cases hn), fun ph pl hp => ?_⟩
      obtain ⟨rfl, rfl⟩ := Prod.mk.inj (Option.some.inj hp)
      refine ⟨hlt, hinv.srvRegion, hver, fun _ i hi => ?_, fun hb => (by cases hb)⟩
      show ((w.server.copyPacked plan).shared.regions plan.newVer).packed i
        = ((w.server.copyPacked plan).shared.regions plan.oldVer).packed i
      rw [copyPacked_regions, Function.update_self, Function.update_of_ne hne, hinv.srvRegion]
      exact if_pos hi
  | packedCopied =>
      cases hok
      refine ⟨h.bounded_of_le (le_refl _), fun hn => (by cases hn), fun ph pl hp => ?_⟩
      obtain ⟨rfl, rfl⟩ := Prod.mk.inj (Option.some.inj hp)
      refine ⟨hlt, hinv.srvRegion, hver, fun _ i hi => ?_, fun _ b hb => ?_⟩
      · show ((w.server.copyBuckets plan).shared.regions plan.newVer).packed i
          = ((w.server.copyBuckets plan).shared.regions plan.oldVer).packed i
        rw [copyBuckets_regions, Function.update_self, Function.update_of_ne hne]
        exact hinv.packed rfl i hi
      · show ((w.server.copyBuckets plan).shared.regions plan.newVer).buckets b
          = ((w.server.copyBuckets plan).shared.regions plan.oldVer).buckets b
        rw [copyBuckets_regions, Function.update_self, Function.update_of_ne hne, hinv.srvRegion]
        exact if_pos hb
  | bucketsCopied =>
      cases hok
      refine ⟨h.bounded_of_le (le_refl _), fun hn => (by cases hn), fun ph pl hp => ?_⟩
      obtain ⟨rfl, rfl⟩ := Prod.mk.inj (Option.some.inj hp)
      exact ⟨hlt, hinv.srvRegion, hver, fun _ => hinv.packed rfl, fun _ => hinv.buckets rfl⟩
  | epochFilled =>
      cases hok
      refine ⟨h.bounded_of_le (le_refl _), fun hn => (by cases hn), fun ph pl hp => ?_⟩
      obtain ⟨rfl, rfl⟩ := Prod.mk.inj (Option.some.inj hp)
      exact ⟨hlt, hinv.srvRegion, hver, fun _ => hinv.packed rfl, fun _ => hinv.buckets rfl⟩
  | lanesReset =>
      cases hok
      refine ⟨h.bounded_of_le (le_of_eq_of_le hver (le_of_lt hlt)), fun hn => (by cases hn), fun ph pl hp => ?_⟩
      obtain ⟨rfl, rfl⟩ := Prod.mk.inj (Option.some.inj hp)
      exact ⟨hlt, hinv.srvRegion, rfl, fun hw => (by cases hw), fun hb => (by cases hb)⟩
  | versionStored =>
      cases hok
      refine ⟨h.bounded_of_le (le_refl _), fun hn => (by cases hn), fun ph pl hp => ?_⟩
      obtain ⟨rfl, rfl⟩ := Prod.mk.inj (Option.some.inj hp)
      exact ⟨hlt, hinv.srvRegion, hver, fun hw => (by cases hw), fun hb => (by cases hb)⟩
  | generationBumped =>
      cases hok
      exact ⟨h.bounded_of_le (le_refl _), fun _ => hver.symm, fun ph pl hp => (by cases hp)⟩

/-- Every step that meets the condition keeps the invariant. -/
theorem WorldInv.step {a : WorldStep} (h : WorldInv w) (hq : QuietWindow H w a) (hok : w.step H a = .ok w') :
    WorldInv w' := by
  cases a with
  | connect tid env =>
      cases hok
      exact h.putView (connect_spec (h.bounded tid) tid env) hq
  | client tid env op =>
      change w.clientStep H tid env op = .ok w' at hok
      unfold World.clientStep at hok
      cases hc : (w.view tid).step H tid env op with
      | error e => rw [hc] at hok; cases hok
      | ok c =>
          rw [hc] at hok
          cases hok
          exact h.putView (clientStep_spec (h.bounded tid) hc) hq
  | orchestrator inp =>
      cases hc : w.copy with
      | none => exact h.orchestrate_idle hc hok
      | some p =>
          obtain ⟨phase, plan⟩ := p
          exact h.orchestrate_copying hc hok

theorem worldInv_start (st : Store) (sSlow sStop : Nat) (lookup : Nat → DataPlaneLudo) (proc lane : Nat → Nat) :
    WorldInv ((st.server sSlow sStop).world lookup proc lane) :=
  ⟨fun _ => ⟨fun _ h => (by cases h), fun _ h => (by cases h)⟩, fun _ => rfl, fun _ _ h => (by cases h)⟩

end WorldSteps

/-! ## No write is lost -/

/-- The region `plan` is about to publish holds what the old one holds, on the copied range. -/
def CopyExact (s : Server) (plan : CopyPlan) : Prop :=
  (∀ i, i < plan.oldDataEntries →
    (s.shared.regions plan.newVer).packed i = (s.shared.regions plan.oldVer).packed i) ∧
  (∀ b, b < plan.copiedBuckets →
    (s.shared.regions plan.newVer).buckets b = (s.shared.regions plan.oldVer).buckets b)

/-- **No write is lost when none falls into the window.** From any published store, in every interleaving of any number
    of connecting, reading and writing clients with the orchestrator whose steps all meet `QuietWindow`: whenever a
    step stores `current_version`, the new region equals the old one on the copied range at that moment. -/
theorem published_copy_exact {H : HashFn} {st : Store} {sSlow sStop : Nat} {lookup : Nat → DataPlaneLudo}
    {proc lane : Nat → Nat} {w w' : World} {plan : CopyPlan} (inp : TickInput)
    (hrun : Lib.Reaches (World.step H) (QuietWindow H) ((st.server sSlow sStop).world lookup proc lane) w)
    (hc : w.copy = some (.lanesReset, plan)) (hok : w.step H (.orchestrator inp) = .ok w') :
    w'.server.registry.currentVersion = plan.newVer ∧ CopyExact w'.server plan := by
  have hinv : WorldInv w := hrun.invariant (worldInv_start ..) (fun _ _ _ h hq hstep => h.step hq hstep)
  have hcopy := hinv.copying _ _ hc
  change w.orchestrate H inp = .ok w' at hok
  unfold World.orchestrate at hok
  rw [hc] at hok
  cases hok
  exact ⟨rfl, hcopy.packed rfl, hcopy.buckets rfl⟩

/-- One process with one thread over the one-key store, both thresholds at `1`. -/
def raceWorld : World :=
  ((rowStore 423 0 [7]).server 1 1).world (fun _ => (rowStore 423 0 [7]).lookup) (fun _ => 0) (fun _ => 0)

/-- The constructor's local happens to hold the one entry the store has. -/
def raceEnv : OpEnv := ⟨true, true, ⟨7, 8, 0⟩, 1⟩

/-- The client connects, updates key 7 and, while the region is being copied, reads it. -/
theorem published_copy_exact_seven : ∃ (w w' : World) (plan : CopyPlan),
    Lib.Reaches (World.step fastHasher64) (QuietWindow fastHasher64) raceWorld w ∧
    w.copy = some (.lanesReset, plan) ∧
    w.step fastHasher64 (.orchestrator calmTick) = .ok w' ∧ CopyExact w'.server plan ∧
    (w'.server.shared.regions 2).packed 0 = ⟨7, 64, 5⟩ := by
  have hidle : ∀ {w : World} {P : CopyPhase → CopyPlan → Prop}, w.copy = none →
      ∀ phase plan, w.copy = some (phase, plan) → phase.inWindow = true → P phase plan := by
    intro w P h phase plan h'
    rw [h] at h'
    cases h'
  have h₂ : Lib.Reaches (World.step fastHasher64) (QuietWindow fastHasher64) raceWorld _ :=
    (Lib.Reaches.snoc .refl (a := .connect 0 raceEnv) (hidle rfl) rfl).snoc
      (a := .client 0 raceEnv (.write (.update 7 5))) (hidle rfl) rfl
  have h₄ := ((h₂.snoc (a := .orchestrator calmTick) trivial rfl).snoc (a := .orchestrator calmTick) trivial rfl).snoc
    (a := .orchestrator calmTick) trivial rfl
  have h₅ := h₄.snoc (a := .client 0 raceEnv (.search 7)) (fun _ _ _ _ h => absurd rfl h.2.2.1) rfl
  have h₈ := ((h₅.snoc (a := .orchestrator calmTick) trivial rfl).snoc (a := .orchestrator calmTick) trivial rfl).snoc
    (a := .orchestrator calmTick) trivial rfl
  exact ⟨_, _, _, h₈, rfl, rfl, (published_copy_exact calmTick h₈ rfl rfl).2, rfl⟩

/-- The client updates key 7 after the packed array has been copied: the update returns, and the region that is then
    published still has the old value. -/
theorem write_lost_in_window : ∃ w w', (do
      let w ← raceWorld.step fastHasher64 (.connect 0 raceEnv)
      let w ← w.step fastHasher64 (.orchestrator calmTick)
      let w ← w.step fastHasher64 (.orchestrator calmTick)
      let w ← w.step fastHasher64 (.orchestrator calmTick)
      let w ← w.step fastHasher64 (.client 0 raceEnv (.write (.update 7 5)))
      let w ← w.step fastHasher64 (.orchestrator calmTick)
      let w ← w.step fastHasher64 (.orchestrator calmTick)
      w.step fastHasher64 (.orchestrator calmTick)) = .ok w ∧
    w.step fastHasher64 (.orchestrator calmTick) = .ok w' ∧
    w.server.registry.currentVersion = 1 ∧ w'.server.registry.currentVersion = 2 ∧
    (w'.server.shared.regions 1).packed 0 = ⟨7, 64, 5⟩ ∧ (w'.server.shared.regions 2).packed 0 = ⟨7, 8, 0⟩ :=
  ⟨_, _, rfl, rfl, rfl, rfl, rfl, rfl⟩

end Outback
