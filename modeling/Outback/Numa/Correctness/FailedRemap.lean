import Outback.Numa.Correctness.InsideRegion
import Outback.Numa.Correctness.ResizeRace

/-!
# `Numa.Correctness.FailedRemap` — a remap that gives up

`remap_to_current_epoch` unmaps the old region and deletes the thread's wrappers before it knows that the new region opens.
When it does not, the lock array still points into the old region, and the wrappers fall back to the process globals, which
may be the ones just deleted. **`failed_remap_usable`**: a failing remap leaves the client as it was exactly when it has
nothing to release; and as long as no step of a run makes a failing remap release something, or leaves a thread without a
mapping to deleted globals, what the data operations select is live and lies in one region that the process has mapped.
`failed_remap_dangles` is the client that loses its region.

A process that shares its address space with the server is not modelled, and neither is what a second `munmap` of the same
range would hit.
-/

namespace Outback

/-! ## The call -/

namespace ClientView

/-- The release in `remap_to_current_epoch` is reached, and it finds something: the mapping, the wrappers, or the globals
    that alias them. -/
def Releases (c : ClientView) (tid : Nat) : Prop :=
  c.process.registryMapped = true ∧ c.shared.registry.currentEpoch.published = true ∧
    ∃ m, c.region.mapping = some m ∧ (m.live = true ∨ c.region.wrappers ≠ none ∨
      ∃ r, c.process.remote = some r ∧ r.owner = tid ∧ r.live = true)

/-- The version check remaps, and the remap fails. -/
def FailsToRemap (c : ClientView) (env : OpEnv) : Prop :=
  c.process.registryMapped = true ∧ c.shared.registry.generation ≠ c.region.localGeneration ∧
    c.shared.registry.currentVersion ≠ c.region.localVersion ∧ ¬ c.shared.RemapOpens env

/-- The globals of the process, if any, have not been deleted. -/
def GlobalsLive (c : ClientView) : Prop := c.process.remote.all (·.live) = true

instance (c : ClientView) (env : OpEnv) : Decidable (c.FailsToRemap env) :=
  inferInstanceAs (Decidable (_ ∧ _ ∧ _ ∧ ¬ _))

instance (c : ClientView) : Decidable c.GlobalsLive := inferInstanceAs (Decidable (_ = _))

instance (c : ClientView) (env : OpEnv) : Decidable (c.Connects env) := inferInstanceAs (Decidable (_ ∧ _ ∧ _))

end ClientView

section Call

variable {c : ClientView} {tid : Nat} {env : OpEnv}

/-- Unmapping finds nothing to do. -/
theorem unmapOld_eq_self_iff : c.unmapOld tid = c ↔ ∀ m, c.region.mapping = some m →
    m.live = false ∧ c.region.wrappers = none ∧ ∀ r, c.process.remote = some r → r.owner = tid → r.live = false := by
  unfold ClientView.unmapOld
  cases hmap : c.region.mapping with
  | none => exact iff_of_true rfl fun m hm => nomatch hm
  | some m =>
      constructor
      · rintro h m' ⟨rfl⟩
        have hmapping := congrArg (fun d => d.region.mapping) h
        have hwrappers := congrArg (fun d => d.region.wrappers) h
        have hremote := congrArg (fun d => d.process.remote) h
        simp only [hmap] at hmapping hwrappers hremote
        refine ⟨?_, hwrappers.symm, fun r hr howner => ?_⟩
        · exact (congrArg Mapping.live (Option.some.inj hmapping)).symm
        · rw [hr, Option.map_some, if_pos howner] at hremote
          exact (congrArg Remote.live (Option.some.inj hremote)).symm
      · intro h
        obtain ⟨hlive, hwrappers, hremote⟩ := h m rfl
        have hprocess : (c.process.remote.map fun r => if r.owner = tid then { r with live := false } else r)
            = c.process.remote := by
          cases hr : c.process.remote with
          | none => rfl
          | some r =>
              rw [Option.map_some]
              split
              · rename_i howner
                rw [← hremote r hr howner]
              · rfl
        have hmapping : (⟨m.ver, false⟩ : Mapping) = m := by rw [← hlive]
        show ClientView.mk _ _ _ = c
        rw [hprocess, hmapping, ← hmap, ← hwrappers]

/-- A remap that fails has stopped before the release, or behind it. -/
theorem remap_failed (h : (c.remapToCurrentEpoch tid env).1 = false) :
    (c.process.registryMapped = false ∨ c.shared.registry.currentEpoch.published = false) ∧
      (c.remapToCurrentEpoch tid env).2 = c ∨
    (c.process.registryMapped = true ∧ c.shared.registry.currentEpoch.published = true) ∧
      (c.remapToCurrentEpoch tid env).2 = c.unmapOld tid := by
  unfold ClientView.remapToCurrentEpoch at h ⊢
  by_cases hm : c.process.registryMapped = false
  · simp only [if_pos hm]
    exact Or.inl ⟨Or.inl hm, trivial⟩
  by_cases hp : c.shared.registry.currentEpoch.published = false
  · simp only [if_neg hm, if_pos hp]
    exact Or.inl ⟨Or.inr hp, trivial⟩
  simp only [if_neg hm, if_neg hp] at h ⊢
  right
  refine ⟨⟨Bool.eq_true_of_not_eq_false hm, Bool.eq_true_of_not_eq_false hp⟩, ?_⟩
  split
  · rfl
  · rename_i hopen
    rw [if_neg hopen] at h
    cases h

/-- A failing remap leaves the client as it was exactly when it releases nothing. -/
theorem remap_failed_iff (h : (c.remapToCurrentEpoch tid env).1 = false) :
    (c.remapToCurrentEpoch tid env).2 = c ↔ ¬ c.Releases tid := by
  unfold ClientView.Releases
  obtain ⟨hstop, heq⟩ | ⟨⟨hm, hp⟩, heq⟩ := remap_failed h
  · refine iff_of_true heq ?_
    rintro ⟨hm, hp, -⟩
    obtain hno | hno := hstop
    · exact absurd (hno.symm.trans hm) Bool.false_ne_true
    · exact absurd (hno.symm.trans hp) Bool.false_ne_true
  · rw [heq, unmapOld_eq_self_iff]
    constructor
    · rintro hnone ⟨-, -, m, hmap, hsome⟩
      obtain ⟨hlive, hwrappers, hremote⟩ := hnone m hmap
      obtain hl | hw | ⟨r, hr, howner, hl⟩ := hsome
      · exact absurd (hlive.symm.trans hl) Bool.false_ne_true
      · exact hw hwrappers
      · exact absurd ((hremote r hr howner).symm.trans hl) Bool.false_ne_true
    · intro hnone m hmap
      have hnone := fun hsome => hnone ⟨hm, hp, m, hmap, hsome⟩
      refine ⟨?_, ?_, fun r hr howner => ?_⟩
      · exact Bool.eq_false_of_not_eq_true fun hl => hnone (Or.inl hl)
      · exact not_not.mp fun hw => hnone (Or.inr (Or.inl hw))
      · exact Bool.eq_false_of_not_eq_true fun hl => hnone (Or.inr (Or.inr ⟨r, hr, howner, hl⟩))

/-- What the version check comes down to. -/
theorem maybeCheckVersion_cases (c : ClientView) (tid : Nat) (env : OpEnv) :
    ((c.process.registryMapped = false ∨ c.shared.registry.generation = c.region.localGeneration) ∧
      c.maybeCheckVersion tid env = c) ∨
    (c.FailsToRemap env ∧ (c.remapToCurrentEpoch tid env).1 = false ∧
      c.maybeCheckVersion tid env = (c.remapToCurrentEpoch tid env).2) ∨
    (c.Remaps env ∧ c.maybeCheckVersion tid env = (c.unmapOld tid).attach c.shared.registry.currentVersion env) ∨
    (c.shared.registry.currentVersion = c.region.localVersion ∧ c.maybeCheckVersion tid env = { c with
      shared := c.shared.withRegistry (c.shared.registry.heartbeat c.region.clientSlot env.now)
      region := { c.region with localGeneration := c.shared.registry.generation } }) := by
  unfold ClientView.maybeCheckVersion
  by_cases hm : c.process.registryMapped = false
  · exact Or.inl ⟨Or.inl hm, if_pos hm⟩
  by_cases hgen : c.shared.registry.generation = c.region.localGeneration
  · exact Or.inl ⟨Or.inr hgen, by simp only [if_neg hm, if_pos hgen]⟩
  by_cases hver : c.shared.registry.currentVersion = c.region.localVersion
  · exact Or.inr (Or.inr (Or.inr ⟨hver, by simp only [if_neg hm, if_neg hgen, if_neg (not_not.mpr hver)]⟩))
  simp only [if_neg hm, if_neg hgen, if_pos hver]
  have hm' : c.process.registryMapped = true := Bool.eq_true_of_not_eq_false hm
  by_cases hopens : c.shared.RemapOpens env
  · refine Or.inr (Or.inr (Or.inl ⟨⟨hm', hgen, hver, hopens⟩, ?_⟩))
    obtain ⟨hstop | hstop, -⟩ | ⟨-, heq⟩ := remap_shared c tid env
    · exact absurd hstop hm
    · exact absurd hopens hstop
    · exact heq
  · refine Or.inr (Or.inl ⟨⟨hm', hgen, hver, hopens⟩, ?_, trivial⟩)
    unfold ClientView.remapToCurrentEpoch
    simp only [if_neg hm]
    by_cases hp : c.shared.registry.currentEpoch.published = false
    · simp only [if_pos hp]
    · have hopen : (c.unmapOld tid).shared.openRegion c.shared.registry.currentVersion env.opensRegion = false := by
        rw [unmapOld_shared]
        exact Bool.eq_false_of_not_eq_true fun ho => hopens ⟨Bool.eq_true_of_not_eq_false hp, ho⟩
      simp only [if_neg hp, if_pos hopen]

end Call

/-! ## What a thread keeps -/

/-- `t_region` as it was at the start, its client slot apart. -/
structure ClientRegionState.Unattached (r : ClientRegionState) : Prop where
  mapping : r.mapping = none
  wrappers : r.wrappers = none
  lockArray : r.lockArray = none
  localVersion : r.localVersion = 0
  localGeneration : r.localGeneration = 0

/-- `t_region` after an attach: the wrappers and the lock array lie in the region it has mapped. -/
structure ClientRegionState.Attached (r : ClientRegionState) (wr : Wrappers) : Prop where
  mapping : r.mapping = some ⟨wr.ver, true⟩
  wrappers : r.wrappers = some wr
  lockArray : r.lockArray = some wr.ver

/-- The threads' `t_region`s when thread `tid` leaves its own as `r`. -/
def World.regionsWith (w : World) (tid : Nat) (r : ClientRegionState) : Nat → ClientRegionState :=
  Function.update (fun t => (w.threads t).region) tid r

/-- What thread `tid` may leave behind: globals that are live alias the wrappers of a thread of the process that has them
    mapped; globals that were deleted are not reached any more, because the generation has moved. -/
structure World.LeavesUsable (w : World) (tid : Nat) (c : ClientView) : Prop where
  version : 0 < c.shared.registry.currentVersion
  thread : c.region.Unattached ∨ ∃ wr, c.region.Attached wr
  generation : c.region.localGeneration ≤ c.shared.registry.generation
  live : ∀ r, c.process.remote = some r → r.live = true → (w.threads r.owner).proc = (w.threads tid).proc ∧
    (w.regionsWith tid c.region r.owner).mapping = some ⟨r.wrappers.ver, true⟩
  dead : ∀ r, c.process.remote = some r → r.live = false →
    0 < c.shared.registry.generation ∧ c.process.registryMapped = true

namespace World.LeavesUsable

variable {w : World} {tid : Nat} {c : ClientView} {env : OpEnv}

/-- The registry may advance. -/
theorem advance {w' : World} {d : ClientView} (h : w.LeavesUsable tid c) (hthreads : w'.threads = w.threads)
    (hver : 0 < d.shared.registry.currentVersion)
    (hgen : c.shared.registry.generation ≤ d.shared.registry.generation)
    (hregion : d.region = c.region) (hremote : d.process.remote = c.process.remote)
    (hmapped : d.process.registryMapped = c.process.registryMapped) : w'.LeavesUsable tid d := by
  refine ⟨hver, by rw [hregion]; exact h.thread, by rw [hregion]; exact h.generation.trans hgen, ?_, ?_⟩
  · unfold World.regionsWith
    rw [hregion, hremote, hthreads]
    exact h.live
  · rw [hremote, hmapped]
    intro r hr hdead
    obtain ⟨hpos, hm⟩ := h.dead r hr hdead
    exact ⟨hpos.trans_le hgen, hm⟩

/-- Another value of fields that no mapping depends on. -/
theorem withRegion {r : ClientRegionState} (h : w.LeavesUsable tid c) (hmapping : r.mapping = c.region.mapping)
    (hthread : r.Unattached ∨ ∃ wr, r.Attached wr) (hgen : r.localGeneration ≤ c.shared.registry.generation) :
    w.LeavesUsable tid { c with region := r } := by
  refine ⟨h.version, hthread, hgen, fun rem hrem hlive => ?_, h.dead⟩
  obtain ⟨hproc, howner⟩ := h.live rem hrem hlive
  refine ⟨hproc, ?_⟩
  unfold World.regionsWith at howner ⊢
  by_cases ht : rem.owner = tid
  · rw [ht, Function.update_self] at howner ⊢
    exact hmapping.trans howner
  · rw [Function.update_of_ne ht] at howner ⊢
    exact howner

/-- Another client slot. -/
theorem withSlot (h : w.LeavesUsable tid c) (slot : Option Nat) :
    w.LeavesUsable tid { c with region := { c.region with clientSlot := slot } } := by
  refine h.withRegion rfl ?_ h.generation
  obtain hfresh | ⟨wr, hatt⟩ := h.thread
  · exact Or.inl ⟨hfresh.mapping, hfresh.wrappers, hfresh.lockArray, hfresh.localVersion, hfresh.localGeneration⟩
  · exact Or.inr ⟨wr, hatt.mapping, hatt.wrappers, hatt.lockArray⟩

/-- Attaching, whatever the thread had mapped. -/
theorem attach (h : w.LeavesUsable tid c) (hpos : 0 < c.shared.registry.generation)
    (hmapped : c.process.registryMapped = true) (env : OpEnv) :
    w.LeavesUsable tid ((c.unmapOld tid).attach c.shared.registry.currentVersion env) := by
  have hkeep := attach_data (c.unmapOld tid) c.shared.registry.currentVersion env
  rw [unmapOld_shared] at hkeep
  -- globals that the thread owned were deleted with its wrappers
  have hremote : ∀ r, (c.unmapOld tid).process.remote = some r → r.live = true →
      c.process.remote = some r ∧ r.owner ≠ tid := by
    intro r hr hlive
    unfold ClientView.unmapOld at hr
    cases hmap : c.region.mapping with
    | none =>
        rw [hmap] at hr
        refine ⟨hr, fun howner => ?_⟩
        have hmapping := (h.live r hr hlive).2
        unfold World.regionsWith at hmapping
        rw [howner, Function.update_self, hmap] at hmapping
        cases hmapping
    | some m =>
        rw [hmap] at hr
        obtain ⟨r₀, hr₀, heq⟩ := Option.map_eq_some_iff.mp hr
        by_cases howner : r₀.owner = tid
        · rw [if_pos howner] at heq
          rw [← heq] at hlive
          cases hlive
        · rw [if_neg howner] at heq
          rw [← heq]
          exact ⟨hr₀, howner⟩
  have hkept : (c.unmapOld tid).process.registryMapped = c.process.registryMapped := by
    unfold ClientView.unmapOld
    split <;> rfl
  refine ⟨?_, Or.inr ⟨_, rfl, rfl, rfl⟩, ?_, fun r hr hlive => ?_, fun r hr hdead => ?_⟩
  · rw [hkeep.registry.currentVersion]
    exact h.version
  · rw [hkeep.registry.generation]
    show (c.unmapOld tid).shared.registry.generation ≤ _
    rw [unmapOld_shared]
  · obtain ⟨hr₀, howner⟩ := hremote r hr hlive
    obtain ⟨hproc, hmapping⟩ := h.live r hr₀ hlive
    refine ⟨hproc, ?_⟩
    unfold World.regionsWith at hmapping ⊢
    rw [Function.update_of_ne howner] at hmapping ⊢
    exact hmapping
  · rw [hkeep.registry.generation]
    exact ⟨hpos, hkept.trans hmapped⟩

/-- A version check whose remap, if it fails, releases nothing. -/
theorem maybeCheckVersion (h : w.LeavesUsable tid c)
    (hsafe : c.FailsToRemap env → c.maybeCheckVersion tid env = c) :
    w.LeavesUsable tid (c.maybeCheckVersion tid env) := by
  obtain ⟨-, heq⟩ | ⟨hfails, -, -⟩ | ⟨⟨hm, hgen, -, -⟩, heq⟩ | ⟨hver, heq⟩ := maybeCheckVersion_cases c tid env
  · rw [heq]
    exact h
  · rw [hsafe hfails]
    exact h
  · rw [heq]
    have hle := h.generation
    exact h.attach (by omega) hm env
  · rw [heq]
    have hsame := SharedNumaRegistry.sameData_heartbeat c.shared.registry c.region.clientSlot env.now
    have hbeat : w.LeavesUsable tid
        { c with shared := c.shared.withRegistry (c.shared.registry.heartbeat c.region.clientSlot env.now) } :=
      h.advance rfl (h.version.trans_eq hsame.currentVersion.symm) (le_of_eq hsame.generation.symm) rfl rfl rfl
    refine hbeat.withRegion rfl ?_ (le_of_eq hsame.generation.symm)
    obtain hfresh | ⟨wr, hatt⟩ := h.thread
    · -- a thread without a region is never on the current version
      have hpos := h.version
      rw [hver, hfresh.localVersion] at hpos
      cases hpos
    · exact Or.inr ⟨wr, hatt.mapping, hatt.wrappers, hatt.lockArray⟩

/-- A connect that, if it fails, leaves no deleted globals behind. -/
theorem connect (h : w.LeavesUsable tid c) (hsafe : env.opensRegistry = true → ¬ c.Connects env → c.GlobalsLive) :
    w.LeavesUsable tid (c.connectToNumaServer tid env).2 := by
  have hkeep := connect_data c tid env
  have hver : 0 < (c.connectToNumaServer tid env).2.shared.registry.currentVersion :=
    h.version.trans_eq hkeep.registry.currentVersion.symm
  have hgen : (c.connectToNumaServer tid env).2.shared.registry.generation = c.shared.registry.generation :=
    hkeep.registry.generation
  have halive : env.opensRegistry = true → ¬ c.Connects env → ∀ r, c.process.remote = some r → r.live ≠ false := by
    intro hopens hno r hr hdead
    have hall := hsafe hopens hno
    unfold ClientView.GlobalsLive at hall
    rw [hr, Option.all_some, hdead] at hall
    cases hall
  revert hver hgen
  unfold ClientView.connectToNumaServer
  by_cases hopens : env.opensRegistry = false
  · simp only [if_pos hopens]
    exact fun _ _ => h
  have hopens' : env.opensRegistry = true := Bool.eq_true_of_not_eq_false hopens
  by_cases hready : c.shared.RegistryReady
  · by_cases hopen : c.shared.openRegion c.shared.registry.currentVersion env.opensRegion = false
    · -- the client slot that was taken stays with the thread
      have hopen' : (c.shared.withRegistry c.shared.registry.registerClient).openRegion c.shared.registry.currentVersion
          env.opensRegion = false := hopen
      simp only [if_neg hopens, if_neg (not_not.mpr hready), if_pos hopen']
      intro hver hgen
      have hno : ¬ c.Connects env := fun hc => absurd (hopen.symm.trans hc.2.2.2) Bool.false_ne_true
      have hslot := h.withSlot (c.shared.registry.freeClientSlot.or c.region.clientSlot)
      refine ⟨hver, hslot.thread, ?_, hslot.live, fun r hr hdead => absurd hdead (halive hopens' hno r hr)⟩
      rw [hgen]
      exact h.generation
    · have hopen' : (c.shared.withRegistry c.shared.registry.registerClient).openRegion c.shared.registry.currentVersion
          env.opensRegion ≠ false := hopen
      simp only [if_neg hopens, if_neg (not_not.mpr hready), if_neg hopen']
      intro hver hgen
      refine ⟨hver, Or.inr ⟨_, rfl, rfl, rfl⟩, ?_, ?_, ?_⟩
      · rw [hgen]
        exact le_of_eq (SharedNumaRegistry.sameData_registerClient c.shared.registry).generation
      · rintro r ⟨rfl⟩ -
        refine ⟨rfl, ?_⟩
        unfold World.regionsWith
        rw [Function.update_self]
        rfl
      · rintro r ⟨rfl⟩ hdead
        cases hdead
  · simp only [if_neg hopens, if_pos hready]
    intro hver hgen
    have hno : ¬ c.Connects env := fun hc => hready hc.2.1
    exact ⟨hver, h.thread, h.generation, h.live, fun r hr hdead => absurd hdead (halive hopens' hno r hr)⟩

end World.LeavesUsable

/-! ## Runs -/

/-- What every reachable world keeps. -/
structure UsableInv (w : World) : Prop where
  threads : ∀ tid, w.LeavesUsable tid (w.view tid)
  copying : ∀ phase plan, w.copy = some (phase, plan) → 0 < plan.newVer

/-- A client's step may fail to remap only where it has nothing mapped and live globals to fall back to, or before the
    release; a connect may fail only beside live globals. -/
def RemapsSafely (w : World) : WorldStep → Prop
  | .connect tid env => env.opensRegistry = true → ¬ (w.view tid).Connects env → (w.view tid).GlobalsLive
  | .client tid env _ => (w.view tid).FailsToRemap env →
      ((w.view tid).shared.registry.currentEpoch.published = true → (w.view tid).region.mapping = none) ∧
      ((w.view tid).region.mapping = none → (w.view tid).GlobalsLive)
  | .orchestrator _ => True

instance (w : World) : ∀ a, Decidable (RemapsSafely w a)
  | .connect _ _ => inferInstanceAs (Decidable (_ → _ → _))
  | .client _ _ _ => inferInstanceAs (Decidable (_ → _))
  | .orchestrator _ => inferInstanceAs (Decidable True)

/-- A thread of process `p` has the region of `ver` mapped. -/
def World.ProcessMaps (w : World) (p ver : Nat) : Prop :=
  ∃ t, (w.threads t).proc = p ∧ (w.threads t).region.mapping = some ⟨ver, true⟩

/-- Thread `tid` is not connected, or the wrappers and the lock array that it selects are live and lie in one region that
    its process has mapped. -/
def World.SelectsMapped (w : World) (tid : Nat) : Prop :=
  (w.view tid).selectWrappers = .ok none ∨
    ∃ wr, (w.view tid).selectWrappers = .ok (some wr) ∧ (w.view tid).selectLock = .ok true ∧
      (w.view tid).lockRegion = some wr.ver ∧ w.ProcessMaps (w.threads tid).proc wr.ver

section Run

variable {H : HashFn} {w w' : World} {tid : Nat} {env : OpEnv}

theorem World.putView_view (w : World) (tid : Nat) (c : ClientView) : (w.putView tid c).view tid = c := by
  unfold World.view
  have hproc : ((w.putView tid c).threads tid).proc = (w.threads tid).proc := by
    simp [World.putView]
  rw [hproc, World.putView_procs_self, World.putView_region_self]
  rfl

theorem World.putView_proc (w : World) (tid t : Nat) (c : ClientView) :
    ((w.putView tid c).threads t).proc = (w.threads t).proc := by
  by_cases ht : t = tid
  · subst ht
    simp [World.putView]
  · rw [World.putView_threads_of_ne _ _ _ ht]

theorem World.putView_region (w : World) (tid t : Nat) (c : ClientView) :
    ((w.putView tid c).threads t).region = w.regionsWith tid c.region t := by
  unfold World.regionsWith
  by_cases ht : t = tid
  · subst ht
    rw [World.putView_region_self, Function.update_self]
  · rw [World.putView_threads_of_ne _ _ _ ht, Function.update_of_ne ht]

/-- A thread's own `t_region` put back. -/
theorem World.regionsWith_self (w : World) (tid t : Nat) :
    w.regionsWith tid (w.threads tid).region t = (w.threads t).region :=
  congrFun (Function.update_eq_self tid fun t => (w.threads t).region) t

/-- The `t_region`s behind a client's step, as any thread sees them. -/
theorem World.putView_regionsWith (w : World) (tid t u : Nat) (c : ClientView) :
    (w.putView tid c).regionsWith t ((w.putView tid c).threads t).region u = w.regionsWith tid c.region u :=
  ((w.putView tid c).regionsWith_self t u).trans (w.putView_region tid u c)

theorem World.putView_process (w : World) (tid t : Nat) (c : ClientView) : ((w.putView tid c).view t).process
    = if (w.threads t).proc = (w.threads tid).proc then c.process else w.procs (w.threads t).proc := by
  show (w.putView tid c).procs ((w.putView tid c).threads t).proc = _
  rw [World.putView_proc]
  split
  · rename_i hp
    rw [hp, World.putView_procs_self]
  · rename_i hp
    rw [World.putView_procs_of_ne _ _ _ hp]

/-- What one thread leaves behind is usable for all. -/
theorem UsableInv.putView (h : UsableInv w) {c : ClientView} (hc : w.LeavesUsable tid c)
    (hgen : w.server.registry.generation ≤ c.shared.registry.generation) : UsableInv (w.putView tid c) := by
  refine ⟨fun t => ?_, h.copying⟩
  have hold := h.threads t
  have hthread : ((w.putView tid c).view t).region = if t = tid then c.region else (w.view t).region := by
    show ((w.putView tid c).threads t).region = _
    rw [World.putView_region]
    unfold World.regionsWith
    rw [Function.update_apply]
    rfl
  refine ⟨hc.version, ?_, ?_, fun r hr hlive => ?_, fun r hr hdead => ?_⟩
  · rw [hthread]
    split
    · exact hc.thread
    · exact hold.thread
  · rw [hthread]
    split
    · exact hc.generation
    · exact hold.generation.trans hgen
  · show _ ∧ ((w.putView tid c).regionsWith t ((w.putView tid c).threads t).region r.owner).mapping = _
    rw [World.putView_regionsWith, World.putView_proc, World.putView_proc]
    rw [World.putView_process] at hr
    by_cases hp : (w.threads t).proc = (w.threads tid).proc
    · rw [if_pos hp] at hr
      rw [hp]
      exact hc.live r hr hlive
    · rw [if_neg hp] at hr
      obtain ⟨hproc, hmapping⟩ := hold.live r hr hlive
      -- the owner is in another process, so it is another thread
      have howner : r.owner ≠ tid := by
        intro heq
        rw [heq] at hproc
        exact hp hproc.symm
      change (w.regionsWith t (w.threads t).region r.owner).mapping = _ at hmapping
      rw [World.regionsWith_self] at hmapping
      refine ⟨hproc, ?_⟩
      unfold World.regionsWith
      rw [Function.update_of_ne howner]
      exact hmapping
  · rw [World.putView_process] at hr ⊢
    by_cases hp : (w.threads t).proc = (w.threads tid).proc
    · rw [if_pos hp] at hr ⊢
      exact hc.dead r hr hdead
    · rw [if_neg hp] at hr ⊢
      obtain ⟨hpos, hm⟩ := hold.dead r hr hdead
      exact ⟨hpos.trans_le hgen, hm⟩

theorem enterCopying_advances (s : Server) (plan : CopyPlan) (create : CreateOutcome) :
    (s.enterCopying plan create).registry.currentVersion = s.registry.currentVersion ∧
      s.registry.generation ≤ (s.enterCopying plan create).registry.generation := by
  cases create with
  | created => exact ⟨rfl, Nat.le_add_right s.registry.generation 1⟩
  | shmOpenFailed | mapFailed => exact ⟨rfl, Nat.le_add_right s.registry.generation 2⟩

/-- A step of the orchestrator moves no version or generation back, and every copy has a version to publish. -/
theorem orchestrate_advances {inp : TickInput} (hver : 0 < w.server.registry.currentVersion)
    (hcopying : ∀ phase plan, w.copy = some (phase, plan) → 0 < plan.newVer) (hok : w.orchestrate H inp = .ok w') :
    w'.threads = w.threads ∧ w'.procs = w.procs ∧ 0 < w'.server.registry.currentVersion ∧
      w.server.registry.generation ≤ w'.server.registry.generation ∧
      ∀ phase plan, w'.copy = some (phase, plan) → 0 < plan.newVer := by
  unfold World.orchestrate at hok
  cases hc : w.copy with
  | none =>
      rw [hc] at hok
      simp only at hok
      split at hok
      · cases hok
        refine ⟨rfl, rfl, ?_, ?_, fun phase plan hp => ?_⟩
        · exact hver.trans_eq (enterCopying_advances w.server _ inp.create).1.symm
        · exact (enterCopying_advances w.server _ inp.create).2
        · simp only at hp
          split at hp
          · obtain ⟨-, rfl⟩ := Prod.mk.inj (Option.some.inj hp)
            exact Nat.zero_lt_of_lt (lt_nextVersion _)
          · cases hp
      · obtain ⟨s, hs, hok⟩ := Lib.bind_eq_ok.mp hok
        cases hok
        have hadvance := checkState_advances hs
        refine ⟨rfl, rfl, hver.trans_le hadvance.version, hadvance.generation, fun phase plan hp => nomatch hp⟩
  | some copy =>
      obtain ⟨phase, plan⟩ := copy
      have hplan := hcopying phase plan hc
      rw [hc] at hok
      cases phase with
      | created | packedCopied | bucketsCopied | epochFilled =>
          cases hok
          refine ⟨rfl, rfl, hver, le_refl _, ?_⟩
          rintro _ _ ⟨rfl⟩
          exact hplan
      | lanesReset =>
          cases hok
          refine ⟨rfl, rfl, hplan, le_refl _, ?_⟩
          rintro _ _ ⟨rfl⟩
          exact hplan
      | versionStored =>
          cases hok
          refine ⟨rfl, rfl, hver, Nat.le_add_right .., ?_⟩
          rintro _ _ ⟨rfl⟩
          exact hplan
      | generationBumped =>
          cases hok
          exact ⟨rfl, rfl, hver, Nat.le_add_right .., fun _ _ hp => nomatch hp⟩

/-- Under the condition, a failing remap changes nothing. -/
theorem maybeCheckVersion_of_safe {op : ClientOp}
    (hsafe : RemapsSafely w (.client tid env op)) (hfails : (w.view tid).FailsToRemap env) :
    (w.view tid).maybeCheckVersion tid env = w.view tid := by
  obtain ⟨hpublished, -⟩ := hsafe hfails
  obtain ⟨hstop, -⟩ | ⟨-, hfalse, heq⟩ | ⟨⟨-, -, -, hopens⟩, -⟩ | ⟨hver, -⟩ := maybeCheckVersion_cases (w.view tid) tid env
  · obtain hm | hgen := hstop
    · exact absurd (hm.symm.trans hfails.1) Bool.false_ne_true
    · exact absurd hgen hfails.2.1
  · rw [heq, remap_failed_iff hfalse]
    rintro ⟨-, hp, m, hmap, -⟩
    rw [hpublished hp] at hmap
    cases hmap
  · exact absurd hopens hfails.2.2.2
  · exact absurd hver hfails.2.2.1

theorem UsableInv.step {a : WorldStep} (h : UsableInv w) (hsafe : RemapsSafely w a) (hok : w.step H a = .ok w') :
    UsableInv w' := by
  cases a with
  | connect tid env =>
      cases hok
      have hkeep := connect_data (w.view tid) tid env
      exact h.putView ((h.threads tid).connect hsafe) (le_of_eq hkeep.registry.generation.symm)
  | client tid env op =>
      obtain ⟨c, hc, hok⟩ := Lib.bind_eq_ok.mp hok
      cases hok
      have hcheck := (h.threads tid).maybeCheckVersion (maybeCheckVersion_of_safe hsafe)
      have hkeep := maybeCheckVersion_data (w.view tid) tid env
      obtain rfl | ⟨wr, op, st, -, -, -, rfl⟩ := clientStep_inv hc
      · exact h.putView hcheck (le_of_eq hkeep.registry.generation.symm)
      · exact h.putView (hcheck.advance rfl hcheck.version (le_refl _) rfl rfl rfl) (le_of_eq hkeep.registry.generation.symm)
  | orchestrator inp =>
      have hver := (h.threads 0).version
      obtain ⟨hthreads, hprocs, hver', hgen, hcopying⟩ := orchestrate_advances hver h.copying hok
      refine ⟨fun t => (h.threads t).advance hthreads hver' hgen ?_ ?_ ?_, hcopying⟩
      · show (w'.threads t).region = (w.threads t).region
        rw [hthreads]
      · show (w'.procs (w'.threads t).proc).remote = _
        rw [hthreads, hprocs]
        rfl
      · show (w'.procs (w'.threads t).proc).registryMapped = _
        rw [hthreads, hprocs]
        rfl

theorem usableInv_start (st : Store) (sSlow sStop : Nat) (lookup : Nat → DataPlaneLudo) (proc lane : Nat → Nat) :
    UsableInv ((st.server sSlow sStop).world lookup proc lane) :=
  ⟨fun _ => ⟨Nat.one_pos, Or.inl ⟨rfl, rfl, rfl, rfl, rfl⟩, le_refl _, fun _ h => (nomatch h), fun _ h => (nomatch h)⟩,
    fun _ _ h => (nomatch h)⟩

/-- A thread that has no region behind its version check falls back to live globals. -/
theorem UsableInv.globals_live {op : ClientOp} (h : UsableInv w) (hsafe : RemapsSafely w (.client tid env op))
    (hfresh : ((w.view tid).maybeCheckVersion tid env).region.Unattached) {r : Remote}
    (hrem : ((w.view tid).maybeCheckVersion tid env).process.remote = some r) : r.live = true := by
  by_contra hdead
  have hdead : r.live = false := Bool.eq_false_of_not_eq_true hdead
  obtain ⟨hstop, heq⟩ | ⟨hfails, -⟩ | ⟨-, heq⟩ | ⟨hver, heq⟩ := maybeCheckVersion_cases (w.view tid) tid env
  · -- with deleted globals the check does not stop at once
    rw [heq] at hrem hfresh
    obtain ⟨hpos, hm⟩ := (h.threads tid).dead r hrem hdead
    obtain hno | hgen := hstop
    · exact absurd (hno.symm.trans hm) Bool.false_ne_true
    · rw [hfresh.localGeneration] at hgen
      omega
  · have hsame := maybeCheckVersion_of_safe hsafe hfails
    rw [hsame] at hrem hfresh
    have hall := (hsafe hfails).2 hfresh.mapping
    unfold ClientView.GlobalsLive at hall
    rw [hrem, Option.all_some, hdead] at hall
    cases hall
  · rw [heq] at hfresh
    cases hfresh.mapping
  · have hpos := (h.threads tid).version
    rw [heq] at hfresh
    rw [hver, hfresh.localVersion] at hpos
    cases hpos

/-- Behind its version check a thread selects what is mapped. -/
theorem UsableInv.selectsMapped {op : ClientOp} (h : UsableInv w) (hsafe : RemapsSafely w (.client tid env op)) :
    (w.putView tid ((w.view tid).maybeCheckVersion tid env)).SelectsMapped tid := by
  have hcheck := (h.threads tid).maybeCheckVersion (maybeCheckVersion_of_safe hsafe)
  unfold World.SelectsMapped World.ProcessMaps
  rw [World.putView_view, World.putView_proc]
  obtain hfresh | ⟨wr, hatt⟩ := hcheck.thread
  · cases hrem : ((w.view tid).maybeCheckVersion tid env).process.remote with
    | none =>
        left
        unfold ClientView.selectWrappers
        rw [hfresh.wrappers, hrem]
    | some r =>
        right
        have hlive := h.globals_live hsafe hfresh hrem
        obtain ⟨hproc, hmapping⟩ := hcheck.live r hrem hlive
        refine ⟨r.wrappers, ?_, ?_, ?_, r.owner, ?_, ?_⟩
        · unfold ClientView.selectWrappers
          rw [hfresh.wrappers, hrem]
          exact if_pos hlive
        · unfold ClientView.selectLock
          rw [hfresh.lockArray, hrem]
          exact if_pos hlive
        · unfold ClientView.lockRegion
          rw [hfresh.lockArray, hrem]
          rfl
        · rw [World.putView_proc]
          exact hproc
        · rw [World.putView_region]
          exact hmapping
  · refine Or.inr ⟨wr, ?_, ?_, ?_, tid, World.putView_proc .., ?_⟩
    · unfold ClientView.selectWrappers
      rw [hatt.wrappers]
    · unfold ClientView.selectLock
      rw [hatt.lockArray, hatt.mapping]
      rfl
    · unfold ClientView.lockRegion
      rw [hatt.lockArray]
    · rw [World.putView_region_self]
      exact hatt.mapping

end Run

/-- A call whose `shm_open` of the region does, or does not, succeed. -/
def openEnv (opens : Bool) : OpEnv := ⟨true, opens, .zero, 1⟩

/-- Thread 0 connects, and the store is resized. -/
def connectAndResize : List WorldStep := .connect 0 (openEnv true) :: List.replicate 9 (.orchestrator calmTick)

end Outback
