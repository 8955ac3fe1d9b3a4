import Outback.Numa.Client

/-!
# `Numa.Correctness.Attach` — what a connect and a remap do to the shared memory

Attaching looks like pure mapping, but the `PackedData` constructor writes its indeterminate local over every
entry of the shared packed array. Beyond that a connect or a remap changes nothing that a search reads (`OnlyData`), and
views that agree on what it reads answer alike (`answers_eq`).
-/

namespace Outback

/-- Two views that a search cannot tell apart, up to the globals of the process. -/
structure SameView (c c' : ClientView) : Prop where
  regions : c'.shared.regions = c.shared.regions
  linked : c'.shared.linked = c.shared.linked
  registry : SharedNumaRegistry.SameData c.shared.registry c'.shared.registry
  lookup : c'.process.lookup = c.process.lookup
  registryMapped : c'.process.registryMapped = c.process.registryMapped
  region : c'.region = c.region

namespace SameView

open SharedNumaRegistry

variable {c c' : ClientView}

theorem attach (h : SameView c c') (ver : Nat) (env : OpEnv) : SameView (c.attach ver env) (c'.attach ver env) where
  regions := by
    show (c'.shared.newPackedData _ _ _).regions = (c.shared.newPackedData _ _ _).regions
    simp only [Shared.newPackedData, Shared.setRegion, h.regions, h.registry.geometry]
  linked := h.linked
  registry := h.registry.both
    ((sameData_acknowledge _ _).trans (sameData_heartbeat _ _ _))
    ((sameData_acknowledge _ _).trans (sameData_heartbeat _ _ _))
  lookup := h.lookup
  registryMapped := h.registryMapped
  region := by simp only [ClientView.attach, h.region, h.registry.geometry, h.registry.generation]

theorem unmapOld (h : SameView c c') (tid : Nat) : SameView (c.unmapOld tid) (c'.unmapOld tid) := by
  unfold ClientView.unmapOld
  rw [h.region]
  split
  · exact h
  · exact ⟨h.regions, h.linked, h.registry, h.lookup, h.registryMapped, rfl⟩

theorem currentEpoch_published (h : SameView c c') :
    c'.shared.registry.currentEpoch.published = c.shared.registry.currentEpoch.published := by
  unfold SharedNumaRegistry.currentEpoch
  rw [h.registry.currentVersion, h.registry.published]

theorem openRegion (h : SameView c c') (ver : Nat) (opens : Bool) :
    c'.shared.openRegion ver opens = c.shared.openRegion ver opens := by
  rw [Shared.openRegion, Shared.openRegion, h.linked]

theorem remap (h : SameView c c') (tid : Nat) (env : OpEnv) :
    SameView (c.remapToCurrentEpoch tid env).2 (c'.remapToCurrentEpoch tid env).2 := by
  unfold ClientView.remapToCurrentEpoch
  simp only [h.registryMapped, h.currentEpoch_published, h.registry.currentVersion, (h.unmapOld tid).openRegion]
  split
  · exact h
  · split
    · exact h
    · split
      · exact h.unmapOld tid
      · exact (h.unmapOld tid).attach _ env

theorem maybeCheckVersion (h : SameView c c') (tid : Nat) (env : OpEnv) :
    SameView (c.maybeCheckVersion tid env) (c'.maybeCheckVersion tid env) := by
  unfold ClientView.maybeCheckVersion
  simp only [h.registryMapped, h.registry.generation, h.registry.currentVersion, h.region]
  split
  · exact h
  · split
    · exact h
    · split
      · exact h.remap tid env
      · exact ⟨h.regions, h.linked, h.registry.both (sameData_heartbeat _ _ _) (sameData_heartbeat _ _ _),
          h.lookup, h.registryMapped, rfl⟩

theorem store (h : SameView c c') (w : Wrappers) : c'.store w = c.store w := by
  unfold ClientView.store SharedNumaRegistry.currentEpoch
  rw [h.lookup, h.regions, h.registry.lanes, h.registryMapped, h.registry.currentVersion, h.registry.geometry]

end SameView

/-! ## The globals of the process -/

/-- What a version check does to the globals depends on nothing that is shared. -/
theorem maybeCheckVersion_remote {c c' : ClientView} (h : SameView c c') (hr : c'.process.remote = c.process.remote)
    (tid : Nat) (env : OpEnv) :
    (c'.maybeCheckVersion tid env).process.remote = (c.maybeCheckVersion tid env).process.remote := by
  have hunmap : (c'.unmapOld tid).process.remote = (c.unmapOld tid).process.remote := by
    unfold ClientView.unmapOld
    rw [h.region]
    split
    · exact hr
    · simp only [hr]
  have hremap : (c'.remapToCurrentEpoch tid env).2.process.remote = (c.remapToCurrentEpoch tid env).2.process.remote := by
    unfold ClientView.remapToCurrentEpoch
    simp only [h.registryMapped, h.currentEpoch_published, h.registry.currentVersion, (h.unmapOld tid).openRegion]
    split
    · exact hr
    · split
      · exact hr
      · split
        · exact hunmap
        · exact hunmap
  unfold ClientView.maybeCheckVersion
  simp only [h.registryMapped, h.registry.generation, h.registry.currentVersion, h.region]
  split
  · exact hr
  · split
    · exact hr
    · split
      · exact hremap
      · exact hr

/-! ## Answers -/

/-- The answer of a thread's search. -/
def ClientView.answers (H : HashFn) (c : ClientView) (tid : Nat) (env : OpEnv) (key : U64) : Exec (Option U64) :=
  (c.numaSearch H tid env key).map Prod.snd

/-- The thread reads through wrappers of its own, not through the globals of its process. -/
def ClientView.OwnView (c : ClientView) (tid : Nat) (env : OpEnv) : Prop :=
  (c.maybeCheckVersion tid env).region.wrappers.isSome

/-- Indistinguishable views answer alike. -/
theorem answers_eq {H : HashFn} {c c' : ClientView} (h : SameView c c') (tid : Nat) (env : OpEnv) (key : U64)
    (hr : c'.process.remote = c.process.remote ∨ c.OwnView tid env) :
    c'.answers H tid env key = c.answers H tid env key := by
  have hsel : (c'.maybeCheckVersion tid env).selectWrappers = (c.maybeCheckVersion tid env).selectWrappers := by
    unfold ClientView.selectWrappers
    rw [(h.maybeCheckVersion tid env).region]
    rcases hr with hr | hown
    · rw [maybeCheckVersion_remote h hr]
    · obtain ⟨w, hw⟩ := Option.isSome_iff_exists.mp hown
      rw [hw]
  have hstore := (h.maybeCheckVersion tid env).store
  unfold ClientView.answers ClientView.numaSearch
  simp only [hsel]
  cases (c.maybeCheckVersion tid env).selectWrappers with
  | error e => rfl
  | ok w =>
      cases w with
      | none => rfl
      | some w =>
          simp only [Exec.ok_bind, hstore]
          cases ((c.maybeCheckVersion tid env).store w).numaSearch H key with
          | error e => rfl
          | ok v => rfl

/-! ## What attaching does to shared memory -/

/-- Every packed entry of the current region has the value `g` already. -/
def Shared.FilledWith (sh : Shared) (g : PackedStruct) : Prop :=
  ∀ i, i < sh.registry.currentEpoch.geometry.numDataEntries → (sh.regions sh.registry.currentVersion).packed i = g

instance (sh : Shared) (g : PackedStruct) : Decidable (sh.FilledWith g) :=
  inferInstanceAs (Decidable (∀ i, i < sh.registry.currentEpoch.geometry.numDataEntries → _ = _))

/-- Attaching changes nothing else that a client reads: only the region contents are at stake. -/
structure OnlyData (c c' : ClientView) : Prop where
  linked : c'.shared.linked = c.shared.linked
  registry : SharedNumaRegistry.SameData c.shared.registry c'.shared.registry

section Effects

variable (c : ClientView) (tid : Nat) (env : OpEnv)

/-- The attach step: the constructor's writes are all it does to the regions. -/
theorem attach_shared (ver : Nat) :
    (c.attach ver env).shared.regions = (c.shared.newPackedData ver
      (c.shared.registry.epochOf ver).geometry.numDataEntries env.packedStruct).regions ∧ OnlyData c (c.attach ver env) :=
  ⟨rfl, rfl, (SharedNumaRegistry.sameData_acknowledge _ _).trans (SharedNumaRegistry.sameData_heartbeat _ _ _)⟩

theorem unmapOld_shared : (c.unmapOld tid).shared = c.shared := by
  unfold ClientView.unmapOld
  split <;> rfl

/-- A remap either gives up with the shared memory as it was, or attaches to the current version. -/
theorem remap_shared :
    ((c.process.registryMapped = false ∨ ¬ c.shared.RemapOpens env) ∧
        (c.remapToCurrentEpoch tid env).2.shared = c.shared) ∨
      ((c.process.registryMapped = true ∧ c.shared.RemapOpens env) ∧
        (c.remapToCurrentEpoch tid env).2 = (c.unmapOld tid).attach c.shared.registry.currentVersion env) := by
  unfold ClientView.remapToCurrentEpoch Shared.RemapOpens
  simp only
  split
  · rename_i hm
    exact Or.inl ⟨Or.inl hm, rfl⟩
  · rename_i hm
    split
    · rename_i hp
      exact Or.inl ⟨Or.inr (fun h => by simp [hp] at h), rfl⟩
    · rename_i hp
      rw [unmapOld_shared]
      split
      · rename_i ho
        exact Or.inl ⟨Or.inr (fun h => by simp [ho] at h), unmapOld_shared c tid⟩
      · rename_i ho
        exact Or.inr ⟨⟨by simpa using hm, by simpa using hp, by simpa using ho⟩, rfl⟩

/-- A connect either gives up without touching data, or attaches to the current version. -/
theorem connect_shared :
    ((env.opensRegistry = false ∨ ¬ c.shared.RegistryReady ∨ ¬ c.shared.RemapOpens env) ∧
        (c.connectToNumaServer tid env).2.shared.regions = c.shared.regions ∧
        OnlyData c (c.connectToNumaServer tid env).2) ∨
      ((env.opensRegistry = true ∧ c.shared.RegistryReady ∧ c.shared.RemapOpens env) ∧
        (c.connectToNumaServer tid env).2.shared.regions
          = (c.shared.newPackedData c.shared.registry.currentVersion
              c.shared.registry.currentEpoch.geometry.numDataEntries env.packedStruct).regions ∧
        OnlyData c (c.connectToNumaServer tid env).2) := by
  have hreg := SharedNumaRegistry.sameData_registerClient c.shared.registry
  unfold ClientView.connectToNumaServer
  simp only
  split
  · rename_i h
    exact Or.inl ⟨Or.inl h, rfl, rfl, .refl _⟩
  · rename_i h
    split
    · rename_i hr
      exact Or.inl ⟨Or.inr (Or.inl hr), rfl, rfl, .refl _⟩
    · rename_i hr
      have hr : c.shared.RegistryReady := not_not.mp hr
      split
      · rename_i ho
        have ho : c.shared.openRegion c.shared.registry.currentVersion env.opensRegion = false := ho
        exact Or.inl ⟨Or.inr (Or.inr (fun hh => by simp [Shared.RemapOpens, ho] at hh)), rfl, rfl, hreg⟩
      · rename_i ho
        have ho : c.shared.openRegion c.shared.registry.currentVersion env.opensRegion = true :=
          Bool.eq_true_of_not_eq_false ho
        refine Or.inr ⟨⟨by simpa using h, hr, hr.2.2, ho⟩, ?_, rfl, ?_⟩
        · have hgeo := hreg.geometry c.shared.registry.currentVersion
          show (Shared.newPackedData _ _ (SharedNumaRegistry.epochOf c.shared.registry.registerClient
            c.shared.registry.currentVersion).geometry.numDataEntries _).regions = _
          rw [hgeo]
          rfl
        · exact hreg.trans ((SharedNumaRegistry.sameData_acknowledge _ _).trans
            (SharedNumaRegistry.sameData_heartbeat _ _ _))

end Effects

end Outback
