import Outback.Numa.PutAccess
import Outback.Numa.Correctness.Orchestrator
import Outback.Numa.Correctness.ResizeRace

/-!
# `Numa.Correctness.AllocInside` — the index a put got and the region it writes to

`numa_put` fixes its wrappers at entry, and `alloc_remote_data_slot` compares the index with the epoch that is current
later on. **`alloc_inside`**: in every interleaving of any number of puts with `do_copy`, an index that is handed out lies
inside the region the put has mapped as long as it is compared with the epoch of that region; and when `current_version`
has moved past the mapped region before the allocator loads it, every index that is handed out lies outside.
`alloc_outside` is such a run.

The argument is the size of a region as a function of its version (`entriesAt`): a wrapper, a filled epoch and the lanes
agree with it (`PutInv`).
-/

namespace Outback

/-! ## The size of a region -/

/-- How often the region has been doubled at version `ver`: one version in `kMaxEpochSlots` is skipped. -/
def doublings (ver : Nat) : Nat := ver - 1 - ver / kMaxEpochSlots

/-- `num_data_entries` of version `ver`, when version 1 has `n`. -/
def entriesAt (n ver : Nat) : Nat := n * 2 ^ doublings ver

theorem doublings_mono {v v' : Nat} (h : v ≤ v') : doublings v ≤ doublings v' := by
  unfold doublings kMaxEpochSlots
  omega

theorem doublings_nextVersion {v : Nat} (h : v % kMaxEpochSlots ≠ 0) :
    doublings (nextVersion v) = doublings v + 1 := by
  unfold doublings nextVersion kMaxEpochSlots at *
  split <;> omega

theorem entriesAt_mono (n : Nat) {v v' : Nat} (h : v ≤ v') : entriesAt n v ≤ entriesAt n v' :=
  Nat.mul_le_mul_left n (Nat.pow_le_pow_right (by decide) (doublings_mono h))

/-- A copy doubles. -/
theorem entriesAt_nextVersion (n : Nat) {v : Nat} (h : v % kMaxEpochSlots ≠ 0) :
    entriesAt n (nextVersion v) = entriesAt n v * 2 := by
  unfold entriesAt
  rw [doublings_nextVersion h, Nat.pow_succ, Nat.mul_assoc]

/-- A region is at most half as large as a later one. -/
theorem entriesAt_lt (n : Nat) {v v' : Nat} (hpos : 0 < v) (h : v < v') (hslot : v' % kMaxEpochSlots ≠ 0) :
    entriesAt n v * 2 ≤ entriesAt n v' := by
  have hd : doublings v + 1 ≤ doublings v' := by
    unfold doublings kMaxEpochSlots at *
    omega
  unfold entriesAt
  rw [Nat.mul_assoc, ← Nat.pow_succ]
  exact Nat.mul_le_mul_left n (Nat.pow_le_pow_right (by decide) hd)

/-- A wrapper over a version up to `cur`, as large as that version is. -/
structure Wrappers.Fits (n cur : Nat) (w : Wrappers) : Prop where
  pos : 0 < w.ver
  le : w.ver ≤ cur
  entries : w.numDataEntries = entriesAt n w.ver

theorem Wrappers.Fits.mono {n cur cur' : Nat} {w : Wrappers} (h : w.Fits n cur) (hle : cur ≤ cur') : w.Fits n cur' :=
  ⟨h.pos, h.le.trans hle, h.entries⟩

/-- The current version has an epoch of its own, and every filled epoch is as large as its version. -/
structure EpochsFit (n : Nat) (reg : SharedNumaRegistry) : Prop where
  slot : reg.currentVersion % kMaxEpochSlots ≠ 0
  current : reg.currentEpoch.version = reg.currentVersion
  entries : ∀ i, (reg.epoch i).version ≠ 0 → (reg.epoch i).geometry.numDataEntries = entriesAt n (reg.epoch i).version

/-- Every lane has got past half of version `ver`. -/
def LanesPastHalf (n ver : Nat) (l : Lanes) : Prop := ∀ i, i < l.lanes → entriesAt n ver ≤ l.laneNextFreeIndex i * 2

theorem EpochsFit.pos {n : Nat} {reg : SharedNumaRegistry} (h : EpochsFit n reg) : 0 < reg.currentVersion :=
  Nat.pos_of_ne_zero (fun h0 => h.slot (by rw [h0]; rfl))

theorem EpochsFit.currentEntries {n : Nat} {reg : SharedNumaRegistry} (h : EpochsFit n reg) :
    reg.currentEpoch.geometry.numDataEntries = entriesAt n reg.currentVersion := by
  have hentries := h.entries (reg.currentVersion % kMaxEpochSlots) (by
    rw [show (reg.epoch (reg.currentVersion % kMaxEpochSlots)).version = reg.currentVersion from h.current]
    exact h.pos.ne')
  rw [show (reg.epoch (reg.currentVersion % kMaxEpochSlots)).version = reg.currentVersion from h.current] at hentries
  exact hentries

theorem EpochsFit.ofEpoch {n : Nat} {reg : SharedNumaRegistry} (h : EpochsFit n reg) :
    (Wrappers.ofEpoch reg.currentVersion reg.currentEpoch.geometry).Fits n reg.currentVersion :=
  ⟨h.pos, le_refl _, h.currentEntries⟩

/-! ## The registry along the steps -/

/-- A step that fills no epoch, publishes nothing and sets no lane back. -/
structure KeepsEpochs (reg reg' : SharedNumaRegistry) : Prop where
  currentVersion : reg'.currentVersion = reg.currentVersion
  version : ∀ i, (reg'.epoch i).version = (reg.epoch i).version
  geometry : ∀ i, (reg'.epoch i).geometry = (reg.epoch i).geometry
  memThreads : reg'.lanes.memThreads = reg.lanes.memThreads
  lanes : ∀ i, reg.lanes.laneNextFreeIndex i ≤ reg'.lanes.laneNextFreeIndex i

section Keeps

variable {n : Nat} {reg reg' reg'' : SharedNumaRegistry}

theorem KeepsEpochs.refl (reg : SharedNumaRegistry) : KeepsEpochs reg reg :=
  ⟨rfl, fun _ => rfl, fun _ => rfl, rfl, fun _ => le_refl _⟩

theorem KeepsEpochs.trans (h : KeepsEpochs reg reg') (h' : KeepsEpochs reg' reg'') : KeepsEpochs reg reg'' :=
  ⟨h'.currentVersion.trans h.currentVersion, fun i => (h'.version i).trans (h.version i),
    fun i => (h'.geometry i).trans (h.geometry i), h'.memThreads.trans h.memThreads,
    fun i => (h.lanes i).trans (h'.lanes i)⟩

/-- What an attaching client writes. -/
theorem AttachKeeps.keepsEpochs {sh sh' : Shared} (h : AttachKeeps sh sh') : KeepsEpochs sh.registry sh'.registry := by
  have hlanes := h.registry.lanes
  obtain ⟨w, hw⟩ := h.clients
  rw [hw] at hlanes ⊢
  exact ⟨rfl, fun _ => rfl, fun _ => rfl, rfl, fun i => by rw [hlanes]⟩

/-- Epochs are written without their version and geometry. -/
theorem KeepsEpochs.setEpoch (reg : SharedNumaRegistry) (v : Nat) (ep : ResizeEpoch)
    (hv : ep.version = (reg.epochOf v).version) (hg : ep.geometry = (reg.epochOf v).geometry) :
    KeepsEpochs reg (reg.setEpoch v ep) := by
  refine ⟨rfl, fun i => ?_, fun i => ?_, rfl, fun _ => le_refl _⟩
  · by_cases hi : i = v % kMaxEpochSlots
    · subst hi
      exact (congrArg ResizeEpoch.version (Function.update_self ..)).trans hv
    · exact congrArg ResizeEpoch.version (Function.update_of_ne hi ..)
  · by_cases hi : i = v % kMaxEpochSlots
    · subst hi
      exact (congrArg ResizeEpoch.geometry (Function.update_self ..)).trans hg
    · exact congrArg ResizeEpoch.geometry (Function.update_of_ne hi ..)

theorem EpochsFit.keeps (h : EpochsFit n reg) (hk : KeepsEpochs reg reg') : EpochsFit n reg' := by
  refine ⟨by rw [hk.currentVersion]; exact h.slot, ?_, fun i hi => ?_⟩
  · unfold SharedNumaRegistry.currentEpoch SharedNumaRegistry.epochOf
    rw [hk.version, hk.currentVersion]
    exact h.current
  · rw [hk.version] at hi
    rw [hk.geometry, hk.version]
    exact h.entries i hi

theorem LanesPastHalf.keeps {ver : Nat} (h : LanesPastHalf n ver reg.lanes) (hk : KeepsEpochs reg reg') :
    LanesPastHalf n ver reg'.lanes := by
  intro i hi
  have hi' : i < reg.lanes.lanes := by
    unfold Lanes.lanes at hi ⊢
    rw [hk.memThreads] at hi
    exact hi
  exact (h i hi').trans (Nat.mul_le_mul_right 2 (hk.lanes i))

theorem LanesPastHalf.mono {l : Lanes} {v v' : Nat} (h : LanesPastHalf n v' l) (hle : v ≤ v') : LanesPastHalf n v l :=
  fun i hi => (entriesAt_mono n hle).trans (h i hi)

/-- The lanes after `do_copy` has set them: the old size is half of the new one. -/
theorem LanesPastHalf.resetLanes {s : Server} {plan : CopyPlan} (hslot : plan.oldVer % kMaxEpochSlots ≠ 0)
    (hnew : plan.newVer = nextVersion plan.oldVer) (hold : plan.oldDataEntries = entriesAt n plan.oldVer) :
    LanesPastHalf n plan.newVer (s.resetLanes plan).registry.lanes := by
  intro i hi
  have hlt : i < s.effectiveLanes := by
    have hi' : i < s.registry.lanes.lanes := hi
    unfold Lanes.lanes at hi'
    unfold Server.effectiveLanes
    split at hi'
    · rename_i h0
      rw [if_pos h0]
      exact hi'
    · rename_i h0
      rw [if_neg h0]
      exact lt_of_lt_of_le hi' (min_le_left _ _)
  show entriesAt n plan.newVer
    ≤ (if i < s.effectiveLanes then plan.oldDataEntries + i else s.registry.lanes.laneNextFreeIndex i) * 2
  rw [if_pos hlt, hnew, entriesAt_nextVersion n hslot, hold]
  omega

/-- A move of the orchestrator that publishes nothing. -/
theorem TickMove.keepsEpochs {s s' : Server} (h : TickMove s s')
    (hcur : s'.registry.currentVersion = s.registry.currentVersion) : KeepsEpochs s.registry s'.registry := by
  cases h with
  | wait ack gc => exact .refl _
  | trigger hst => exact ⟨rfl, fun _ => rfl, fun _ => rfl, rfl, fun _ => le_refl _⟩
  | abort hst linked hlinked => exact ⟨rfl, fun _ => rfl, fun _ => rfl, rfl, fun _ => le_refl _⟩
  | copy hst g =>
      rw [(copied_registry s s.registry.currentVersion g).1] at hcur
      exact absurd hcur (nextVersion_ne _)
  | acked hst pending ack =>
      have hset := KeepsEpochs.setEpoch s.registry s.registry.currentVersion
        { s.registry.currentEpoch with clientsPendingAck := pending } rfl rfl
      exact ⟨rfl, hset.version, hset.geometry, rfl, fun _ => le_refl _⟩
  | @drained hst t inp hkeep =>
      have hreg : t.registry = s.registry := hkeep.registry
      rw [← hreg]
      unfold Server.finishDrain
      split
      · have hset := KeepsEpochs.setEpoch t.registry t.pendingOldVer
          { t.registry.epochOf t.pendingOldVer with cleanupAllowed := true } rfl rfl
        exact ⟨rfl, hset.version, hset.geometry, rfl, fun _ => le_refl _⟩
      · exact ⟨rfl, fun _ => rfl, fun _ => rfl, rfl, fun _ => le_refl _⟩
  | reclaimed hst => exact ⟨rfl, fun _ => rfl, fun _ => rfl, rfl, fun _ => le_refl _⟩

end Keeps

/-! ## The orchestrator -/

/-- The new version's epoch is filled and not current yet. -/
def CopyPhase.filled : CopyPhase → Bool
  | .epochFilled | .lanesReset => true
  | .created | .packedCopied | .bucketsCopied | .versionStored | .generationBumped => false

/-- A copy under way, its plan and how far it has come. -/
structure CopyFits (n : Nat) (reg : SharedNumaRegistry) (phase : CopyPhase) (plan : CopyPlan) : Prop where
  slot : plan.oldVer % kMaxEpochSlots ≠ 0
  newVer : plan.newVer = nextVersion plan.oldVer
  oldEntries : plan.oldDataEntries = entriesAt n plan.oldVer
  entries : plan.geometry.numDataEntries = entriesAt n plan.newVer
  currentVersion : reg.currentVersion = if phase.stored then plan.newVer else plan.oldVer
  filled : phase.filled = true → (reg.epochOf plan.newVer).version = plan.newVer
  lanes : phase = .lanesReset → LanesPastHalf n plan.newVer reg.lanes

/-- The registry of a world and the copy under way agree with the sizes of the versions. -/
structure RegionsFit (n : Nat) (w : World) : Prop where
  epochs : EpochsFit n w.server.registry
  lanes : LanesPastHalf n w.server.registry.currentVersion w.server.registry.lanes
  copy : ∀ phase plan, w.copy = some (phase, plan) → CopyFits n w.server.registry phase plan

section Orchestrate

variable {n : Nat} {H : HashFn} {w w' : World} {phase phase' : CopyPhase} {plan : CopyPlan}

/-- A step that is none of the copy's. -/
theorem RegionsFit.keeps {s : Server} (h : RegionsFit n w) (procs : Nat → ClientProcess) (threads : Nat → Thread)
    (hk : KeepsEpochs w.server.registry s.registry) : RegionsFit n ⟨s, procs, threads, w.copy⟩ := by
  refine ⟨h.epochs.keeps hk, ?_, fun phase plan hc => ?_⟩
  · show LanesPastHalf n s.registry.currentVersion s.registry.lanes
    rw [hk.currentVersion]
    exact h.lanes.keeps hk
  · have hcopy := h.copy phase plan hc
    refine { hcopy with
      currentVersion := hk.currentVersion.trans hcopy.currentVersion
      filled := fun hf => ?_
      lanes := fun hl => (hcopy.lanes hl).keeps hk }
    exact (hk.version _).trans (hcopy.filled hf)

/-- A step of the copy before the version is stored, on to a phase that is not the reset of the lanes. -/
theorem CopyFits.next {reg reg' : SharedNumaRegistry} (h : CopyFits n reg phase plan)
    (hcur : reg'.currentVersion = reg.currentVersion) (hs : phase'.stored = phase.stored)
    (hf : phase'.filled = true → (reg'.epochOf plan.newVer).version = plan.newVer)
    (hl : phase' = .lanesReset → LanesPastHalf n plan.newVer reg'.lanes) : CopyFits n reg' phase' plan :=
  ⟨h.slot, h.newVer, h.oldEntries, h.entries, by rw [hcur, hs]; exact h.currentVersion, hf, hl⟩

/-- `fill_epoch` writes the slot of the next version. -/
theorem EpochsFit.fillEpoch {s : Server} (h : EpochsFit n s.registry) (hne : plan.newVer % kMaxEpochSlots
    ≠ s.registry.currentVersion % kMaxEpochSlots) (hentries : plan.geometry.numDataEntries = entriesAt n plan.newVer) :
    EpochsFit n (s.fillEpoch plan).registry := by
  refine ⟨h.slot, ?_, fun i => ?_⟩
  · show (SharedNumaRegistry.epochOf (SharedNumaRegistry.setEpoch _ plan.newVer _) s.registry.currentVersion).version = _
    rw [SharedNumaRegistry.setEpoch_of_ne _ _ hne.symm]
    exact h.current
  · show (Function.update s.registry.epoch (plan.newVer % kMaxEpochSlots) _ i).version ≠ 0 →
      (Function.update s.registry.epoch (plan.newVer % kMaxEpochSlots) _ i).geometry.numDataEntries
        = entriesAt n (Function.update s.registry.epoch (plan.newVer % kMaxEpochSlots) _ i).version
    by_cases hi : i = plan.newVer % kMaxEpochSlots
    · subst hi
      rw [Function.update_self]
      exact fun _ => hentries
    · rw [Function.update_of_ne hi]
      exact h.entries i

/-- Publishing the filled epoch. -/
theorem EpochsFit.publish {s : Server} (h : EpochsFit n s.registry) (hslot : plan.newVer % kMaxEpochSlots ≠ 0)
    (hfilled : (s.registry.epochOf plan.newVer).version = plan.newVer) : EpochsFit n (s.publish plan).registry := by
  have hset := KeepsEpochs.setEpoch s.registry plan.newVer
    { s.registry.epochOf plan.newVer with published := true } rfl rfl
  refine ⟨hslot, ?_, fun i hi => ?_⟩
  · show (SharedNumaRegistry.epochOf (SharedNumaRegistry.setEpoch _ plan.newVer _) plan.newVer).version = _
    rw [SharedNumaRegistry.setEpoch_self]
    exact hfilled
  · exact (h.keeps hset).entries i hi

/-- A step of the orchestrator outside a copy. -/
theorem RegionsFit.orchestrate_idle {inp : TickInput} (h : RegionsFit n w) (hc : w.copy = none)
    (hok : w.orchestrate H inp = .ok w') :
    RegionsFit n w' ∧ w'.server.registry.currentVersion = w.server.registry.currentVersion := by
  unfold World.orchestrate at hok
  rw [hc] at hok
  simp only at hok
  split at hok
  · cases hok
    have hentries : (w.server.registry.copyPlan w.server.registry.currentVersion).oldDataEntries
        = entriesAt n w.server.registry.currentVersion := h.epochs.currentEntries
    have hkeeps : KeepsEpochs w.server.registry
        (w.server.enterCopying (w.server.registry.copyPlan w.server.registry.currentVersion) inp.create).registry := by
      cases inp.create <;> exact ⟨rfl, fun _ => rfl, fun _ => rfl, rfl, fun _ => le_refl _⟩
    obtain ⟨hep, hln, -⟩ := h.keeps w.procs w.threads hkeeps
    refine ⟨⟨hep, hln, fun phase plan hp => ?_⟩, hkeeps.currentVersion⟩
    split at hp
    · obtain ⟨rfl, rfl⟩ := Prod.mk.inj (Option.some.inj hp)
      refine ⟨h.epochs.slot, rfl, hentries, ?_, hkeeps.currentVersion, fun hf => (by cases hf), fun hl => (by cases hl)⟩
      show (w.server.registry.copyPlan w.server.registry.currentVersion).oldDataEntries * 2 = _
      rw [hentries]
      exact (entriesAt_nextVersion n h.epochs.slot).symm
    · cases hp
  · rename_i hno
    obtain ⟨s, hs, hok⟩ := Lib.bind_eq_ok.mp hok
    cases hok
    have hcur : s.registry.currentVersion = w.server.registry.currentVersion := by
      rcases checkState_cases hs with hquiet | ⟨hstarts, -⟩
      · exact hquiet.currentVersion
      · exact absurd ⟨hstarts.1, hstarts.2.1, hstarts.2.2.1, hstarts.2.2.2.1⟩ hno
    have hfit := h.keeps w.procs w.threads ((checkState_move hs).keepsEpochs hcur)
    rw [hc] at hfit
    exact ⟨hfit, hcur⟩

/-- A step of a copy. -/
theorem RegionsFit.orchestrate_copying {inp : TickInput} (h : RegionsFit n w) (hc : w.copy = some (phase, plan))
    (hok : w.orchestrate H inp = .ok w') :
    RegionsFit n w' ∧ w.server.registry.currentVersion ≤ w'.server.registry.currentVersion := by
  have hcopy := h.copy phase plan hc
  have hcur := hcopy.currentVersion
  obtain ⟨hslot, hne⟩ := nextVersion_slot plan.oldVer
  rw [← hcopy.newVer] at hslot hne
  unfold World.orchestrate at hok
  rw [hc] at hok
  have hto : ∀ {w' : World} {phase'}, w'.copy = some (phase', plan) →
      EpochsFit n w'.server.registry → LanesPastHalf n w'.server.registry.currentVersion w'.server.registry.lanes →
      CopyFits n w'.server.registry phase' plan → RegionsFit n w' := by
    intro w' phase' hc' hep hln hcp
    refine ⟨hep, hln, fun ph pl hp => ?_⟩
    rw [hc'] at hp
    cases hp
    exact hcp
  cases phase with
  | created | packedCopied | versionStored =>
      cases hok
      exact ⟨hto rfl ⟨h.epochs.slot, h.epochs.current, h.epochs.entries⟩ h.lanes
        (hcopy.next rfl rfl (fun hf => (by cases hf)) (fun hl => (by cases hl))), le_refl _⟩
  | bucketsCopied =>
      cases hok
      have hcur : w.server.registry.currentVersion = plan.oldVer := hcur
      have hep := h.epochs.fillEpoch (by rw [hcur]; exact hne.symm) hcopy.entries
      refine ⟨hto rfl hep h.lanes (hcopy.next rfl rfl (fun _ => ?_) (fun hl => (by cases hl))), le_refl _⟩
      show (SharedNumaRegistry.epochOf (SharedNumaRegistry.setEpoch _ plan.newVer _) plan.newVer).version = _
      rw [SharedNumaRegistry.setEpoch_self]
  | epochFilled =>
      cases hok
      have hlanes : LanesPastHalf n plan.newVer (w.server.resetLanes plan).registry.lanes :=
        .resetLanes hcopy.slot hcopy.newVer hcopy.oldEntries
      have hle : w.server.registry.currentVersion ≤ plan.newVer := by
        rw [hcur, hcopy.newVer]
        exact (lt_nextVersion _).le
      exact ⟨hto rfl ⟨h.epochs.slot, h.epochs.current, h.epochs.entries⟩ (hlanes.mono hle)
        (hcopy.next rfl rfl (fun _ => hcopy.filled rfl) (fun _ => hlanes)), le_refl _⟩
  | lanesReset =>
      cases hok
      have hle : w.server.registry.currentVersion ≤ plan.newVer := by
        rw [hcur, hcopy.newVer]
        exact (lt_nextVersion _).le
      exact ⟨hto rfl (h.epochs.publish hslot (hcopy.filled rfl)) (hcopy.lanes rfl)
        ⟨hcopy.slot, hcopy.newVer, hcopy.oldEntries, hcopy.entries, rfl, fun hf => (by cases hf),
          fun hl => (by cases hl)⟩, hle⟩
  | generationBumped =>
      cases hok
      exact ⟨⟨⟨h.epochs.slot, h.epochs.current, h.epochs.entries⟩, h.lanes, fun ph pl hp => (by cases hp)⟩, le_refl _⟩

end Orchestrate

/-! ## The puts -/

/-- What a put carries agrees with the sizes of the versions. An index that was taken for a later version than the
    mapped one lies behind the mapped region. -/
def PutPc.Fits (n cur : Nat) : PutPc → Prop
  | .idle | .checked _ _ => True
  | .loadVersion t | .writeEntry t _ | .writeSlot t _ => t.wrappers.Fits n cur
  | .fetchAdd t ver => t.wrappers.Fits n ver ∧ ver ≤ cur
  | .compare t ver idx => t.wrappers.Fits n ver ∧ ver ≤ cur ∧
      (t.wrappers.ver < ver → t.wrappers.numDataEntries ≤ idx)

/-- The index a put is about to write at lies inside the region its wrapper maps. -/
def PutPc.Inside : PutPc → Prop
  | .writeEntry t idx | .writeSlot t idx => idx < t.wrappers.numDataEntries
  | .idle | .checked _ _ | .loadVersion _ | .fetchAdd _ _ | .compare _ _ _ => True

instance (pc : PutPc) : Decidable pc.Inside := by
  cases pc <;> unfold PutPc.Inside <;> infer_instance

/-- An allocation that hands out its index compares it with the epoch of the version that the packed wrapper maps. -/
def PutPc.ComparesOwn (reg : SharedNumaRegistry) : PutPc → Prop
  | .compare t ver idx => idx < (reg.epochOf ver).geometry.numDataEntries → (reg.epochOf ver).version = t.wrappers.ver
  | .idle | .checked _ _ | .loadVersion _ | .fetchAdd _ _ | .writeEntry _ _ | .writeSlot _ _ => True

instance (reg : SharedNumaRegistry) (pc : PutPc) : Decidable (pc.ComparesOwn reg) := by
  cases pc <;> unfold PutPc.ComparesOwn <;> infer_instance

theorem PutPc.Fits.mono {n cur cur' : Nat} {pc : PutPc} (h : pc.Fits n cur) (hle : cur ≤ cur') : pc.Fits n cur' := by
  cases pc with
  | idle | checked key val => trivial
  | loadVersion t | writeEntry t idx | writeSlot t idx => exact Wrappers.Fits.mono h hle
  | fetchAdd t ver => exact ⟨h.1, h.2.trans hle⟩
  | compare t ver idx => exact ⟨h.1, h.2.1.trans hle, h.2.2⟩

/-- A lane's counter only advances. -/
theorem Lanes.le_allocRemoteDataSlot (l : Lanes) (laneId n i : Nat) :
    l.laneNextFreeIndex i ≤ (l.allocRemoteDataSlot laneId n).2.laneNextFreeIndex i := by
  show _ ≤ Function.update l.laneNextFreeIndex (laneId % l.lanes) _ i
  by_cases hi : i = laneId % l.lanes
  · rw [hi, Function.update_self]
    exact Nat.le_add_right _ _
  · rw [Function.update_of_ne hi]

section Advance

variable {n : Nat} {H : HashFn} {c c' : ClientView} {tid : Nat} {env : OpEnv} {key val : U64} {pc pc' : PutPc}

/-- All a data operation does to the registry is to advance a lane. -/
theorem commit_keepsEpochs {w : Wrappers} {st : Store} {op : NumaOp} (hok : (c.store w).step H op = .ok st) :
    KeepsEpochs c.shared.registry (c.commit w st).shared.registry := by
  refine ⟨rfl, fun _ => rfl, fun _ => rfl, ?_, fun i => ?_⟩
  · show (if c.process.registryMapped then st.lanes else c.shared.registry.lanes).memThreads = _
    split
    · rcases step_lanes hok with h | ⟨laneId, h⟩ <;> rw [h] <;> rfl
    · rfl
  · show _ ≤ (if c.process.registryMapped then st.lanes else c.shared.registry.lanes).laneNextFreeIndex i
    split
    · rcases step_lanes hok with h | ⟨laneId, h⟩
      · rw [h]
        exact le_refl _
      · rw [h]
        exact c.shared.registry.lanes.le_allocRemoteDataSlot laneId (c.store w).numDataEntries i
    · exact le_refl _

/-- An operation keeps the epochs and the wrappers. -/
theorem clientStep_keepsEpochs {op : ClientOp} (hfit : EpochsFit n c.shared.registry)
    (hall : c.AllWrappers (Wrappers.Fits n c.shared.registry.currentVersion)) (hok : c.step H tid env op = .ok c') :
    KeepsEpochs c.shared.registry c'.shared.registry ∧
    c'.AllWrappers (Wrappers.Fits n c.shared.registry.currentVersion) := by
  have hcheck := (maybeCheckVersion_data c tid env).keepsEpochs
  refine ⟨?_, hall.clientStep hfit.ofEpoch hok⟩
  rcases clientStep_inv hok with rfl | ⟨w, numaOp, st, -, -, hst, rfl⟩
  · exact hcheck
  · exact hcheck.trans (commit_keepsEpochs hst)

/-- The look at the slots: the rest of the put, or a target behind wrappers within reach. -/
theorem lookAtSlots_cases (hok : c.lookAtSlots H key val = .ok (c', pc')) :
    (c' = c ∧ pc' = .idle) ∨ (∃ w st, (c.store w).step H (.put c.region.remoteLaneId key val) = .ok st ∧
      c' = c.commit w st ∧ pc' = .idle) ∨
    (∃ t, c.selectWrappers = .ok (some t.wrappers) ∧ c' = c ∧ pc' = .loadVersion t) := by
  obtain ⟨w, hsel, hok⟩ := Lib.bind_eq_ok.mp hok
  cases w with
  | none =>
      cases hok
      exact Or.inl ⟨rfl, rfl⟩
  | some w =>
      obtain ⟨locked, -, hok⟩ := Lib.bind_eq_ok.mp hok
      cases locked with
      | false =>
          cases hok
          exact Or.inl ⟨rfl, rfl⟩
      | true =>
          obtain ⟨b, -, hok⟩ := Lib.bind_eq_ok.mp hok
          simp only at hok
          cases hstatus : b.checkSlots H key ((c.store w).lookup.slot H key) with
          | good =>
              rw [hstatus] at hok
              cases hok
              exact Or.inr (Or.inr ⟨⟨w, _, _, _, _⟩, hsel, rfl, rfl⟩)
          | emptyExists =>
              rw [hstatus] at hok
              simp only at hok
              split at hok
              · cases hok
                exact Or.inr (Or.inr ⟨⟨w, _, _, _, _⟩, hsel, rfl, rfl⟩)
              · cases hok
                exact Or.inl ⟨rfl, rfl⟩
          | maybeUpdate | full =>
              rw [hstatus] at hok
              obtain ⟨st, hst, hok⟩ := Lib.bind_eq_ok.mp hok
              cases hok
              exact Or.inr (Or.inl ⟨w, st, hst, rfl, rfl⟩)

/-- The `fetch_add` returns an index past half of the current version. -/
theorem fetchAdd_index (hlanes : LanesPastHalf n c.shared.registry.currentVersion c.shared.registry.lanes)
    (hslot : c.shared.registry.currentVersion % kMaxEpochSlots ≠ 0) {t : PutTarget} {ver : Nat}
    (hfit : t.wrappers.Fits n ver) (hle : ver ≤ c.shared.registry.currentVersion) (hlt : t.wrappers.ver < ver) :
    t.wrappers.numDataEntries
      ≤ c.shared.registry.lanes.laneNextFreeIndex (c.region.remoteLaneId % c.shared.registry.lanes.lanes) := by
  have hhalf := hlanes _ (Nat.mod_lt c.region.remoteLaneId c.shared.registry.lanes.lanes_pos)
  have hdouble := entriesAt_lt n hfit.pos (hlt.trans_le hle) hslot
  rw [hfit.entries]
  omega

/-- **One access of a put.** -/
theorem advancePut_fits (hfit : EpochsFit n c.shared.registry)
    (hlanes : LanesPastHalf n c.shared.registry.currentVersion c.shared.registry.lanes)
    (hall : c.AllWrappers (Wrappers.Fits n c.shared.registry.currentVersion))
    (hpc : pc.Fits n c.shared.registry.currentVersion) (hok : c.advancePut H pc = .ok (c', pc')) :
    KeepsEpochs c.shared.registry c'.shared.registry ∧
    c'.AllWrappers (Wrappers.Fits n c.shared.registry.currentVersion) ∧
    pc'.Fits n c.shared.registry.currentVersion := by
  cases pc with
  | idle =>
      cases hok
      exact ⟨.refl _, hall, trivial⟩
  | checked key val =>
      rcases lookAtSlots_cases hok with ⟨rfl, rfl⟩ | ⟨w, st, hst, rfl, rfl⟩ | ⟨t, hsel, rfl, rfl⟩
      · exact ⟨.refl _, hall, trivial⟩
      · exact ⟨commit_keepsEpochs hst, ⟨hall.own, hall.remote⟩, trivial⟩
      · exact ⟨.refl _, hall, hall.select hsel⟩
  | loadVersion t =>
      simp only [ClientView.advancePut] at hok
      split at hok
      · cases hok
        exact ⟨.refl _, hall, trivial⟩
      · cases hok
        exact ⟨.refl _, hall, hpc, le_refl _⟩
  | fetchAdd t ver =>
      simp only [ClientView.advancePut] at hok
      split at hok
      · cases hok
      · cases hok
        refine ⟨⟨rfl, fun _ => rfl, fun _ => rfl, rfl, fun i => ?_⟩, ⟨hall.own, hall.remote⟩, hpc.1, hpc.2,
          fetchAdd_index hlanes hfit.slot hpc.1 hpc.2⟩
        exact c.shared.registry.lanes.le_allocRemoteDataSlot c.region.remoteLaneId 0 i
  | compare t ver idx =>
      simp only [ClientView.advancePut] at hok
      split at hok
      · cases hok
        exact ⟨.refl _, hall, trivial⟩
      · cases hok
        exact ⟨.refl _, hall, hpc.1.mono hpc.2.1⟩
  | writeEntry t idx =>
      obtain ⟨pd, -, hok⟩ := Lib.bind_eq_ok.mp hok
      cases hok
      refine ⟨⟨rfl, fun _ => rfl, fun _ => rfl, ?_, fun i => ?_⟩, ⟨hall.own, hall.remote⟩, hpc⟩
      · show (if c.process.registryMapped then c.shared.registry.lanes else c.shared.registry.lanes).memThreads = _
        rw [ite_self]
      · show _ ≤ (if c.process.registryMapped then c.shared.registry.lanes
          else c.shared.registry.lanes).laneNextFreeIndex i
        rw [ite_self]
  | writeSlot t idx =>
      cases hok
      refine ⟨⟨rfl, fun _ => rfl, fun _ => rfl, ?_, fun i => ?_⟩, ⟨hall.own, hall.remote⟩, trivial⟩
      · show (if c.process.registryMapped then c.shared.registry.lanes else c.shared.registry.lanes).memThreads = _
        rw [ite_self]
      · show _ ≤ (if c.process.registryMapped then c.shared.registry.lanes
          else c.shared.registry.lanes).laneNextFreeIndex i
        rw [ite_self]

/-- An index that passes the comparison with the mapped region's own epoch lies inside; no other access chooses one. -/
theorem advancePut_inside (hfit : EpochsFit n c.shared.registry)
    (hpc : pc.Fits n c.shared.registry.currentVersion)
    (hown : pc.ComparesOwn c.shared.registry) (hin : pc.Inside) (hok : c.advancePut H pc = .ok (c', pc')) : pc'.Inside := by
  cases pc with
  | idle =>
      cases hok
      trivial
  | checked key val =>
      rcases lookAtSlots_cases hok with ⟨-, rfl⟩ | ⟨-, -, -, -, rfl⟩ | ⟨-, -, -, rfl⟩ <;> trivial
  | loadVersion t =>
      simp only [ClientView.advancePut] at hok
      split at hok <;> cases hok <;> trivial
  | fetchAdd t ver =>
      simp only [ClientView.advancePut] at hok
      split at hok <;> cases hok
      trivial
  | compare t ver idx =>
      simp only [ClientView.advancePut] at hok
      split at hok
      · cases hok
        trivial
      · rename_i hlt
        have hlt : idx < (c.shared.registry.epochOf ver).geometry.numDataEntries := Nat.not_le.mp hlt
        have hver := hown hlt
        cases hok
        show idx < t.wrappers.numDataEntries
        -- the epoch is that of the mapped version, and both are as large as it is
        have hentries := hfit.entries (ver % kMaxEpochSlots) (by
          rw [show (c.shared.registry.epoch (ver % kMaxEpochSlots)).version = t.wrappers.ver from hver]
          exact hpc.1.pos.ne')
        rw [show (c.shared.registry.epoch (ver % kMaxEpochSlots)).version = t.wrappers.ver from hver,
          ← hpc.1.entries] at hentries
        exact lt_of_lt_of_eq hlt hentries
  | writeEntry t idx =>
      obtain ⟨pd, -, hok⟩ := Lib.bind_eq_ok.mp hok
      cases hok
      exact hin
  | writeSlot t idx =>
      cases hok
      trivial

end Advance

/-! ## Every interleaving -/

/-- Everything in the world agrees with the sizes of the versions. -/
structure PutInv (n : Nat) (w : PutWorld) : Prop where
  regions : RegionsFit n w.world
  views : ∀ tid, (w.world.view tid).AllWrappers (Wrappers.Fits n w.registry.currentVersion)
  pcs : ∀ tid, (w.pc tid).Fits n w.registry.currentVersion

/-- The condition on a step. -/
def ComparesOwn (w : PutWorld) : PutStep → Prop
  | .world _ => True
  | .advance tid => (w.pc tid).ComparesOwn w.registry

instance (w : PutWorld) (a : PutStep) : Decidable (ComparesOwn w a) := by
  cases a <;> unfold ComparesOwn <;> infer_instance

/-- No put is about to write at an index outside the region it maps. -/
def PutWorld.Inside (w : PutWorld) : Prop := ∀ tid, (w.pc tid).Inside

section Runs

variable {n : Nat} {H : HashFn} {w w' : PutWorld} {tid : Nat}

/-- **The inversion of a step**: nothing, the version check of a put, a step of the coarser world, or an access. -/
theorem putStep_cases {a : PutStep} (hok : w.step H a = .ok w') :
    w' = w ∨
    (∃ tid env key val,
      w' = w.putView tid ((w.world.view tid).maybeCheckVersion tid env) (.checked key val)) ∨
    (∃ b w₁, w.world.step H b = .ok w₁ ∧ w' = { w with world := w₁ }) ∨
    (∃ tid c pc, a = .advance tid ∧ (w.world.view tid).advancePut H (w.pc tid) = .ok (c, pc) ∧
      w' = w.putView tid c pc) := by
  cases a with
  | advance tid =>
      obtain ⟨⟨c, pc⟩, hadv, hok⟩ := Lib.bind_eq_ok.mp hok
      cases hok
      exact Or.inr (Or.inr (Or.inr ⟨tid, c, pc, rfl, hadv, rfl⟩))
  | world b =>
      unfold PutWorld.step at hok
      split at hok
      · split at hok
        · cases hok
          exact Or.inr (Or.inl ⟨_, _, _, _, rfl⟩)
        · cases hok
          exact Or.inl rfl
      · split at hok
        · obtain ⟨w₁, hw₁, hok⟩ := Lib.bind_eq_ok.mp hok
          cases hok
          exact Or.inr (Or.inr (Or.inl ⟨_, w₁, hw₁, rfl⟩))
        · cases hok
          exact Or.inl rfl
      · cases ‹PutStep.world b = PutStep.advance _›

/-- The orchestrator leaves the threads and the processes alone. -/
theorem orchestrate_views {w w' : World} {inp : TickInput} (hok : w.orchestrate H inp = .ok w') (tid : Nat) :
    (w'.view tid).region = (w.view tid).region ∧ (w'.view tid).process = (w.view tid).process := by
  unfold World.orchestrate at hok
  split at hok
  · split at hok
    · cases hok
      exact ⟨rfl, rfl⟩
    · obtain ⟨s, -, hok⟩ := Lib.bind_eq_ok.mp hok
      cases hok
      exact ⟨rfl, rfl⟩
  all_goals
    cases hok
    exact ⟨rfl, rfl⟩

/-- What a thread's step keeps, the world keeps. -/
theorem PutInv.putView {c : ClientView} {pc : PutPc} (h : PutInv n w)
    (hk : KeepsEpochs w.registry c.shared.registry)
    (hall : c.AllWrappers (Wrappers.Fits n w.registry.currentVersion)) (hpc : pc.Fits n w.registry.currentVersion) :
    PutInv n (w.putView tid c pc) := by
  have hcur : (w.putView tid c pc).registry.currentVersion = w.registry.currentVersion := hk.currentVersion
  refine ⟨h.regions.keeps (s := { w.world.server with shared := c.shared }) _ _ hk, fun t => ?_, fun t => ?_⟩
  · rw [hcur]
    exact World.allWrappers_putView h.views hall t
  · rw [hcur]
    show (Function.update w.pc tid pc t).Fits n w.registry.currentVersion
    by_cases ht : t = tid
    · subst ht
      rw [Function.update_self]
      exact hpc
    · rw [Function.update_of_ne ht]
      exact h.pcs t

theorem PutWorld.Inside.putView {c : ClientView} {pc : PutPc} (h : w.Inside) (hpc : pc.Inside) :
    (w.putView tid c pc).Inside := by
  intro t
  show (Function.update w.pc tid pc t).Inside
  by_cases ht : t = tid
  · subst ht
    rw [Function.update_self]
    exact hpc
  · rw [Function.update_of_ne ht]
    exact h t

/-- A step of the coarser world. -/
theorem PutInv.world {a : WorldStep} {w₁ : World} (h : PutInv n w) (hok : w.world.step H a = .ok w₁) :
    PutInv n { w with world := w₁ } := by
  -- a client's step, through its view
  have hput : ∀ tid c, KeepsEpochs w.registry c.shared.registry →
      c.AllWrappers (Wrappers.Fits n w.registry.currentVersion) → PutInv n { w with world := w.world.putView tid c } := by
    intro tid c hk hall
    have hstay : PutInv n (w.putView tid c (w.pc tid)) := h.putView hk hall (h.pcs tid)
    unfold PutWorld.putView at hstay
    rwa [Function.update_eq_self] at hstay
  -- the orchestrator's, which may publish
  have horch : RegionsFit n w₁ → w.registry.currentVersion ≤ w₁.server.registry.currentVersion →
      (∀ tid, (w₁.view tid).region = (w.world.view tid).region ∧ (w₁.view tid).process = (w.world.view tid).process) →
      PutInv n { w with world := w₁ } := by
    intro hfit hle hsame
    refine ⟨hfit, fun tid => ⟨fun wr hwr => ?_, fun r hr => ?_⟩, fun tid => (h.pcs tid).mono hle⟩
    · exact ((h.views tid).own wr ((hsame tid).1 ▸ hwr)).mono hle
    · exact ((h.views tid).remote r ((hsame tid).2 ▸ hr)).mono hle
  cases a with
  | connect tid env =>
      cases hok
      exact hput tid _ (connect_data (w.world.view tid) tid env).keepsEpochs
        ((h.views tid).connect h.regions.epochs.ofEpoch tid env)
  | client tid env op =>
      obtain ⟨c, hc, hok⟩ := Lib.bind_eq_ok.mp hok
      cases hok
      obtain ⟨hk, hall⟩ := clientStep_keepsEpochs h.regions.epochs (h.views tid) hc
      exact hput tid c hk hall
  | orchestrator inp =>
      have hsame := orchestrate_views hok
      cases hcopy : w.world.copy with
      | none =>
          obtain ⟨hfit, hcur⟩ := h.regions.orchestrate_idle hcopy hok
          exact horch hfit (le_of_eq hcur.symm) hsame
      | some p =>
          obtain ⟨phase, plan⟩ := p
          obtain ⟨hfit, hle⟩ := h.regions.orchestrate_copying hcopy hok
          exact horch hfit hle hsame

/-- **One step.** -/
theorem PutInv.step {a : PutStep} (h : PutInv n w) (hok : w.step H a = .ok w') : PutInv n w' := by
  rcases putStep_cases hok with rfl | ⟨tid, env, key, val, rfl⟩ | ⟨a, w₁, ha, rfl⟩ | ⟨tid, c, pc, -, hadv, rfl⟩
  · exact h
  · exact h.putView (maybeCheckVersion_data (w.world.view tid) tid env).keepsEpochs
      ((h.views tid).maybeCheckVersion h.regions.epochs.ofEpoch tid env) trivial
  · exact h.world ha
  · obtain ⟨hk, hall, hpc⟩ := advancePut_fits h.regions.epochs h.regions.lanes (h.views tid) (h.pcs tid) hadv
    exact h.putView hk hall hpc

/-- And one that meets the condition leaves every put inside its region. -/
theorem PutInv.step_inside {a : PutStep} (h : PutInv n w) (hin : w.Inside) (hC : ComparesOwn w a)
    (hok : w.step H a = .ok w') : w'.Inside := by
  rcases putStep_cases hok with rfl | ⟨tid, env, key, val, rfl⟩ | ⟨a, w₁, ha, rfl⟩ | ⟨tid, c, pc, rfl, hadv, rfl⟩
  · exact hin
  · exact hin.putView trivial
  · exact hin
  · exact hin.putView (advancePut_inside (c := w.world.view tid) h.regions.epochs (h.pcs tid) hC (hin tid) hadv)

theorem putInv_start {cp : ExactLudo} {existKeys : List U64} {memThreads : Nat} {alien : U64 → Bool}
    {regMem : Nat → PackedStruct} {packedStruct : PackedStruct} {st : Store}
    (hset : setupLudoTable H cp existKeys memThreads alien regMem packedStruct = .ok st) (sSlow sStop : Nat)
    (lookup : Nat → DataPlaneLudo) (proc lane : Nat → Nat) :
    PutInv st.packed.numElements ((st.server sSlow sStop).putWorld lookup proc lane) := by
  obtain ⟨st', hset', -, -, hlanes, -, hel, -⟩ :=
    setupLudoTable_ok H cp existKeys memThreads alien regMem packedStruct
  obtain rfl : st' = st := Except.ok.inj (hset'.symm.trans hset)
  have hentries : entriesAt st'.packed.numElements 1 = st'.packed.numElements := Nat.mul_one _
  refine ⟨⟨⟨(by decide : 1 % kMaxEpochSlots ≠ 0), rfl, fun i hi => ?_⟩, fun i hi => ?_, fun _ _ h => (by cases h)⟩,
    fun _ => ⟨fun _ h => (by cases h), fun _ h => (by cases h)⟩, fun _ => trivial⟩
  · by_cases h1 : i = 1
    · subst h1
      exact hentries.symm
    · exact absurd (congrArg ResizeEpoch.version (if_neg h1)) hi
  · have hi : i < st'.lanes.lanes := hi
    rw [hlanes, setupLanes_lanes] at hi
    show entriesAt st'.packed.numElements 1 ≤ st'.lanes.laneNextFreeIndex i * 2
    rw [hentries, hlanes, hel]
    show _ ≤ (if i < effectiveMemThreads memThreads then existKeys.length + i else 2 * existKeys.length) * 2
    rw [if_pos hi]
    omega

end Runs

/-- **The index a put got lies inside the region it maps, as long as it is compared with that region's epoch.** From any
    bulk load and any thresholds, for any number of processes and threads, in every interleaving of the accesses of
    `numa_put`, other operations, connects, ticks and the steps of `do_copy` that meets `ComparesOwn`, no put gets to
    write an entry or a slot word at an index outside. And in every run: when the allocator has loaded another version
    than the mapped one, the index it took lies outside the mapped region. -/
theorem alloc_inside {H : HashFn} {cp : ExactLudo} {existKeys : List U64} {memThreads : Nat} {alien : U64 → Bool}
    {regMem : Nat → PackedStruct} {packedStruct : PackedStruct} {st : Store} {sSlow sStop : Nat}
    {lookup : Nat → DataPlaneLudo} {proc lane : Nat → Nat}
    (hset : setupLudoTable H cp existKeys memThreads alien regMem packedStruct = .ok st) :
    (∀ w, Lib.Reaches (PutWorld.step H) ComparesOwn ((st.server sSlow sStop).putWorld lookup proc lane) w → w.Inside) ∧
    ∀ w, Lib.Reaches (PutWorld.step H) Lib.anyStep ((st.server sSlow sStop).putWorld lookup proc lane) w →
      ∀ tid t ver idx, w.pc tid = .compare t ver idx → ver ≠ t.wrappers.ver → t.wrappers.numDataEntries ≤ idx := by
  have hstart := putInv_start hset sSlow sStop lookup proc lane
  constructor
  · intro w hrun
    have hboth : PutInv st.packed.numElements w ∧ w.Inside :=
      hrun.invariant (P := fun w => PutInv st.packed.numElements w ∧ w.Inside) ⟨hstart, fun _ => trivial⟩
        (fun _ _ _ h hC hstep => ⟨h.1.step hstep, h.1.step_inside h.2 hC hstep⟩)
    exact hboth.2
  · intro w hrun tid t ver idx hpc hne
    have hinv : PutInv st.packed.numElements w := hrun.invariant hstart (fun _ _ _ h _ hstep => h.step hstep)
    have hfits := hinv.pcs tid
    rw [hpc] at hfits
    exact hfits.2.2 (lt_of_le_of_ne hfits.1.le (Ne.symm hne))

/-- One process with one thread over the one-key store. -/
def sevenPutWorld : PutWorld := sevenServer.putWorld (fun _ => (rowStore 423 0 [7]).lookup) id (fun _ => 0)

/-- The thread connects, and a put of key 8 passes its version check. -/
def beginPut : List PutStep := [.world (.connect 0 raceEnv), .world (.client 0 raceEnv (.write (.put 0 8 80)))]

/-- The put allocates while version 1 is current. -/
theorem alloc_inside_seven : ∃ w, Lib.Reaches (PutWorld.step fastHasher64) ComparesOwn sevenPutWorld w ∧
    (∃ t idx, w.pc 0 = .writeEntry t idx ∧ idx < t.wrappers.numDataEntries) ∧ w.Inside := by
  have hset := rowStore_setup 423 0 [7]
  obtain ⟨w, hrun, hw⟩ : ∃ w, Lib.Reaches (PutWorld.step fastHasher64) ComparesOwn sevenPutWorld w ∧
      decide (w.pc 0 = .writeEntry ⟨⟨1, 512, 2⟩, 8, 80, (rowStore 423 0 [7]).lookup.row fastHasher64 8,
        (rowStore 423 0 [7]).lookup.slot fastHasher64 8⟩ 1) = true := Lib.exists_along
    (beginPut ++ List.replicate 4 (.advance 0)) (by decide +kernel)
  have hpc := of_decide_eq_true hw
  exact ⟨w, hrun, ⟨_, 1, hpc, by decide⟩, (alloc_inside hset).1 w hrun⟩

/-- `do_copy` stores version 2 behind the version check: the put of two entries' room gets index 2. -/
theorem alloc_outside : ¬ ∀ w, Lib.Reaches (PutWorld.step fastHasher64) Lib.anyStep sevenPutWorld w → w.Inside := by
  intro h
  obtain ⟨w, hrun, hw⟩ : ∃ w, Lib.Reaches (PutWorld.step fastHasher64) Lib.anyStep sevenPutWorld w ∧
      decide (¬ (w.pc 0).Inside) = true := Lib.exists_along
    (beginPut ++ List.replicate 7 (.world (.orchestrator calmTick)) ++ List.replicate 4 (.advance 0)) (by decide +kernel)
  exact of_decide_eq_true hw (h w hrun 0)

end Outback
