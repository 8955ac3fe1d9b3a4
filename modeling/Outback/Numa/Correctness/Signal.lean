import Outback.Numa.Correctness.Accesses
import Outback.Numa.Correctness.TickStores

/-!
# `Numa.Correctness.Signal` — the generation word as a change signal

A thread records the version it mapped and, a few accesses later, the generation. **`signal_sound`**: in every run in
which that second load comes while the version loaded before is still current, or before its successor is signalled, a
thread outside the three calls whose generation is the registry's is on the current version, so that the fast path of
`maybe_check_version` skips no remap. **`signal_missed`** is the run in which a whole publication fits between the two
loads: the thread takes over the new generation together with the old version, and stays on the old region.
-/

namespace Outback

/-- The fast path skips no needed remap: outside the window between the store of `current_version` and the increment of
    `generation`, a thread that has mapped a region and is in none of the calls is on the current version whenever its
    generation is the registry's. -/
def SignalSound (w : FineWorld) : Prop :=
  w.unsignalled = false → ∀ tid, (w.threads tid).pc = .idle → (w.threads tid).region.mapping.isSome = true →
    (w.threads tid).region.localGeneration = w.registry.generation →
    (w.threads tid).region.localVersion = w.registry.currentVersion

/-- The load of `generation` of a connect or a remap comes in time: the version loaded before is still current, or the
    new one is not signalled yet. -/
def ClientPc.InTime (w : FineWorld) : ClientPc → Prop
  | .loadGeneration _ ver => ver = w.registry.currentVersion ∨ w.unsignalled = true
  | _ => True

instance (w : FineWorld) (pc : ClientPc) : Decidable (pc.InTime w) :=
  match pc with
  | .loadGeneration _ _ => inferInstanceAs (Decidable (_ ∨ _))
  | .idle | .checkReady | .loadVersion _ | .loadPublished _ _ | .claimSlot _ | .countClient _ | .openRegion _ _
  | .acknowledge _ | .heartbeat | .checkVersion _ => inferInstanceAs (Decidable True)

/-- Every such load of the run comes in time. -/
def LoadsInTime (w : FineWorld) : FineStep → Prop
  | .advance tid _ => (w.threads tid).pc.InTime w
  | _ => True

instance (w : FineWorld) (a : FineStep) : Decidable (LoadsInTime w a) :=
  match a with
  | .advance tid _ => inferInstanceAs (Decidable ((w.threads tid).pc.InTime w))
  | .tick _ | .store | .connect _ _ | .check _ | .operate _ _ => inferInstanceAs (Decidable True)

/-! ## The invariant -/

/-- The thread's two counters against the registry's two words. -/
def CountersOk (reg : SharedNumaRegistry) (unsignalled : Bool) (r : ClientRegionState) : Prop :=
  r.mapping.isSome = true → r.localGeneration ≤ reg.generation ∧
    (r.localVersion = reg.currentVersion ∨ r.localGeneration < reg.generation ∨ unsignalled = true)

/-- What every thread keeps. Between the two loads of an attach its generation is not yet that of its version. -/
structure ThreadSignal (reg : SharedNumaRegistry) (unsignalled : Bool) (t : FineThread) : Prop where
  counters : (∀ call ver, t.pc ≠ .loadGeneration call ver) → CountersOk reg unsignalled t.region
  loaded : ∀ call ver, t.pc = .loadGeneration call ver →
    t.region.localVersion = ver ∧ t.region.mapping.isSome = true
  checking : ∀ gen, t.pc = .checkVersion gen → gen ≤ reg.generation

section Thread

variable {reg reg' : SharedNumaRegistry} {u : Bool} {t : FineThread}

theorem ThreadSignal.congr (h : ThreadSignal reg u t) (hver : reg'.currentVersion = reg.currentVersion)
    (hgen : reg'.generation = reg.generation) : ThreadSignal reg' u t := by
  refine ⟨?_, h.loaded, ?_⟩
  · unfold CountersOk
    rw [hver, hgen]
    exact h.counters
  · rw [hgen]
    exact h.checking

/-- The store of `current_version` opens the window. -/
theorem ThreadSignal.version (h : ThreadSignal reg u t) (hgen : reg'.generation = reg.generation) :
    ThreadSignal reg' true t := by
  refine ⟨fun hpc hmap => ?_, h.loaded, ?_⟩
  · rw [hgen]
    exact ⟨(h.counters hpc hmap).1, Or.inr (Or.inr rfl)⟩
  · rw [hgen]
    exact h.checking

/-- The increment of `generation` leaves every thread behind that is not on the current version. -/
theorem ThreadSignal.generation (h : ThreadSignal reg u t) (hgen : reg'.generation = reg.generation + 1) (u' : Bool) :
    ThreadSignal reg' u' t := by
  refine ⟨fun hpc hmap => ?_, h.loaded, fun gen hg => ?_⟩
  · have hle := (h.counters hpc hmap).1
    exact ⟨by omega, Or.inr (Or.inl (by omega))⟩
  · have hle := h.checking gen hg
    omega

/-- A call begins, or an operation is over. -/
theorem ThreadSignal.start (h : ThreadSignal reg u t) (hidle : t.pc = .idle) (pc : ClientPc)
    (hload : ∀ call ver, pc ≠ .loadGeneration call ver) (hcheck : ∀ gen, pc = .checkVersion gen → gen ≤ reg.generation) :
    ThreadSignal reg u ⟨t.proc, t.region, pc⟩ := by
  refine ⟨fun _ => h.counters (fun call ver => ?_), fun call ver heq => absurd heq (hload call ver), hcheck⟩
  rw [hidle]
  exact ClientPc.noConfusion

end Thread

/-! ## Stores of the orchestrator -/

/-- What a store does to the two words, and whether it opens or closes the window. -/
theorem stored_words {H : HashFn} {w : FineWorld} {a : OrchStore} {s : Server} (h : w.server.exec H a = .ok s)
    (prog : List OrchStore) :
    (s.registry.currentVersion = w.registry.currentVersion ∧ s.registry.generation = w.registry.generation ∧
      (w.stored a prog s).unsignalled = w.unsignalled) ∨
    (s.registry.generation = w.registry.generation + 1 ∧ (w.stored a prog s).unsignalled = false) ∨
    (s.registry.generation = w.registry.generation ∧ (w.stored a prog s).unsignalled = true) := by
  have hwrites := exec_writes h
  cases a with
  | generation => exact Or.inr (Or.inl ⟨hwrites.generation, rfl⟩)
  | currentVersion v => exact Or.inr (Or.inr ⟨hwrites.generation, rfl⟩)
  | blocked | resizeState | createRegion | copyPacked | copyBuckets | fillEpoch | resetLanes | published
  | previousVersion | switchRegion | newWrappers | dropPendingAck | ackWaitStart | replay | cleanupAllowed | gcStartTime
  | reclaimOld => exact Or.inl ⟨hwrites.currentVersion, hwrites.generation, rfl⟩

/-! ## Accesses of a thread -/

/-- The counters that the signal is about, and whether a region is mapped. -/
def SameCounters (r r' : ClientRegionState) : Prop :=
  r'.mapping.isSome = r.mapping.isSome ∧ r'.localVersion = r.localVersion ∧ r'.localGeneration = r.localGeneration

theorem unmapOld_counters (c : ClientView) (tid : Nat) : SameCounters c.region (c.unmapOld tid).region := by
  unfold ClientView.unmapOld
  split
  · exact ⟨rfl, rfl, rfl⟩
  · rename_i m hm
    refine ⟨?_, rfl, rfl⟩
    rw [hm]
    rfl

/-- The accesses apart from the three that are about the counters. -/
theorem advance_sameCounters (c : ClientView) (tid : Nat) (env : OpEnv) {pc : ClientPc}
    (hopen : ∀ call ver, pc ≠ .openRegion call ver) (hload : ∀ call ver, pc ≠ .loadGeneration call ver)
    (hcheck : ∀ gen, pc ≠ .checkVersion gen) :
    SameCounters c.region (c.advance tid env pc).1.region ∧
    (∀ call ver, (c.advance tid env pc).2 ≠ .loadGeneration call ver) ∧
    ∀ gen, (c.advance tid env pc).2 ≠ .checkVersion gen := by
  have hsame : SameCounters c.region c.region := ⟨rfl, rfl, rfl⟩
  cases pc with
  | idle | countClient | acknowledge | heartbeat => exact ⟨hsame, by simp [ClientView.advance], by simp [ClientView.advance]⟩
  | checkReady | claimSlot =>
      simp only [ClientView.advance]
      split <;> exact ⟨hsame, by simp, by simp⟩
  | loadVersion call =>
      cases call with
      | connect => exact ⟨hsame, by simp [ClientView.advance], by simp [ClientView.advance]⟩
      | remap =>
          simp only [ClientView.advance]
          split <;> exact ⟨hsame, by simp, by simp⟩
  | loadPublished call ver =>
      cases call with
      | connect =>
          simp only [ClientView.advance]
          split <;> exact ⟨hsame, by simp, by simp⟩
      | remap =>
          simp only [ClientView.advance]
          split
          · exact ⟨hsame, by simp, by simp⟩
          · exact ⟨unmapOld_counters c tid, by simp, by simp⟩
  | openRegion call ver => exact absurd rfl (hopen call ver)
  | loadGeneration call ver => exact absurd rfl (hload call ver)
  | checkVersion gen => exact absurd rfl (hcheck gen)

/-- The region is opened, or not: the version is recorded, the generation is not. -/
theorem ThreadSignal.openRegion {c : ClientView} {u : Bool} {proc : Nat} {call : Attaching} {ver : Nat}
    (h : ThreadSignal c.shared.registry u ⟨proc, c.region, .openRegion call ver⟩) (tid : Nat) (env : OpEnv) :
    ThreadSignal c.shared.registry u
      ⟨proc, (c.advance tid env (.openRegion call ver)).1.region, (c.advance tid env (.openRegion call ver)).2⟩ := by
  have hbuilt : ThreadSignal c.shared.registry u ⟨proc, (c.buildWrappers ver env).region, .loadGeneration call ver⟩ := by
    refine ⟨fun hno => absurd rfl (hno call ver), ?_, fun gen heq => ClientPc.noConfusion heq⟩
    rintro call' ver' ⟨⟩
    exact ⟨rfl, rfl⟩
  have hfailed : ThreadSignal c.shared.registry u ⟨proc, c.region, .idle⟩ :=
    ⟨fun _ => h.counters (by simp), by simp, by simp⟩
  cases call <;> simp only [ClientView.advance] <;> split
  · exact hfailed
  · exact hbuilt
  · exact hfailed
  · exact hbuilt

/-- The generation is loaded in time: it is that of the version recorded before. -/
theorem ThreadSignal.loadGeneration {c : ClientView} {u : Bool} {proc : Nat} {call : Attaching} {ver : Nat}
    (h : ThreadSignal c.shared.registry u ⟨proc, c.region, .loadGeneration call ver⟩) (tid : Nat)
    (htime : ver = c.shared.registry.currentVersion ∨ u = true) :
    ThreadSignal c.shared.registry u ⟨proc, (c.takeGeneration tid call ver).region, .acknowledge ver⟩ := by
  have hver : c.region.localVersion = ver := (h.loaded call ver rfl).1
  have htaken : (c.takeGeneration tid call ver).region
      = { c.region with localGeneration := c.shared.registry.generation } := by
    cases call <;> rfl
  refine ⟨fun _ => ?_, by simp, by simp⟩
  show CountersOk c.shared.registry u (c.takeGeneration tid call ver).region
  rw [htaken]
  intro _
  refine ⟨le_refl _, ?_⟩
  rcases htime with hcur | hopen
  · exact Or.inl (hver.trans hcur)
  · exact Or.inr (Or.inr hopen)

/-- **The next access of a thread.** -/
theorem ThreadSignal.advance {c : ClientView} {u : Bool} {t : FineThread} (h : ThreadSignal c.shared.registry u t)
    (hr : t.region = c.region) (tid : Nat) (env : OpEnv)
    (htime : ∀ call ver, t.pc = .loadGeneration call ver → ver = c.shared.registry.currentVersion ∨ u = true) :
    ThreadSignal c.shared.registry u
      ⟨t.proc, (c.advance tid env t.pc).1.region, (c.advance tid env t.pc).2⟩ := by
  obtain ⟨proc, region, pc⟩ := t
  obtain rfl : region = c.region := hr
  -- three accesses are about the counters; any other leaves them alone
  have hkeep : (∀ call ver, pc ≠ .openRegion call ver) → (∀ call ver, pc ≠ .loadGeneration call ver) →
      (∀ gen, pc ≠ .checkVersion gen) →
      ThreadSignal c.shared.registry u ⟨proc, (c.advance tid env pc).1.region, (c.advance tid env pc).2⟩ := by
    intro hopen hload hcheck
    obtain ⟨⟨hmap, hver, hgen⟩, hload', hcheck'⟩ := advance_sameCounters c tid env hopen hload hcheck
    refine ⟨fun _ => ?_, fun call ver heq => absurd heq (hload' call ver), fun gen heq => absurd heq (hcheck' gen)⟩
    have hold := h.counters hload
    unfold CountersOk at hold ⊢
    rw [hmap, hver, hgen]
    exact hold
  cases pc with
  | openRegion call ver => exact h.openRegion tid env
  | loadGeneration call ver => exact h.loadGeneration tid (htime call ver rfl)
  | checkVersion gen =>
      simp only [ClientView.advance]
      split
      · exact ⟨fun _ => h.counters (by simp), by simp, by simp⟩
      · -- the version is the current one, and the generation was the registry's when it was loaded
        rename_i hver
        have hver : c.shared.registry.currentVersion = c.region.localVersion := not_not.mp hver
        exact ⟨fun _ _ => ⟨h.checking gen rfl, Or.inl hver.symm⟩, by simp, by simp⟩
  | idle | checkReady | loadVersion | loadPublished | claimSlot | countClient | acknowledge | heartbeat =>
      exact hkeep (by simp) (by simp) (by simp)

/-! ## Whole runs -/

/-- What every world that guarded steps reach keeps. -/
def SignalInv (w : FineWorld) : Prop := ∀ tid, ThreadSignal w.registry w.unsignalled (w.threads tid)

section World

variable {H : HashFn} {w w' : FineWorld}

/-- A thread's step that moves neither word: the others do not notice. -/
theorem SignalInv.putView (h : SignalInv w) (tid : Nat) {c : ClientView} {pc : ClientPc}
    (hver : c.shared.registry.currentVersion = w.registry.currentVersion)
    (hgen : c.shared.registry.generation = w.registry.generation)
    (hown : ThreadSignal w.registry w.unsignalled ⟨(w.threads tid).proc, c.region, pc⟩) :
    SignalInv (w.putView tid c pc) := by
  intro i
  have hreg : ∀ {t : FineThread}, ThreadSignal w.registry w.unsignalled t →
      ThreadSignal (w.putView tid c pc).registry (w.putView tid c pc).unsignalled t := fun ht => ht.congr hver hgen
  by_cases hi : i = tid
  · subst hi
    rw [FineWorld.putView_threads_self]
    exact hreg hown
  · rw [FineWorld.putView_threads_of_ne _ _ _ _ hi]
    exact hreg (h i)

/-- **One step of the world.** -/
theorem SignalInv.step {a : FineStep} (h : SignalInv w) (htime : LoadsInTime w a) (hok : w.step H a = .ok w') :
    SignalInv w' := by
  rcases FineWorld.step_cases hok with rfl | ⟨inp, -, -, rfl⟩ | ⟨st, prog, s, -, -, hs, rfl⟩ |
    ⟨tid, c, pc, hidle, hsh, hregion, hpc, rfl⟩ | ⟨tid, env, rfl, rfl⟩ | ⟨tid, op, c, -, hidle, hc, rfl⟩
  · exact h
  · exact h
  · -- a store of the orchestrator
    intro tid
    show ThreadSignal s.registry (w.stored st prog s).unsignalled (w.threads tid)
    -- neither word, the generation, or the version
    rcases stored_words hs prog with ⟨hver, hgen, hsig⟩ | ⟨hgen, hsig⟩ | ⟨hgen, hsig⟩
    · rw [hsig]
      exact (h tid).congr hver hgen
    · rw [hsig]
      exact (h tid).generation hgen false
    · rw [hsig]
      exact (h tid).version hgen
  · -- a call begins
    refine h.putView tid ?_ ?_ ?_
    · rw [hsh]
      rfl
    · rw [hsh]
      rfl
    · rw [hregion]
      rcases hpc with rfl | rfl | rfl
      · exact (h tid).start hidle _ (by simp) (by simp)
      · exact (h tid).start hidle _ (by simp) (by simp)
      · refine (h tid).start hidle _ (by simp) ?_
        rintro gen ⟨⟩
        exact le_refl _
  · -- a thread goes on
    have hwords := advance_words (w.view tid) tid env (w.threads tid).pc
    have htime' : ∀ call ver, (w.threads tid).pc = .loadGeneration call ver →
        ver = w.registry.currentVersion ∨ w.unsignalled = true := by
      intro call ver hpc
      simp only [LoadsInTime, hpc, ClientPc.InTime] at htime
      exact htime
    have hown := ThreadSignal.advance (c := w.view tid) (h tid) rfl tid env htime'
    exact h.putView tid hwords.1 hwords.2 hown
  · -- a data operation
    obtain ⟨hregion, l, hreg⟩ := operate_keeps hc
    have hown := (h tid).start hidle .idle (by simp) (by simp)
    refine h.putView tid ?_ ?_ ?_
    · rw [hreg]
      rfl
    · rw [hreg]
      rfl
    · rw [hregion]
      exact hown

/-- What an access of thread `tid` does, at its counter `pc`, to the thread and to the two words. -/
theorem FineWorld.advance_thread (w : FineWorld) {tid : Nat} (env : OpEnv) {pc : ClientPc}
    (hpc : (w.threads tid).pc = pc) :
    ((w.advance tid env).threads tid).pc = ((w.view tid).advance tid env pc).2 ∧
    ((w.advance tid env).threads tid).region = ((w.view tid).advance tid env pc).1.region ∧
    (w.advance tid env).registry.currentVersion = w.registry.currentVersion ∧
    (w.advance tid env).registry.generation = w.registry.generation := by
  subst hpc
  have hself := FineWorld.putView_threads_self w tid ((w.view tid).advance tid env (w.threads tid).pc).1
    ((w.view tid).advance tid env (w.threads tid).pc).2
  exact ⟨congrArg FineThread.pc hself, congrArg FineThread.region hself, advance_words (w.view tid) tid env _⟩

/-- A load that comes late is not made good: the thread that finishes its call takes the new generation over to the old
    version. -/
theorem SignalInv.late_load (h : SignalInv w) {tid : Nat} {env : OpEnv} (hlate : ¬ LoadsInTime w (.advance tid env)) :
    ∃ w', Lib.Reaches (FineWorld.step H) Lib.anyStep w w' ∧ ¬ SignalSound w' := by
  obtain ⟨call, ver, hpc⟩ : ∃ call ver, (w.threads tid).pc = .loadGeneration call ver := by
    cases hpc : (w.threads tid).pc with
    | loadGeneration call ver => exact ⟨call, ver, rfl⟩
    | idle | checkReady | loadVersion | loadPublished | claimSlot | countClient | openRegion | acknowledge | heartbeat
    | checkVersion => exact absurd (by simp [LoadsInTime, hpc, ClientPc.InTime]) hlate
  obtain ⟨hver, hmap⟩ := (h tid).loaded call ver hpc
  have hlate : ver ≠ w.registry.currentVersion ∧ w.unsignalled = false := by
    simpa [LoadsInTime, hpc, ClientPc.InTime] using hlate
  -- the load of `generation`, the acknowledgement and the heartbeat
  obtain ⟨hpc₁, hr₁, hv₁, hg₁⟩ := w.advance_thread env hpc
  obtain ⟨hpc₂, hr₂, hv₂, hg₂⟩ := (w.advance tid env).advance_thread env hpc₁
  obtain ⟨hpc₃, hr₃, hv₃, hg₃⟩ := ((w.advance tid env).advance tid env).advance_thread env hpc₂
  have hregion : (((((w.advance tid env).advance tid env).advance tid env).threads tid)).region
      = { (w.threads tid).region with localGeneration := w.registry.generation } := by
    rw [hr₃]
    show (((w.advance tid env).advance tid env).threads tid).region = _
    rw [hr₂]
    show ((w.advance tid env).threads tid).region = _
    rw [hr₁]
    cases call <;> rfl
  refine ⟨_, ((Lib.Reaches.snoc .refl (a := .advance tid env) trivial rfl).snoc (a := .advance tid env) trivial rfl).snoc
    (a := .advance tid env) trivial rfl, fun hsound => ?_⟩
  have hbad := hsound hlate.2 tid hpc₃
  rw [hregion, hv₃, hv₂, hv₁, hg₃, hg₂, hg₁] at hbad
  exact hlate.1 (hver.symm.trans (hbad hmap rfl))

end World

/-- **The generation word is a sound change signal as long as the loads come in time**, from any server, with any number
    of processes and threads: in every world that such a run reaches the fast path skips no remap, and a load that does
    not come in time can be followed by a world in which it does. -/
theorem signal_sound {H : HashFn} {s : Server} {lookup : Nat → DataPlaneLudo} {proc lane : Nat → Nat} {w : FineWorld}
    (hrun : Lib.Reaches (FineWorld.step H) LoadsInTime (s.fineWorld lookup proc lane) w) :
    SignalSound w ∧ ∀ tid env, ¬ LoadsInTime w (.advance tid env) →
      ∃ w', Lib.Reaches (FineWorld.step H) Lib.anyStep w w' ∧ ¬ SignalSound w' := by
  have hinv : SignalInv w := by
    refine hrun.invariant (P := SignalInv) ?_ (fun v a v' hv htime hstep => hv.step htime hstep)
    intro tid
    exact ⟨fun _ hmap => Bool.noConfusion hmap, fun call ver hpc => ClientPc.noConfusion hpc,
      fun gen hpc => ClientPc.noConfusion hpc⟩
  refine ⟨fun hsig tid hidle hmap hgen => ?_, fun tid env hlate => hinv.late_load hlate⟩
  -- outside the window a thread that is not behind in generation is on the current version
  have hpc : ∀ call ver, (w.threads tid).pc ≠ .loadGeneration call ver := by
    rw [hidle]
    exact fun call ver => ClientPc.noConfusion
  rcases ((hinv tid).counters hpc hmap).2 with hver | hlt | hopen
  · exact hver
  · omega
  · rw [hsig] at hopen
    cases hopen

/-- The thread `0` is outside the calls, with the registry's generation and version `ver`. -/
def onVersion (ver : Nat) (w : FineWorld) : Bool :=
  w.unsignalled = false ∧ (w.threads 0).pc = .idle ∧ (w.threads 0).region.mapping.isSome = true ∧
    (w.threads 0).region.localGeneration = w.registry.generation ∧ (w.threads 0).region.localVersion = ver ∧
    w.registry.currentVersion = 2

/-- A client connects, the store is resized, and the client's check finds the new generation and remaps. -/
theorem signal_sound_seven : ∃ w, Lib.Reaches (FineWorld.step fastHasher64) LoadsInTime sevenFineWorld w ∧
    onVersion 2 w = true ∧ SignalSound w := by
  obtain ⟨w, hrun, hw⟩ : ∃ w, Lib.Reaches (FineWorld.step fastHasher64) LoadsInTime sevenFineWorld w ∧
      onVersion 2 w = true := Lib.exists_along
    (.connect 0 calmEnv :: .replicate 9 (.advance 0 calmEnv) ++ .tick calmTick :: .replicate 3 .store ++
      .tick calmTick :: .replicate 17 .store ++ .check 0 :: .replicate 7 (.advance 0 calmEnv)) (by decide +kernel)
  exact ⟨w, hrun, hw, (signal_sound hrun).1⟩

/-- A whole publication between the two loads of a connect. The thread ends with the registry's generation and the old
    version, and its next check is over at once. -/
theorem signal_missed : ∃ w, Lib.Reaches (FineWorld.step fastHasher64) Lib.anyStep sevenFineWorld w ∧
    onVersion 1 w = true ∧ ¬ SignalSound w ∧ (w.view 0).startCheck.2 = .idle := by
  obtain ⟨w, hrun, hw⟩ : ∃ w, Lib.Reaches (FineWorld.step fastHasher64) Lib.anyStep sevenFineWorld w ∧
      onVersion 1 w = true := Lib.exists_along
    (.connect 0 calmEnv :: .replicate 6 (.advance 0 calmEnv) ++ .tick calmTick :: .replicate 3 .store ++
      .tick calmTick :: .replicate 12 .store ++ .replicate 3 (.advance 0 calmEnv)) (by decide +kernel)
  obtain ⟨hsig, hidle, hmap, hgen, hver, hcur⟩ := of_decide_eq_true hw
  refine ⟨w, hrun, hw, fun hsound => ?_, ?_⟩
  · have hbad := hsound hsig 0 hidle hmap hgen
    rw [hver, hcur] at hbad
    cases hbad
  · unfold ClientView.startCheck
    split
    · rfl
    · split
      · rfl
      · rename_i hne
        exact absurd hgen.symm hne

end Outback
