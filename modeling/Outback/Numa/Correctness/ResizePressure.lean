import Outback.Numa.Correctness.ResizeSteps
import Outback.Lib.Reach

/-!
# `Numa.Correctness.ResizePressure` — a resize does not relieve the pressure that triggered it

The thresholds `s_slow` and `s_stop` are computed once, from the entries of the first region, and compared with
absolute lane indices; `do_copy` restarts the lanes at the old number of entries, which is at least `s_stop`.
**`resize_keeps_pressure`**: whenever a copy completes, the highest lane counter is at or past both thresholds. With
no allocation at all, every later `NORMAL` tick starts another resize, and its `PRE_RESIZE` tick publishes another
region as soon as the memory check and the creation succeed.
-/

namespace Outback

/-- What `setup_ludo_table` establishes: the thresholds are fractions of the first epoch's entries. -/
structure Thresholds (s : Server) : Prop where
  slow_le_stop : s.registry.sSlow ≤ s.registry.sStop
  stop_le_entries : s.registry.sStop ≤ s.registry.currentEpoch.geometry.numDataEntries

/-- The lanes are past both thresholds. -/
structure Pressed (s : Server) : Prop where
  thresholds : Thresholds s
  configured : s.registry.sSlow ≠ 0
  stop_le_maxIdx : s.registry.sStop ≤ s.maxIdx

section

variable {H : HashFn} {s s' : Server}

theorem Quiet.currentEpoch (h : Quiet s s') :
    s'.registry.currentEpoch.geometry = s.registry.currentEpoch.geometry := by
  unfold SharedNumaRegistry.currentEpoch
  rw [h.currentVersion, h.geometry]

theorem Thresholds.quiet (h : Thresholds s) (hq : Quiet s s') : Thresholds s' :=
  ⟨by rw [hq.sSlow, hq.sStop]; exact h.slow_le_stop, by rw [hq.sStop, hq.currentEpoch]; exact h.stop_le_entries⟩

theorem Pressed.quiet (h : Pressed s) (hq : Quiet s s') : Pressed s' :=
  ⟨h.thresholds.quiet hq, by rw [hq.sSlow]; exact h.configured,
    by rw [hq.sStop, hq.maxIdx]; exact h.stop_le_maxIdx⟩

/-- Client activity moves neither thresholds nor geometry. -/
theorem Thresholds.clientsWrite (h : Thresholds s) (w : ClientWrites) : Thresholds (s.clientsWrite w) :=
  ⟨h.slow_le_stop, h.stop_le_entries⟩

theorem effectiveLanes_pos (s : Server) : 0 < s.effectiveLanes := by
  unfold Server.effectiveLanes
  split <;> omega

/-- The first lane's counter bounds the maximum from below. -/
theorem lane_le_maxIdx {i : Nat} (hi : i < s.effectiveLanes) : s.registry.lanes.laneNextFreeIndex i ≤ s.maxIdx := by
  have key : ∀ (l : List Nat) (m : Nat), (m ≤ l.foldl (fun m i => max m (s.registry.lanes.laneNextFreeIndex i)) m) ∧
      (i ∈ l → s.registry.lanes.laneNextFreeIndex i
        ≤ l.foldl (fun m i => max m (s.registry.lanes.laneNextFreeIndex i)) m) := by
    intro l
    induction l with
    | nil => exact fun m => ⟨le_refl m, fun h => absurd h (by simp)⟩
    | cons j l ih =>
        intro m
        obtain ⟨h₁, h₂⟩ := ih (max m (s.registry.lanes.laneNextFreeIndex j))
        rw [List.foldl_cons]
        refine ⟨(le_max_left _ _).trans h₁, fun h => ?_⟩
        rcases List.mem_cons.mp h with rfl | h
        · exact (le_max_right _ _).trans h₁
        · exact h₂ h
  exact (key _ 0).2 (List.mem_range.mpr hi)

/-- **The step.** A completed copy leaves the lanes past both thresholds, which it has not rescaled. -/
theorem Thresholds.copied (h : Thresholds s) (hslow : s.registry.sSlow ≠ 0) (g : PackedStruct) :
    Pressed (s.copied s.registry.currentVersion g) := by
  obtain ⟨-, hs, hst, hm, hlane, hgeo, -⟩ := copied_registry s s.registry.currentVersion g
  have hentries : (s.copied s.registry.currentVersion g).registry.currentEpoch.geometry.numDataEntries
      = s.registry.currentEpoch.geometry.numDataEntries * 2 := by rw [hgeo]; rfl
  have hstop := h.stop_le_entries
  have heff : (s.copied s.registry.currentVersion g).effectiveLanes = s.effectiveLanes := by
    unfold Server.effectiveLanes
    rw [hm]
  refine ⟨⟨by rw [hs, hst]; exact h.slow_le_stop, by rw [hst, hentries]; omega⟩, by rw [hs]; exact hslow, ?_⟩
  have h0 := hlane 0 (effectiveLanes_pos s)
  have hle := lane_le_maxIdx (s := s.copied s.registry.currentVersion g) (i := 0) (by
    rw [heff]; exact effectiveLanes_pos s)
  rw [h0] at hle
  rw [hst]
  calc s.registry.sStop ≤ s.registry.currentEpoch.geometry.numDataEntries := hstop
    _ = (s.registry.epochOf s.registry.currentVersion).geometry.numDataEntries + 0 := rfl
    _ ≤ _ := hle

/-- Every step keeps the thresholds below the entries of the current epoch. -/
theorem Thresholds.step (h : Thresholds s) {a : ServerStep} (hok : s.step H a = .ok s') : Thresholds s' := by
  cases a with
  | tick inp =>
      rcases checkState_cases hok with hq | ⟨⟨-, hslow, -⟩, rfl⟩
      · exact h.quiet hq
      · exact (h.copied hslow _).thresholds
  | clients w =>
      cases hok
      exact h.clientsWrite w

/-- Ticks alone keep the pressure. -/
theorem Pressed.tick (h : Pressed s) {inp : TickInput} (hok : s.checkState H inp = .ok s') : Pressed s' := by
  rcases checkState_cases hok with hq | ⟨⟨-, hslow, -⟩, rfl⟩
  · exact h.quiet hq
  · exact h.thresholds.copied hslow _

/-- Under pressure a `NORMAL` tick announces another resize. -/
theorem Pressed.normal_tick (h : Pressed s) (hst : s.registry.resizeState = .normal) (inp : TickInput) :
    ∃ s', s.checkState H inp = .ok s' ∧ s'.registry.resizeState = .preResize := by
  have hmax : s.maxIdx ≥ s.registry.sSlow := h.thresholds.slow_le_stop.trans h.stop_le_maxIdx
  refine ⟨s.maybeTriggerPreResize, by unfold Server.checkState; rw [hst], ?_⟩
  unfold Server.maybeTriggerPreResize
  rw [if_neg h.configured, if_pos hmax]
  rfl

/-- Under pressure a `PRE_RESIZE` tick publishes another region, once memory allows it. -/
theorem Pressed.preResize_tick (h : Pressed s) (hst : s.registry.resizeState = .preResize) {inp : TickInput}
    (hmem : inp.memoryPressureOk = true) (hc : inp.create = .created) :
    ∃ s', s.checkState H inp = .ok s' ∧ s'.registry.currentVersion = nextVersion s.registry.currentVersion := by
  refine ⟨s.copied s.registry.currentVersion inp.packedStruct, ?_, rfl⟩
  unfold Server.checkState
  rw [hst]
  simp only [Server.maybeStartCopying]
  rw [if_neg h.configured, if_neg (Nat.not_lt.mpr h.stop_le_maxIdx), if_neg (by rw [hmem]; decide),
    doCopy_created s _ inp hc]

/-- Only a tick of the orchestrator: no client allocates. -/
def ticksOnly : Server → ServerStep → Prop := fun _ a => ∃ inp, a = .tick inp

/-- **A resize never relieves the pressure that triggered it.** From any server whose thresholds are at most the
    entries of its epoch, after any ticks and any client activity, let a tick complete a copy. Then the highest lane
    counter is not below `s_slow`; and with ticks only from there on, each `NORMAL` tick leaves `NORMAL`, and each
    `PRE_RESIZE` tick that finds memory switches to yet another version. -/
theorem resize_keeps_pressure {s₀ : Server} {inp : TickInput} (h₀ : Thresholds s₀)
    (hrun : Lib.Reaches (Server.step H) Lib.anyStep s₀ s) (hok : s.checkState H inp = .ok s')
    (hcopy : s'.registry.currentVersion ≠ s.registry.currentVersion) :
    ¬ s'.maxIdx < s'.registry.sSlow ∧
      ∀ t, Lib.Reaches (Server.step H) ticksOnly s' t → ∀ inp',
        (t.registry.resizeState = .normal →
          ∃ t', t.checkState H inp' = .ok t' ∧ t'.registry.resizeState = .preResize) ∧
        (t.registry.resizeState = .preResize → inp'.memoryPressureOk = true → inp'.create = .created →
          ∃ t', t.checkState H inp' = .ok t' ∧
            t'.registry.currentVersion = nextVersion t.registry.currentVersion) := by
  have hth : Thresholds s := hrun.invariant h₀ (fun _ _ _ h _ hstep => h.step hstep)
  have hpressed : Pressed s' := by
    rcases checkState_cases hok with hq | ⟨⟨-, hslow, -⟩, rfl⟩
    · exact absurd hq.currentVersion hcopy
    · exact hth.copied hslow _
  refine ⟨Nat.not_lt.mpr (hpressed.thresholds.slow_le_stop.trans hpressed.stop_le_maxIdx), fun t ht inp' => ?_⟩
  have hpt : Pressed t := by
    refine ht.invariant hpressed ?_
    rintro u _ v hu ⟨i, rfl⟩ hstep
    exact hu.tick hstep
  exact ⟨fun hst => hpt.normal_tick hst inp', fun hst hm hc => hpt.preResize_tick hst hm hc⟩

end

/-- The server of a one-key store whose only lane has reached the thresholds (`s_slow = s_stop = 1`). -/
theorem resize_keeps_pressure_seven : ∃ s s', (rowStore 423 0 [7]).server 1 1 ≠ s ∧
    Lib.Reaches (Server.step fastHasher64) Lib.anyStep ((rowStore 423 0 [7]).server 1 1) s ∧
    s.checkState fastHasher64 calmTick = .ok s' ∧ ¬ s'.maxIdx < s'.registry.sSlow := by
  have hstep : ((rowStore 423 0 [7]).server 1 1).step fastHasher64 (.tick calmTick)
      = .ok (((rowStore 423 0 [7]).server 1 1).setState .preResize) := rfl
  have hrun : Lib.Reaches (Server.step fastHasher64) Lib.anyStep ((rowStore 423 0 [7]).server 1 1)
      (((rowStore 423 0 [7]).server 1 1).setState .preResize) :=
    Lib.Reaches.snoc .refl trivial hstep
  refine ⟨_, _, ?_, hrun, rfl, (resize_keeps_pressure ⟨by decide, by decide⟩ hrun rfl (by decide)).1⟩
  intro h
  exact absurd (congrArg (fun s => s.registry.resizeState) h) (by decide)

/-- The first resize of that server: the copy is published, and the highest lane counter is `2` while `s_slow`
    is still `1`. -/
theorem resize_not_relieved : ∃ s, (((rowStore 423 0 [7]).server 1 1).setState .preResize).checkState fastHasher64
    calmTick = .ok s ∧ s.registry.currentVersion = 2 ∧ s.maxIdx = 2 ∧ s.registry.sSlow = 1 :=
  ⟨_, rfl, by decide, by decide, by decide⟩

end Outback
