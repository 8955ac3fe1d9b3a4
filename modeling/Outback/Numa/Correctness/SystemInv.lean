import Outback.Numa.Correctness.SystemSteps

/-!
# `Numa.Correctness.SystemInv` — the versions, lanes and views of every reachable system

**`SystemInv.step`**: in every run of connects, data operations, handlers, ticks and replays the lanes hand out the upper
half of the current region, a client's wrappers over an older region see at most as many entries as the lower half, the
handlers stay on version 1, and the orchestrator's views are those of the current region.
-/

namespace Outback

/-- A wrapper over the current version, `entries` large, or over an older one, at most half as large. -/
structure Wrappers.UpTo (cur entries : Nat) (w : Wrappers) : Prop where
  le : w.ver ≤ cur
  current : w.ver = cur → w.numDataEntries = entries
  old : w.ver < cur → w.numDataEntries ≤ entries / 2

/-- The next version is twice as large. -/
theorem Wrappers.UpTo.copied {cur entries : Nat} {w : Wrappers} (h : w.UpTo cur entries) :
    w.UpTo (nextVersion cur) (entries * 2) := by
  have hlt := lt_nextVersion cur
  have hle := h.le
  refine ⟨by omega, fun heq => by omega, fun _ => ?_⟩
  rcases Nat.lt_or_eq_of_le hle with hold | hcur
  · have := h.old hold
    omega
  · have := h.current hcur
    omega

theorem Wrappers.UpTo.ofEpoch (cur : Nat) (geo : Geometry) : (Wrappers.ofEpoch cur geo).UpTo cur geo.numDataEntries :=
  ⟨le_refl _, fun _ => rfl, fun hlt => absurd hlt (Nat.lt_irrefl _)⟩

/-! ## The server -/

/-- What the server process keeps of the registry and of the orchestrator's views. -/
structure ServerFits (s : Server) : Prop where
  orch : OrchInv s
  version : 0 < s.registry.currentVersion
  laidOut : LaidOut s
  entries : s.geometry.numDataEntries % 2 = 0
  lanes : 0 < s.registry.lanes.memThreads ∧ s.registry.lanes.memThreads ≤ kMaxNumaLanes
  strided : Lib.Strided s.registry.lanes.lanes (s.geometry.numDataEntries / 2) s.registry.lanes.laneNextFreeIndex
  views : ∀ r, s.newWrappers = some r → r.ver = s.registry.currentVersion ∧ 1 < r.ver ∧
    r.numBuckets = s.geometry.numBuckets ∧ r.numDataEntries = s.geometry.numDataEntries
  switching : s.Switching → s.newWrappers.isSome = true

/-- Views that differ in their counter at most. -/
def SameViews (s s' : Server) : Prop :=
  s'.newWrappers = s.newWrappers ∨ ∃ w, s.newWrappers = some w ∧ s'.newWrappers = some { w with num := w.num + 1 }

theorem ReplayMoves.sameViews {s s' : Server} {clears : Prop} (h : ReplayMoves clears s s') : SameViews s s' := by
  rcases h.views with hsame | ⟨w, hw, -, hw'⟩
  · exact Or.inl hsame
  · exact Or.inr ⟨w, hw, hw'⟩

namespace ServerFits

variable {H : HashFn} {s s' : Server}

/-- A step of a client. -/
theorem clients (h : ServerFits s) {sh : Shared} (hc : ClientsOnly s.registry sh.registry)
    (hl : Lib.Strided s.registry.lanes.lanes (s.geometry.numDataEntries / 2) sh.registry.lanes.laneNextFreeIndex) :
    ServerFits { s with shared := sh } := by
  have horch := h.orch.clientsOnly hc
  obtain ⟨w, hw⟩ := hc
  have hgeo : Server.geometry { s with shared := sh } = s.geometry := by
    show sh.registry.currentEpoch.geometry = _
    rw [hw]
    rfl
  have hlanes : sh.registry.lanes.memThreads = s.registry.lanes.memThreads := by
    rw [hw]
    rfl
  have hcur : sh.registry.currentVersion = s.registry.currentVersion := by
    rw [hw]
    rfl
  have hstate : sh.registry.resizeState = s.registry.resizeState := by
    rw [hw]
    rfl
  refine ⟨horch, ?_, h.laidOut.congr hgeo, by rw [hgeo]; exact h.entries, ?_, ?_, fun r hr => ?_, fun hs => ?_⟩
  · show 0 < sh.registry.currentVersion
    rw [hcur]
    exact h.version
  · show 0 < sh.registry.lanes.memThreads ∧ sh.registry.lanes.memThreads ≤ kMaxNumaLanes
    rw [hlanes]
    exact h.lanes
  · rw [hgeo]
    show Lib.Strided sh.registry.lanes.lanes _ sh.registry.lanes.laneNextFreeIndex
    rw [show sh.registry.lanes.lanes = s.registry.lanes.lanes by unfold Lanes.lanes; rw [hlanes]]
    exact hl
  · rw [hgeo]
    show r.ver = sh.registry.currentVersion ∧ _
    rw [hcur]
    exact h.views r hr
  · refine h.switching ?_
    unfold Server.Switching at hs ⊢
    rw [← hstate]
    exact hs

/-- A step that leaves the registry alone, and of the views all but the counter. -/
theorem congr (h : ServerFits s) (horch : OrchInv s') (hreg : s'.registry = s.registry) (hv : SameViews s s') :
    ServerFits s' := by
  have hgeo : s'.geometry = s.geometry := by
    unfold Server.geometry
    rw [hreg]
  refine ⟨horch, by rw [hreg]; exact h.version, h.laidOut.congr hgeo, by rw [hgeo]; exact h.entries,
    by rw [hreg]; exact h.lanes, by rw [hreg, hgeo]; exact h.strided, fun r hr => ?_, fun hs => ?_⟩
  · rw [hgeo, hreg]
    rcases hv with hsame | ⟨w, hw, hw'⟩
    · exact h.views r (hsame ▸ hr)
    · obtain rfl := Option.some.inj (hw'.symm.trans hr)
      exact h.views w hw
  · have hsome : s.newWrappers.isSome = true := by
      refine h.switching ?_
      unfold Server.Switching at hs ⊢
      rw [← hreg]
      exact hs
    rcases hv with hsame | ⟨w, hw, hw'⟩
    · rw [hsame]
      exact hsome
    · rw [hw']
      rfl

theorem quietTick (h : ServerFits s) (hq : QuietTick s s') : ServerFits s' := by
  have hcur := hq.quiet.currentVersion
  have hgeo : s'.geometry = s.geometry := by
    unfold Server.geometry SharedNumaRegistry.currentEpoch
    rw [hcur, hq.quiet.geometry]
  refine ⟨hq.orch h.orch, by rw [hcur]; exact h.version, h.laidOut.congr hgeo, by rw [hgeo]; exact h.entries,
    by rw [hq.quiet.lanes]; exact h.lanes, by rw [hq.quiet.lanes, hgeo]; exact h.strided, fun r hr => ?_, fun hs => ?_⟩
  · rw [hgeo, hcur]
    exact h.views r (hq.newWrappers ▸ hr)
  · rw [hq.newWrappers]
    exact h.switching (hq.switching hs).1

/-! ## What a copy hands over -/

/-- The lanes of a new region start in its upper half. -/
theorem copied_lane (h : ServerFits s) (g : PackedStruct) {i : Nat}
    (hi : i < (s.copied s.registry.currentVersion g).registry.lanes.lanes) :
    (s.copied s.registry.currentVersion g).registry.lanes.laneNextFreeIndex i
      = (s.copied s.registry.currentVersion g).geometry.numDataEntries / 2 + i := by
  have hreg := copied_registry s s.registry.currentVersion g
  have hlane : i < s.effectiveLanes := by
    rw [effectiveLanes_eq h.lanes.2]
    unfold Lanes.lanes at hi ⊢
    rw [hreg.2.2.2.1] at hi
    exact hi
  have hhalf : (s.copied s.registry.currentVersion g).geometry.numDataEntries = s.geometry.numDataEntries * 2 :=
    congrArg Geometry.numDataEntries (h.laidOut.copied_geometry g)
  rw [hreg.2.2.2.2.1 i hlane, hhalf, Nat.mul_div_cancel _ (by decide : 0 < 2)]
  rfl

/-- A completed copy. -/
theorem copied (h : ServerFits s) (g : PackedStruct) : ServerFits (s.copied s.registry.currentVersion g) := by
  have hgeo := h.laidOut.copied_geometry g
  have hreg := copied_registry s s.registry.currentVersion g
  have hlt := lt_nextVersion s.registry.currentVersion
  have hver := h.version
  have hmem := hreg.2.2.2.1
  have hplan : (s.registry.copyPlan s.registry.currentVersion).geometry
      = (s.copied s.registry.currentVersion g).geometry := hreg.2.2.2.2.2.1.symm
  refine ⟨h.orch.copied g, by rw [hreg.1]; omega, h.laidOut.copied g, ?_, by rw [hmem]; exact h.lanes, ?_, fun r hr => ?_,
    fun _ => rfl⟩
  · rw [hgeo]
    show s.geometry.numDataEntries * 2 % 2 = 0
    omega
  · intro i hi
    exact ⟨0, by rw [Nat.zero_mul, Nat.add_zero]; exact h.copied_lane g hi⟩
  · obtain rfl := Option.some.inj ((show (s.copied s.registry.currentVersion g).newWrappers = some _ from rfl).symm.trans hr)
    refine ⟨rfl, ?_, ?_, ?_⟩
    · show 1 < nextVersion s.registry.currentVersion
      omega
    · rw [← hplan]
    · rw [← hplan]

/-- The slots of the region that a copy publishes: the old ones in the old rows, nothing behind. -/
theorem copied_buckets (h : ServerFits s) (g : PackedStruct) (b : Nat) :
    ((s.copied s.registry.currentVersion g).shared.regions (nextVersion s.registry.currentVersion)).buckets b
      = if b < s.geometry.numBuckets then (s.shared.regions s.registry.currentVersion).buckets b else .zero := by
  have hbuckets := (copied_region g h.orch.srvRegion).2 b
  rw [h.laidOut.copiedBuckets] at hbuckets
  exact hbuckets

/-- It holds the addresses of the old one. -/
theorem copied_holds (h : ServerFits s) (g : PackedStruct) (i : Nat) :
    ((s.copied s.registry.currentVersion g).shared.regions (nextVersion s.registry.currentVersion)).Holds
      (s.geometry.numBuckets * 2) i ↔
    (s.shared.regions s.registry.currentVersion).Holds s.geometry.numBuckets i := by
  constructor
  · rintro ⟨b, -, t, hocc, ha⟩
    rw [h.copied_buckets g b] at hocc ha
    split at hocc
    · rename_i hb
      rw [if_pos hb] at ha
      exact ⟨b, hb, t, hocc, ha⟩
    · exact absurd hocc (by decide : ¬ occ 0 = true)
  · rintro ⟨b, hb, t, hocc, ha⟩
    refine ⟨b, by omega, t, ?_⟩
    rw [h.copied_buckets g b, if_pos hb]
    exact ⟨hocc, ha⟩

end ServerFits

/-! ## The system -/

/-- What every reachable system keeps. -/
structure SystemInv (w : NumaSystem) : Prop where
  orch : ServerFits w.server.orch
  clients : ∀ tid, (w.world.view tid).AllWrappers
    (Wrappers.UpTo w.registry.currentVersion w.server.orch.geometry.numDataEntries)
  buckets : w.server.ludoBuckets.ver = 1
  packed : w.server.packedData.ver = 1

section Step

variable {H : HashFn} {w w' : NumaSystem}

/-- The lanes behind a step of a client. -/
theorem ServerFits.strided_client {s : Server} {c c' : ClientView} {tid : Nat} {env : OpEnv} {op : ClientOp}
    (h : ServerFits s) (hc : c.shared = s.shared) (hok : c.step H tid env op = .ok c') :
    Lib.Strided s.registry.lanes.lanes (s.geometry.numDataEntries / 2) c'.shared.registry.lanes.laneNextFreeIndex := by
  have hlanes := clientStep_lanes hok
  rw [hc] at hlanes
  rcases hlanes with hsame | ⟨lane, -, hbump⟩
  · rw [hsame]
    exact h.strided
  · rw [hbump]
    exact h.strided.bump

/-- A client's step, through its view. -/
theorem SystemInv.putView (h : SystemInv w) (tid : Nat) {c : ClientView}
    (hc : ClientsOnly w.registry c.shared.registry)
    (hl : Lib.Strided w.registry.lanes.lanes (w.server.orch.geometry.numDataEntries / 2)
      c.shared.registry.lanes.laneNextFreeIndex)
    (hall : c.AllWrappers (Wrappers.UpTo w.registry.currentVersion w.server.orch.geometry.numDataEntries)) :
    SystemInv (w.ofWorld (w.world.putView tid c)) := by
  refine ⟨h.orch.clients hc hl, fun t => ?_, h.buckets, h.packed⟩
  have hviews : ((w.world.putView tid c).view t).AllWrappers _ := World.allWrappers_putView h.clients hall t
  obtain ⟨writes, hw⟩ := hc
  show ((w.world.putView tid c).view t).AllWrappers
    (Wrappers.UpTo c.shared.registry.currentVersion c.shared.registry.currentEpoch.geometry.numDataEntries)
  rw [hw]
  exact hviews

/-- A step of the server process that publishes nothing. -/
theorem SystemInv.server (h : SystemInv w) {s : NumaServer} (hs : ServerFits s.orch)
    (hcur : s.orch.registry.currentVersion = w.registry.currentVersion)
    (hgeo : s.orch.geometry = w.server.orch.geometry) (hb : s.ludoBuckets.ver = 1) (hp : s.packedData.ver = 1) :
    SystemInv { w with server := s } := by
  refine ⟨hs, fun tid => ?_, hb, hp⟩
  show ((NumaSystem.world { w with server := s }).view tid).AllWrappers
    (Wrappers.UpTo s.orch.registry.currentVersion s.orch.geometry.numDataEntries)
  rw [hcur, hgeo]
  exact ⟨(h.clients tid).own, (h.clients tid).remote⟩

/-- **One step.** -/
theorem SystemInv.step (h : SystemInv w) {a : SystemStep} (hok : w.step H a = .ok w') : SystemInv w' := by
  cases a with
  | connect tid env =>
      cases hok
      have hdata := connect_data (w.world.view tid) tid env
      refine h.putView tid hdata.clients ?_ ((h.clients tid).connect (.ofEpoch _ _) tid env)
      rw [hdata.registry.lanes]
      exact h.orch.strided
  | client tid env op =>
      obtain ⟨v, hv, hok⟩ := Lib.bind_eq_ok.mp hok
      cases hok
      obtain ⟨c, hc, hv⟩ := Lib.bind_eq_ok.mp hv
      cases hv
      exact h.putView tid (clientStep_clientsOnly hc) (h.orch.strided_client rfl hc)
        ((h.clients tid).clientStep (.ofEpoch _ _) hc)
  | call c =>
      obtain ⟨r, hr, hok⟩ := Lib.bind_eq_ok.mp hok
      cases hok
      obtain ⟨regions, inserts, deletes, num, cache, -, heq⟩ := call_keeps hr
      have hfits : ServerFits r.1.orch := by
        rw [heq]
        exact h.orch.congr (h.orch.orch.congr rfl rfl rfl rfl rfl rfl) rfl (Or.inl rfl)
      exact h.server hfits (by rw [heq]; rfl) (by rw [heq]; rfl) (by rw [heq]; exact h.buckets)
        (by rw [heq]; exact h.packed)
  | tick inp =>
      change (if _ then _ else _) = _ at hok
      split at hok
      · cases hok
        exact h
      · rename_i hq
        obtain ⟨s, hs, hok⟩ := Lib.bind_eq_ok.mp hok
        cases hok
        rcases tick_inv hs hq with rfl | hquiet
        · -- a copy: the wrappers of the clients are over an older version now
          refine ⟨h.orch.copied _, fun tid => ?_, h.buckets, h.packed⟩
          have hgeo := h.orch.laidOut.copied_geometry inp.packedStruct
          show ((w.putOrch _).world.view tid).AllWrappers (Wrappers.UpTo (nextVersion w.registry.currentVersion)
            (w.server.orch.copied w.server.orch.registry.currentVersion inp.packedStruct).geometry.numDataEntries)
          rw [hgeo]
          exact ⟨fun wr hwr => ((h.clients tid).own wr hwr).copied, fun r hr => ((h.clients tid).remote r hr).copied⟩
        · have hgeo : s.geometry = w.server.orch.geometry := by
            unfold Server.geometry SharedNumaRegistry.currentEpoch
            rw [hquiet.quiet.currentVersion, hquiet.quiet.geometry]
          exact h.server (s := { w.server with orch := s }) (h.orch.quietTick hquiet) hquiet.quiet.currentVersion hgeo
            h.buckets h.packed
  | replay =>
      change (if _ then _ else _) = _ at hok
      split at hok
      · obtain ⟨s, hs, hok⟩ := Lib.bind_eq_ok.mp hok
        cases hok
        obtain ⟨hmoves, t, inserts, deletes, ⟨regions, wrappers, rfl⟩, rfl, -⟩ := replayNext_moves hs
        exact h.server (s := { w.server with orch := _ })
          (h.orch.congr (h.orch.orch.congr rfl rfl rfl rfl rfl rfl) rfl hmoves.sameViews) rfl rfl h.buckets h.packed
      · cases hok
        exact h

end Step

/-! ## From the bulk load on -/

theorem Loaded.systemInv {H : HashFn} {cp : ExactLudo} {existKeys : List U64} {memThreads : Nat} {alien : U64 → Bool}
    {regMem : Nat → PackedStruct} {packedStruct : PackedStruct} {st : Store} (h : Loaded H cp existKeys)
    (hok : setupLudoTable H cp existKeys memThreads alien regMem packedStruct = .ok st) (sSlow sStop : Nat)
    (lookup : Nat → DataPlaneLudo) (proc lane : Nat → Nat) :
    SystemInv ((st.numaServer sSlow sStop).system lookup proc lane) := by
  have howned := h.owned hok sSlow sStop
  have hinv := h.storeInv hok
  have hentries : (st.server sSlow sStop).geometry.numDataEntries = 2 * existKeys.length := hinv.packed
  have hpos : 0 < st.buckets.numElements := by
    rw [hinv.buckets]
    exact hinv.pos
  refine ⟨⟨orchInv_start hpos sSlow sStop, Nat.one_pos, howned.laidOut, ?_, howned.lanes, ?_, fun r hr => (by cases hr),
    fun hs => ?_⟩, fun tid => ⟨fun w hw => (by cases hw), fun r hr => (by cases hr)⟩, rfl, rfl⟩
  · show (st.server sSlow sStop).geometry.numDataEntries % 2 = 0
    omega
  · show Lib.Strided _ ((st.server sSlow sStop).geometry.numDataEntries / 2) _
    rw [hentries, Nat.mul_div_cancel_left _ (by decide : 0 < 2)]
    exact hinv.strided
  · rcases hs with hs | hs <;> cases hs

end Outback
