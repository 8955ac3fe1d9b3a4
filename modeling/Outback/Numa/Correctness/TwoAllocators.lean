import Outback.Numa.Correctness.SystemInv

/-!
# `Numa.Correctness.TwoAllocators` — when a server-side allocation is fresh

`bulk_load_data` returns the counter of its wrapper, and knows neither the lanes nor what the memory under the wrapper
already holds. **`bulk_load_fresh`**: in every run of puts, resizes and replays, what it returns is in nobody's use exactly
when the call is `Spared`. Through the handlers' views it never is before the first resize, since `setup_ludo_table` starts
the lanes at the counter's own value; through the orchestrator's, whose counter starts at 0 over copied slots, it is for no
index that a copied slot holds.

The invariant accounts for every occupied slot of the two regions (`Accounted`): its address lies below the counter, was
handed out by a lane, or was there when the region was copied.
-/

namespace Outback

/-- The counter survives the 32 bits it is returned in, and an index of the region the 40 bits of a slot word. -/
def ReplayWrappers.Narrow (r : ReplayWrappers) : Prop := r.num < 2 ^ 32 ∧ r.numDataEntries ≤ 2 ^ 40

theorem ReplayWrappers.Narrow.loadedIndex {r : ReplayWrappers} (h : r.Narrow) : r.loadedIndex = r.num := by
  have hlt := h.1
  unfold ReplayWrappers.loadedIndex
  rw [BitVec.toNat_ofNat, Nat.mod_eq_of_lt hlt]

theorem loadedIndex_le (num : Nat) : (BitVec.ofNat 32 num).toNat ≤ num := by
  rw [BitVec.toNat_ofNat]
  exact Nat.mod_le _ _

namespace AllocWorld

/-- The condition on a call of `bulk_load_data`. In the current region the counter is still in the half that the lanes do
    not hand out, and no slot of the old region, from which the slots were copied, refers to it. In an older region the
    lanes had not reached it when the version was replaced. -/
def Spared (w : AllocWorld) (r : ReplayWrappers) : Prop :=
  r.Narrow ∧
    if r.ver = w.registry.currentVersion then
      r.num < r.numDataEntries / 2 ∧
        ¬ (w.region w.system.server.orch.pendingOldVer).Holds (r.numBuckets / 2) r.num
    else ¬ Lib.Issued w.registry.lanes.lanes (r.numDataEntries / 2) w.retired r.num

/-- Every address that the region behind `r` holds was there before, is below the counter, or was handed out. -/
def Accounted (w : AllocWorld) (r : ReplayWrappers) (before : Nat → Prop) : Prop :=
  ∀ i, (w.region r.ver).Holds r.numBuckets i →
    before i ∨ i < r.num ∨ ∃ idx, (r.ver, idx) ∈ w.granted ∧ i = idx % 2 ^ 40

/-- The old region during a switch, as far as its slots are copied. -/
def OldHolds (w : AllocWorld) (r : ReplayWrappers) : Nat → Prop :=
  (w.region w.system.server.orch.pendingOldVer).Holds (r.numBuckets / 2)

end AllocWorld

/-! ## The invariant -/

structure AllocInv (w : AllocWorld) : Prop where
  system : SystemInv w.system
  noDeletes : w.system.server.orch.deferredDeletes = []
  /-- the loaded keys -/
  loaded : w.system.server.packedData.numElements / 2 ≤ w.system.server.packedData.num
  first : w.registry.currentVersion = 1 →
    w.system.server.packedData.numElements = w.system.server.orch.geometry.numDataEntries
  versions : ∀ p ∈ w.granted, p.1 ≤ w.registry.currentVersion
  granted : ∀ i, (w.registry.currentVersion, i) ∈ w.granted ↔
    Lib.Issued w.registry.lanes.lanes (w.system.server.orch.geometry.numDataEntries / 2)
      w.registry.lanes.laneNextFreeIndex i ∧ i < w.system.server.orch.geometry.numDataEntries
  retired : w.registry.currentVersion ≠ 1 → ∀ i, (1, i) ∈ w.granted ↔
    Lib.Issued w.registry.lanes.lanes (w.system.server.packedData.numElements / 2) w.retired i ∧
      i < w.system.server.packedData.numElements
  handlers : w.Accounted w.system.handlerViews (fun _ => False)
  replays : ∀ r, w.system.server.orch.newWrappers = some r → w.system.server.orch.Switching →
    w.Accounted r (w.OldHolds r) ∧ ∀ i, w.OldHolds r i → (w.region r.ver).Holds r.numBuckets i

/-- What a step that completes no copy does to the allocators. -/
structure AllocMoves (w w' : AllocWorld) : Prop where
  version : w'.registry.currentVersion = w.registry.currentVersion
  geometry : w'.system.server.orch.geometry = w.system.server.orch.geometry
  lanes : w'.registry.lanes.lanes = w.registry.lanes.lanes
  handlerViews : ∃ num, w'.system.handlerViews = { w.system.handlerViews with num := num } ∧
    w.system.handlerViews.num ≤ num
  views : w'.system.server.orch.newWrappers = w.system.server.orch.newWrappers ∨
    ∃ r, w.system.server.orch.newWrappers = some r ∧ r.num < r.numDataEntries ∧ w.system.server.orch.Switching ∧
      w'.system.server.orch.newWrappers = some { r with num := r.num + 1 }
  noDeletes : w'.system.server.orch.deferredDeletes = []
  switching : w'.system.server.orch.Switching → w.system.server.orch.Switching ∧
    w'.system.server.orch.pendingOldVer = w.system.server.orch.pendingOldVer
  /-- a handler that allocates is not blocked, and finds room -/
  allocates : w'.system.handlerViews.num ≠ w.system.handlerViews.num →
    ¬ w.system.server.orch.Switching ∧ w.system.handlerViews.num < w.system.handlerViews.numDataEntries
  versions : ∀ p ∈ w'.granted, p ∈ w.granted ∨ p.1 = w.registry.currentVersion
  keeps : ∀ p ∈ w.granted, p ∈ w'.granted
  granted : ∀ i, (w.registry.currentVersion, i) ∈ w'.granted ↔
    Lib.Issued w.registry.lanes.lanes (w.system.server.orch.geometry.numDataEntries / 2)
      w'.registry.lanes.laneNextFreeIndex i ∧ i < w.system.server.orch.geometry.numDataEntries
  retired : w'.retired = if w.registry.currentVersion = w.system.server.packedData.ver
    then w.registry.lanes.laneNextFreeIndex else w.retired
  buckets : ∀ v, BucketsMove False
    (fun a => (v = 1 ∧ a < w'.system.handlerViews.num ∧ w'.system.handlerViews.num ≠ w.system.handlerViews.num) ∨
      (∃ r, w.system.server.orch.newWrappers = some r ∧ r.ver = v ∧ a ≤ r.num ∧
        w'.system.server.orch.newWrappers = some { r with num := r.num + 1 }) ∨
      (v = w.registry.currentVersion ∧ ∃ idx, (v, idx) ∈ w'.granted ∧ a = idx % 2 ^ 40))
    (w.region v).buckets (w'.region v).buckets

section Moves

variable {w w' : AllocWorld}

theorem AllocInv.handlerViews_ver (h : AllocInv w) : w.system.handlerViews.ver = 1 := h.system.packed

/-- The handlers' region. -/
theorem AllocMoves.handlers (hm : AllocMoves w w') (h : AllocInv w) :
    w'.Accounted w'.system.handlerViews (fun _ => False) := by
  obtain ⟨num, hviews, hle⟩ := hm.handlerViews
  intro i hi
  rw [hviews] at hi ⊢
  have hver := h.handlerViews_ver
  rcases hi.of_move (hm.buckets _) with hold | ⟨-, hlt, -⟩ | ⟨r, hr, hrver, -⟩ | ⟨-, idx, hidx, rfl⟩
  · rcases h.handlers i hold with hfalse | hlt | ⟨idx, hidx, rfl⟩
    · exact hfalse.elim
    · exact Or.inr (Or.inl (lt_of_lt_of_le hlt hle))
    · exact Or.inr (Or.inr ⟨idx, hm.keeps _ hidx, rfl⟩)
  · rw [hviews] at hlt
    exact Or.inr (Or.inl hlt)
  · -- the orchestrator's region is a later one
    have hlater := (h.system.orch.views r hr).2.1
    have hrver : r.ver = w.system.handlerViews.ver := hrver
    omega
  · exact Or.inr (Or.inr ⟨idx, hidx, rfl⟩)

/-- During a switch the slots of the old region stay. -/
theorem AllocMoves.oldHolds (hm : AllocMoves w w') (h : AllocInv w) (hs : w'.system.server.orch.Switching) (rows i : Nat) :
    (w'.region w'.system.server.orch.pendingOldVer).Holds rows i ↔
      (w.region w.system.server.orch.pendingOldVer).Holds rows i := by
  obtain ⟨hsw, hold⟩ := hm.switching hs
  rw [hold]
  have hne : w.system.server.orch.pendingOldVer ≠ w.registry.currentVersion := by
    have hkeeps : w.system.server.orch.pendingOldVer ≠ 0 := by
      refine h.system.orch.orch.keepsOld.mpr ?_
      rcases hsw with hst | hst <;> rw [hst] <;> rfl
    intro heq
    exact (h.system.orch.orch.old hkeeps).2 (by rw [heq]; rfl)
  constructor
  · intro hi
    rcases hi.of_move (hm.buckets _) with hi | ⟨-, -, hmoved⟩ | ⟨r, hr, hrver, -⟩ | ⟨hcur, -⟩
    · exact hi
    · exact absurd hsw (hm.allocates hmoved).1
    · exact absurd (hrver.symm.trans (h.system.orch.views r hr).1) hne
    · exact absurd hcur hne
  · exact fun hi => hi.move (hm.buckets _)

/-- The region that replays go to. -/
theorem AllocMoves.replays (hm : AllocMoves w w') (h : AllocInv w) (r' : ReplayWrappers)
    (hr' : w'.system.server.orch.newWrappers = some r') (hs : w'.system.server.orch.Switching) :
    w'.Accounted r' (w'.OldHolds r') ∧ ∀ i, w'.OldHolds r' i → (w'.region r'.ver).Holds r'.numBuckets i := by
  have hsw := (hm.switching hs).1
  obtain ⟨r, hr, hver, hrows, hnum⟩ : ∃ r, w.system.server.orch.newWrappers = some r ∧ r'.ver = r.ver ∧
      r'.numBuckets = r.numBuckets ∧ r.num ≤ r'.num := by
    rcases hm.views with hsame | ⟨r, hr, -, -, hmoved⟩
    · exact ⟨r', hsame ▸ hr', rfl, rfl, le_refl _⟩
    · obtain rfl := Option.some.inj (hmoved.symm.trans hr')
      exact ⟨r, hr, rfl, rfl, Nat.le_succ _⟩
  obtain ⟨haccounted, hcopied⟩ := h.replays r hr hsw
  obtain ⟨hcur, hlater, -⟩ := h.system.orch.views r hr
  have hold : ∀ i, w'.OldHolds r' i ↔ w.OldHolds r i := by
    intro i
    unfold AllocWorld.OldHolds
    rw [hrows]
    exact hm.oldHolds h hs _ i
  constructor
  · intro i hi
    rw [hver, hrows] at hi
    rw [hold, hver]
    rcases hi.of_move (hm.buckets _) with hi | ⟨hone, -⟩ | ⟨q, hq, -, hle, hmoved⟩ | ⟨-, idx, hidx, rfl⟩
    · rcases haccounted i hi with hi | hlt | ⟨idx, hidx, rfl⟩
      · exact Or.inl hi
      · exact Or.inr (Or.inl (lt_of_lt_of_le hlt hnum))
      · exact Or.inr (Or.inr ⟨idx, hm.keeps _ hidx, rfl⟩)
    · omega
    · obtain rfl := Option.some.inj (hq.symm.trans hr)
      obtain rfl := Option.some.inj (hmoved.symm.trans hr')
      exact Or.inr (Or.inl (Nat.lt_succ_of_le hle))
    · exact Or.inr (Or.inr ⟨idx, hidx, rfl⟩)
  · intro i hi
    rw [hver, hrows]
    exact (hcopied i ((hold i).mp hi)).move (hm.buckets _)

/-- **A step that completes no copy.** -/
theorem AllocInv.moves (h : AllocInv w) (hm : AllocMoves w w') (hsys : SystemInv w'.system) : AllocInv w' := by
  obtain ⟨num, hviews, hle⟩ := hm.handlerViews
  have hel : w'.system.server.packedData.numElements = w.system.server.packedData.numElements :=
    congrArg ReplayWrappers.numDataEntries hviews
  have hnum : w'.system.server.packedData.num = num := congrArg ReplayWrappers.num hviews
  have hloaded := h.loaded
  have hle : w.system.server.packedData.num ≤ num := hle
  refine ⟨hsys, hm.noDeletes, by omega, fun hcur => ?_, fun p hp => ?_, ?_, fun hcur i => ?_, hm.handlers h, hm.replays h⟩
  · rw [hm.version] at hcur
    rw [hel, hm.geometry]
    exact h.first hcur
  · rw [hm.version]
    rcases hm.versions p hp with hold | hnew
    · exact h.versions p hold
    · exact le_of_eq hnew
  · rw [hm.version, hm.lanes, hm.geometry]
    exact hm.granted
  · rw [hm.version] at hcur
    rw [hm.lanes, hel, hm.retired, if_neg (by rw [h.system.packed]; exact hcur), ← h.retired hcur i]
    constructor
    · intro hi
      rcases hm.versions _ hi with hold | hnew
      · exact hold
      · exact absurd hnew.symm hcur
    · exact fun hi => hm.keeps _ hi

end Moves

/-! ## One step -/

section Steps

variable {H : HashFn} {w w' : AllocWorld}

/-- The log and the record of the lanes behind a step that is no client's. -/
def AllocWorld.behind (w : AllocWorld) (system : NumaSystem) : AllocWorld where
  system := system
  granted := w.granted
  retired := if w.registry.currentVersion = w.system.server.packedData.ver then w.registry.lanes.laneNextFreeIndex
    else w.retired

/-- A step that hands out nothing. -/
theorem AllocMoves.behind {s : NumaSystem} (num : Nat) (h : AllocInv w)
    (hcur : s.registry.currentVersion = w.registry.currentVersion)
    (hgeo : s.server.orch.geometry = w.system.server.orch.geometry) (hl : s.registry.lanes = w.registry.lanes)
    (hnum : s.handlerViews = { w.system.handlerViews with num := num }) (hle : w.system.handlerViews.num ≤ num)
    (hviews : s.server.orch.newWrappers = w.system.server.orch.newWrappers ∨
      ∃ r, w.system.server.orch.newWrappers = some r ∧ r.num < r.numDataEntries ∧ w.system.server.orch.Switching ∧
        s.server.orch.newWrappers = some { r with num := r.num + 1 }) (hdel : s.server.orch.deferredDeletes = [])
    (hsw : s.server.orch.Switching → w.system.server.orch.Switching ∧
      s.server.orch.pendingOldVer = w.system.server.orch.pendingOldVer)
    (hopen : s.handlerViews.num ≠ w.system.handlerViews.num →
      ¬ w.system.server.orch.Switching ∧ w.system.handlerViews.num < w.system.handlerViews.numDataEntries)
    (hb : ∀ v, BucketsMove False
      (fun a => (v = 1 ∧ a < s.handlerViews.num ∧ s.handlerViews.num ≠ w.system.handlerViews.num) ∨
        (∃ r, w.system.server.orch.newWrappers = some r ∧ r.ver = v ∧ a ≤ r.num ∧
          s.server.orch.newWrappers = some { r with num := r.num + 1 }))
      (w.region v).buckets ((w.behind s).region v).buckets) : AllocMoves w (w.behind s) where
  version := hcur
  geometry := hgeo
  lanes := congrArg Lanes.lanes hl
  handlerViews := ⟨num, hnum, hle⟩
  views := hviews
  noDeletes := hdel
  switching := hsw
  allocates := hopen
  versions := fun _ hp => Or.inl hp
  keeps := fun _ hp => hp
  granted := fun i => by
    show (w.registry.currentVersion, i) ∈ w.granted ↔ Lib.Issued _ _ s.registry.lanes.laneNextFreeIndex i ∧ _
    rw [hl]
    exact h.granted i
  retired := rfl
  buckets := fun v => (hb v).mono (fun h => h) (fun a ha => by
    rcases ha with ha | ha
    · exact Or.inl ha
    · exact Or.inr (Or.inl ha))

/-- What the clients write moves the orchestrator to no other state. -/
theorem switching_clients {s : Server} {sh : Shared} (hc : ClientsOnly s.registry sh.registry)
    (hs : Server.Switching { s with shared := sh }) : s.Switching := by
  obtain ⟨writes, hw⟩ := hc
  unfold Server.Switching at hs ⊢
  change sh.registry.resizeState = _ ∨ sh.registry.resizeState = _ at hs
  rw [hw] at hs
  exact hs

theorem AllocInv.connect (h : AllocInv w) (tid : Nat) (env : OpEnv) :
    AllocMoves w (w.behind (w.system.ofWorld (w.system.world.connect tid env))) := by
  have hdata := connect_data (w.system.world.view tid) tid env
  refine .behind _ h hdata.registry.currentVersion hdata.currentEpoch hdata.registry.lanes rfl (le_refl _) (Or.inl rfl)
    h.noDeletes (fun hs => ⟨switching_clients hdata.clients hs, rfl⟩) (fun hne => absurd rfl hne) (fun v => ?_)
  exact .of_eq (hdata.buckets v)

theorem AllocInv.call (h : AllocInv w) {loc : Nat} {key val : U64} {reply : ReplyValue} {r : NumaServer × ReplyValue}
    (hr : w.system.server.call H (.put loc key val reply) = .ok r) :
    AllocMoves w (w.behind { w.system with server := r.1 }) := by
  have hmoves := call_moves hr
  have hdel := put_deferredDeletes hr
  obtain ⟨regions, inserts, deletes, num, cache, -, heq⟩ := call_keeps hr
  have hreg : r.1.orch.registry = w.system.server.orch.registry := by rw [heq]; rfl
  refine .behind r.1.packedData.num h (congrArg SharedNumaRegistry.currentVersion hreg) ?_
    (congrArg SharedNumaRegistry.lanes hreg) ?_ ?_ (Or.inl ?_) (hdel.trans h.noDeletes) (fun hs => ⟨?_, ?_⟩) (fun hne => ?_)
    (fun v => ?_)
  · exact congrArg (·.currentEpoch.geometry) hreg
  · show ReplayWrappers.mk _ _ _ _ = _
    rw [heq]
    rfl
  · show w.system.server.packedData.num ≤ r.1.packedData.num
    rcases hmoves.num with hsame | hmoved <;> omega
  · rw [heq]
  · unfold Server.Switching at hs ⊢
    rw [← hreg]
    exact hs
  · show r.1.orch.pendingOldVer = _
    rw [heq]
  · -- an allocating call is not blocked, so no switch is under way
    obtain ⟨hopen, hroom⟩ := hmoves.allocates hne
    rw [h.system.orch.orch.blocked] at hopen
    exact ⟨of_decide_eq_false hopen, hroom⟩
  · refine (hmoves.buckets v).mono ?_ ?_
    · rintro ⟨loc, key, hc⟩
      cases hc
    · rintro a ⟨hv, hmoved, rfl⟩
      refine Or.inl ⟨hv.trans h.system.buckets, ?_, ?_⟩
      · show _ < r.1.packedData.num
        have := loadedIndex_le w.system.server.packedData.num
        omega
      · show r.1.packedData.num ≠ w.system.server.packedData.num
        omega

theorem AllocInv.quietTick (h : AllocInv w) {s : Server} (hq : QuietTick w.system.server.orch s) :
    AllocMoves w (w.behind (w.system.putOrch s)) := by
  refine .behind _ h hq.quiet.currentVersion ?_ hq.quiet.lanes rfl (le_refl _) (Or.inl hq.newWrappers)
    (hq.deferredDeletes.trans h.noDeletes) hq.switching (fun hne => absurd rfl hne) (fun v => .of_eq ?_)
  · show s.registry.currentEpoch.geometry = _
    unfold SharedNumaRegistry.currentEpoch
    rw [hq.quiet.currentVersion, hq.quiet.geometry]
    rfl
  · show (s.shared.regions v).buckets = _
    rw [hq.regions]
    rfl

theorem AllocInv.replay (h : AllocInv w) {s : Server} (hd : w.system.server.orch.Draining) (hs : w.system.server.orch.replayNext H = .ok s) :
    AllocMoves w (w.behind (w.system.putOrch s)) := by
  obtain ⟨hmoves, t, inserts, deletes, ⟨regions, wrappers, rfl⟩, rfl, hdel⟩ := replayNext_moves hs
  refine .behind _ h rfl rfl rfl rfl (le_refl _) ?_ (hdel h.noDeletes) (fun hsw => ⟨hsw, rfl⟩)
    (fun hne => absurd rfl hne) (fun v => ?_)
  · rcases hmoves.views with hsame | ⟨r, hr, hroom, hmoved⟩
    · exact Or.inl hsame
    · exact Or.inr ⟨r, hr, hroom, Or.inr hd.1, hmoved⟩
  refine (hmoves.buckets v).mono (fun hne => hne h.noDeletes) ?_
  rintro a ⟨r, hr, hver, -, hmoved, rfl⟩
  exact Or.inr ⟨r, hr, hver, loadedIndex_le _, hmoved⟩

/-- A put of a client. -/
theorem AllocInv.client (h : AllocInv w) {tid : Nat} {env : OpEnv} {laneId : Nat} {key val : U64} {c : ClientView}
    (hc : (w.system.world.view tid).step H tid env (.write (.put laneId key val)) = .ok c) :
    AllocMoves w { w.behind (w.system.ofWorld (w.system.world.putView tid c)) with
      granted := w.granted ++ (w.registry.handedOut c.shared.registry).map fun i => (w.registry.currentVersion, i) } := by
  have hclients : ClientsOnly w.registry c.shared.registry := clientStep_clientsOnly hc
  have hstrided : Lib.Strided w.registry.lanes.lanes (w.system.server.orch.geometry.numDataEntries / 2)
    w.registry.lanes.laneNextFreeIndex := h.system.orch.strided
  have hlanes : c.shared.registry.lanes = w.registry.lanes ∨ ∃ lane, lane < w.registry.lanes.lanes ∧
      c.shared.registry.lanes.laneNextFreeIndex
        = Lib.bump w.registry.lanes.lanes w.registry.lanes.laneNextFreeIndex lane := clientStep_lanes hc
  have hsame : c.shared.registry.currentVersion = w.registry.currentVersion ∧
      c.shared.registry.currentEpoch.geometry = w.system.server.orch.geometry ∧
      c.shared.registry.lanes.lanes = w.registry.lanes.lanes := by
    obtain ⟨writes, hw⟩ := hclients
    rw [hw]
    exact ⟨rfl, rfl, rfl⟩
  -- what the lanes hand out lies in the upper half
  have hupper : ∀ i, i ∈ w.registry.handedOut c.shared.registry →
      w.system.server.orch.geometry.numDataEntries / 2 ≤ i := by
    intro i hi
    obtain ⟨lane, hlane, -, rfl, -⟩ := SharedNumaRegistry.mem_handedOut.mp hi
    exact hstrided.base_le hlane
  refine ⟨hsame.1, hsame.2.1, hsame.2.2, ⟨_, rfl, le_refl _⟩, Or.inl rfl, h.noDeletes,
    fun hs => ⟨switching_clients hclients hs, rfl⟩, fun hne => absurd rfl hne, fun p hp => ?_,
    fun p hp => List.mem_append_left _ hp, fun i => ?_, rfl, fun v => ?_⟩
  · rcases List.mem_append.mp hp with hold | hnew
    · exact Or.inl hold
    · obtain ⟨i, -, rfl⟩ := List.mem_map.mp hnew
      exact Or.inr rfl
  · have hmem : (w.registry.currentVersion, i) ∈ (w.registry.handedOut c.shared.registry).map
        (fun i => (w.registry.currentVersion, i)) ↔ i ∈ w.registry.handedOut c.shared.registry := by
      simp
    rw [List.mem_append, hmem, h.granted i]
    show _ ↔ Lib.Issued _ _ c.shared.registry.lanes.laneNextFreeIndex i ∧ _
    rcases hlanes with hstay | ⟨lane, hlane, hbump⟩
    · rw [hstay]
      exact or_iff_left (SharedNumaRegistry.not_mem_handedOut hstay)
    · rw [SharedNumaRegistry.mem_handedOut_bump hlane hbump, hbump, hstrided.issued_bump_iff hlane]
      exact or_and_right.symm
  · refine (clientStep_buckets hc v).mono ?_ ?_
    · rintro ⟨k, hk⟩
      cases hk
    · rintro a ⟨wr, idx, hsel, rfl, hlt, hout, rfl⟩
      have hupTo := ((h.system.clients tid).maybeCheckVersion (.ofEpoch _ _) tid env).select hsel
      have hidx := hupper idx hout
      -- an older region has no entry there
      have hcur : wr.ver = w.registry.currentVersion := by
        rcases Nat.lt_or_eq_of_le hupTo.le with hold | hcur
        · have := hupTo.old hold
          omega
        · exact hcur
      refine Or.inr (Or.inr ⟨hcur, idx, List.mem_append_right _ (List.mem_map.mpr ⟨idx, hout, ?_⟩), rfl⟩)
      rw [hcur]

/-- A completed copy: nothing has been handed out for the new region, and the slots it holds are the old ones. -/
theorem AllocInv.copied (h : AllocInv w) (g : PackedStruct)
    (hsys : SystemInv (w.system.putOrch (w.system.server.orch.copied w.registry.currentVersion g))) :
    AllocInv (w.behind (w.system.putOrch (w.system.server.orch.copied w.registry.currentVersion g))) := by
  have hfits := h.system.orch
  have hlt := lt_nextVersion w.registry.currentVersion
  have hpos : 0 < w.registry.currentVersion := hfits.version
  have hlanes : (w.system.server.orch.copied w.registry.currentVersion g).registry.lanes.lanes = w.registry.lanes.lanes := by
    unfold Lanes.lanes
    rw [(copied_registry w.system.server.orch w.registry.currentVersion g).2.2.2.1]
    rfl
  have hcur : (w.behind (w.system.putOrch (w.system.server.orch.copied w.registry.currentVersion g))).registry.currentVersion
      = nextVersion w.registry.currentVersion := rfl
  refine ⟨hsys, h.noDeletes, h.loaded, fun hone => by rw [hcur] at hone; omega, fun p hp => ?_, fun i => ?_,
    fun _ i => ?_, ?_, fun r hr _ => ?_⟩
  · rw [hcur]
    exact (h.versions p hp).trans (le_of_lt hlt)
  · -- no index of the new version is in the log, and the lanes stand at its lower end
    rw [hcur]
    have hnone : (nextVersion w.registry.currentVersion, i) ∉ w.granted := fun hp => by
      have hle := h.versions _ hp
      simp only at hle
      omega
    refine iff_of_false hnone (fun hissued => ?_)
    exact Lib.not_issued_start (fun i hi => hfits.copied_lane g hi) (Lanes.lanes_pos _) i hissued.1
  · show (1, i) ∈ w.granted ↔ Lib.Issued
      (w.system.server.orch.copied w.registry.currentVersion g).registry.lanes.lanes _ (if _ then _ else _) i ∧ _
    rw [hlanes]
    split
    · rename_i hone
      have hone : w.registry.currentVersion = 1 := hone.trans h.system.packed
      have hgranted := h.granted i
      rw [hone, ← h.first hone] at hgranted
      exact hgranted
    · rename_i hne
      exact h.retired (fun hone => hne (hone.trans h.system.packed.symm)) i
  · intro i hi
    have hregion : (w.system.server.orch.copied w.registry.currentVersion g).shared.regions w.system.handlerViews.ver
        = w.region w.system.handlerViews.ver := by
      refine copied_regions_of_ne _ _ g ?_
      rw [h.handlerViews_ver]
      omega
    change ((w.system.server.orch.copied w.registry.currentVersion g).shared.regions w.system.handlerViews.ver).Holds _ _
      at hi
    rw [hregion] at hi
    exact h.handlers i hi
  · obtain rfl := Option.some.inj
      ((show (w.system.server.orch.copied w.registry.currentVersion g).newWrappers = some _ from rfl).symm.trans hr)
    have hrows : (w.system.server.orch.registry.copyPlan w.registry.currentVersion).geometry.numBuckets
        = w.system.server.orch.geometry.numBuckets * 2 := rfl
    have hold : ∀ i, AllocWorld.OldHolds
        (w.behind (w.system.putOrch (w.system.server.orch.copied w.registry.currentVersion g)))
        ⟨nextVersion w.registry.currentVersion,
          (w.system.server.orch.registry.copyPlan w.registry.currentVersion).geometry.numBuckets,
          (w.system.server.orch.registry.copyPlan w.registry.currentVersion).geometry.numDataEntries, 0⟩ i ↔
        (w.region w.registry.currentVersion).Holds w.system.server.orch.geometry.numBuckets i := by
      intro i
      show ((w.system.server.orch.copied w.registry.currentVersion g).shared.regions w.registry.currentVersion).Holds
        (w.system.server.orch.geometry.numBuckets * 2 / 2) i ↔ _
      rw [copied_regions_of_ne _ _ g (nextVersion_ne _).symm, Nat.mul_div_cancel _ (by decide : 0 < 2)]
      exact Iff.rfl
    constructor
    · intro i hi
      exact Or.inl ((hold i).mpr ((hfits.copied_holds g i).mp hi))
    · intro i hi
      exact (hfits.copied_holds g i).mpr ((hold i).mp hi)

/-- **The inversion of a step**: a completed copy, or moves of the allocators. -/
theorem AllocInv.step_cases (h : AllocInv w) {a : SystemStep} (hputs : w.PutsOnly a) (hok : w.step H a = .ok w') :
    (∃ g, w' = w.behind (w.system.putOrch (w.system.server.orch.copied w.registry.currentVersion g))) ∨
    AllocMoves w w' := by
  obtain ⟨system, hsys, hok⟩ := Lib.bind_eq_ok.mp hok
  cases a with
  | connect tid env =>
      cases hsys
      cases hok
      exact Or.inr (h.connect tid env)
  | client tid env op =>
      cases op with
      | search key => exact hputs.elim
      | write op =>
          cases op with
          | update key val => exact hputs.elim
          | remove key => exact hputs.elim
          | put laneId key val =>
              obtain ⟨v, hv, hsys⟩ := Lib.bind_eq_ok.mp hsys
              cases hsys
              obtain ⟨c, hc, hv⟩ := Lib.bind_eq_ok.mp hv
              cases hv
              cases hok
              exact Or.inr (h.client hc)
  | call c =>
      cases c with
      | get loc => exact hputs.elim
      | update loc key val => exact hputs.elim
      | remove loc key => exact hputs.elim
      | put loc key val reply =>
          obtain ⟨r, hr, hsys⟩ := Lib.bind_eq_ok.mp hsys
          cases hsys
          cases hok
          exact Or.inr (h.call hr)
  | tick inp =>
      change (if _ then _ else _) = _ at hsys
      split at hsys
      · cases hsys
        cases hok
        exact Or.inr (h.quietTick (s := w.system.server.orch) ⟨.refl _, fun hinv => hinv, rfl, rfl, rfl, fun hs => ⟨hs, rfl⟩⟩)
      · rename_i hq
        obtain ⟨s, hs, hsys⟩ := Lib.bind_eq_ok.mp hsys
        cases hsys
        cases hok
        rcases tick_inv hs hq with rfl | hquiet
        · exact Or.inl ⟨inp.packedStruct, rfl⟩
        · exact Or.inr (h.quietTick hquiet)
  | replay =>
      change (if _ then _ else _) = _ at hsys
      split at hsys
      · rename_i hd
        obtain ⟨s, hs, hsys⟩ := Lib.bind_eq_ok.mp hsys
        cases hsys
        cases hok
        exact Or.inr (h.replay hd hs)
      · cases hsys
        cases hok
        exact Or.inr (h.quietTick (s := w.system.server.orch) ⟨.refl _, fun hinv => hinv, rfl, rfl, rfl, fun hs => ⟨hs, rfl⟩⟩)

/-- **One step.** -/
theorem AllocInv.step (h : AllocInv w) {a : SystemStep} (hputs : w.PutsOnly a) (hok : w.step H a = .ok w') :
    AllocInv w' := by
  have hsys : SystemInv w'.system := by
    obtain ⟨system, hsys, hok⟩ := Lib.bind_eq_ok.mp hok
    cases hok
    exact h.system.step hsys
  rcases h.step_cases hputs hok with ⟨g, rfl⟩ | hm
  · exact h.copied g hsys
  · exact h.moves hm hsys

end Steps

/-! ## The index that `bulk_load_data` returns -/

section Fresh

variable {w w' : AllocWorld} {r : ReplayWrappers}

/-- An index that the lanes of the current version hand out has been handed out, or still will be. -/
theorem AllocInv.in_use (h : AllocInv w) {i : Nat} (hbase : w.system.server.orch.geometry.numDataEntries / 2 ≤ i)
    (hlt : i < w.system.server.orch.geometry.numDataEntries) :
    (w.registry.currentVersion, i) ∈ w.granted ∨ w.registry.CanIssue w.registry.currentVersion i := by
  rcases h.system.orch.strided.issued_or_later (Lanes.lanes_pos _) hbase with hissued | hlater
  · exact Or.inl ((h.granted i).mpr ⟨hissued, hlt⟩)
  · exact Or.inr ⟨rfl, hlt, hlater⟩

/-- No index of the lower half ever is. -/
theorem AllocInv.not_in_use (h : AllocInv w) {i : Nat} (hlt : i < w.system.server.orch.geometry.numDataEntries / 2) :
    (w.registry.currentVersion, i) ∉ w.granted ∧ ¬ w.registry.CanIssue w.registry.currentVersion i := by
  constructor
  · intro hi
    have hbase := ((h.granted i).mp hi).1.1
    omega
  · rintro ⟨-, -, lane, hlane, j, rfl⟩
    have hbase := h.system.orch.strided.base_le hlane
    change _ ≤ w.registry.lanes.laneNextFreeIndex lane at hbase
    omega

/-- Through the handlers' views. -/
theorem AllocInv.fresh_handlers (h : AllocInv w)
    (hroom : w.system.handlerViews.num < w.system.handlerViews.numDataEntries) :
    (w.Spared w.system.handlerViews → w.Fresh w.system.handlerViews) ∧
    (w.system.handlerViews.Narrow → w.Fresh w.system.handlerViews → w.Spared w.system.handlerViews) := by
  have hver := h.handlerViews_ver
  have hloaded : w.system.handlerViews.numDataEntries / 2 ≤ w.system.handlerViews.num := h.loaded
  by_cases hcur : w.registry.currentVersion = 1
  · -- the counter started where the lanes did
    have hentries : w.system.handlerViews.numDataEntries = w.system.server.orch.geometry.numDataEntries := h.first hcur
    have hsame : w.system.handlerViews.ver = w.registry.currentVersion := hver.trans hcur.symm
    constructor
    · rintro ⟨-, hspared⟩
      rw [if_pos hsame] at hspared
      omega
    · intro hnarrow hfresh
      refine absurd (h.in_use (i := w.system.handlerViews.num) (by omega) (by omega)) ?_
      rw [← hsame, ← hnarrow.loadedIndex]
      exact not_or.mpr ⟨hfresh.notIssued, hfresh.notIssuable⟩
  · have hold : w.system.handlerViews.ver ≠ w.registry.currentVersion := fun heq => hcur (heq.symm.trans hver)
    have hretired : (w.system.handlerViews.ver, w.system.handlerViews.num) ∈ w.granted ↔
        Lib.Issued w.registry.lanes.lanes (w.system.handlerViews.numDataEntries / 2) w.retired
          w.system.handlerViews.num := by
      rw [hver, h.retired hcur]
      exact and_iff_left hroom
    constructor
    · rintro ⟨hnarrow, hspared⟩
      rw [if_neg hold] at hspared
      refine ⟨fun hheld => ?_, ?_, fun hcan => hold hcan.1.symm⟩
      · rw [hnarrow.loadedIndex] at hheld
        rcases h.handlers _ hheld with hfalse | hlt | ⟨idx, hidx, heq⟩
        · exact hfalse
        · exact Nat.lt_irrefl _ hlt
        · -- an index of the region fits into the slot word
          have hissued := hidx
          rw [hver, h.retired hcur] at hissued
          have hlt : idx < w.system.handlerViews.numDataEntries := hissued.2
          have hwidth := hnarrow.2
          rw [Nat.mod_eq_of_lt (by omega)] at heq
          exact hspared (hretired.mp (heq ▸ hidx))
      · rw [hnarrow.loadedIndex]
        exact fun hmem => hspared (hretired.mp hmem)
    · intro hnarrow hfresh
      refine ⟨hnarrow, ?_⟩
      rw [if_neg hold]
      intro hissued
      refine hfresh.notIssued ?_
      rw [hnarrow.loadedIndex]
      exact hretired.mpr hissued

/-- Through the orchestrator's, during a switch. -/
theorem AllocInv.fresh_replays (h : AllocInv w) (hr : w.system.server.orch.newWrappers = some r)
    (hsw : w.system.server.orch.Switching) (hroom : r.num < r.numDataEntries) :
    (w.Spared r → w.Fresh r) ∧ (r.Narrow → w.Fresh r → w.Spared r) := by
  obtain ⟨haccounted, hcopied⟩ := h.replays r hr hsw
  obtain ⟨hcur, -, -, hentries⟩ := h.system.orch.views r hr
  have hcur : r.ver = w.registry.currentVersion := hcur
  constructor
  · rintro ⟨hnarrow, hspared⟩
    rw [if_pos hcur, hentries] at hspared
    obtain ⟨hlower, hnotCopied⟩ := hspared
    obtain ⟨hnotGranted, hnotIssuable⟩ := h.not_in_use hlower
    refine ⟨fun hheld => ?_, ?_, ?_⟩
    · rw [hnarrow.loadedIndex] at hheld
      rcases haccounted _ hheld with hold | hlt | ⟨idx, hidx, heq⟩
      · exact hnotCopied hold
      · exact Nat.lt_irrefl _ hlt
      · rw [hcur] at hidx
        have hlt := ((h.granted idx).mp hidx).2
        have hwidth := hnarrow.2
        rw [Nat.mod_eq_of_lt (by omega)] at heq
        exact hnotGranted (heq ▸ hidx)
    · rw [hcur, hnarrow.loadedIndex]
      exact hnotGranted
    · rw [hcur, hnarrow.loadedIndex]
      exact hnotIssuable
  · intro hnarrow hfresh
    refine ⟨hnarrow, ?_⟩
    rw [if_pos hcur]
    constructor
    · by_contra hge
      refine absurd (h.in_use (i := r.num) (by omega) (by omega)) ?_
      rw [← hcur, ← hnarrow.loadedIndex]
      exact not_or.mpr ⟨hfresh.notIssued, hfresh.notIssuable⟩
    · intro hold
      refine hfresh.notHeld ?_
      rw [hnarrow.loadedIndex]
      exact hcopied _ hold

/-- **A call of `bulk_load_data`**, from a state that keeps the invariant. -/
theorem AllocInv.fresh_iff {H : HashFn} {a : SystemStep} (h : AllocInv w) (hputs : w.PutsOnly a)
    (hok : w.step H a = .ok w') (hload : w.system.BulkLoads w'.system r) :
    (w.Spared r → w.Fresh r) ∧ (r.Narrow → w.Fresh r → w.Spared r) := by
  rcases h.step_cases hputs hok with ⟨g, rfl⟩ | hm
  · -- a copy moves no counter, it starts a new one
    rcases hload with ⟨rfl, hmoved⟩ | ⟨hr, r', hr', hver, -⟩
    · exact absurd hmoved (Nat.lt_succ_self _).ne
    · obtain rfl := Option.some.inj
        ((show (w.system.server.orch.copied w.registry.currentVersion g).newWrappers = some _ from rfl).symm.trans hr')
      have hcur := (h.system.orch.views r hr).1
      exact absurd (hver.trans hcur) (nextVersion_ne _)
  · rcases hload with ⟨rfl, hmoved⟩ | ⟨hr, r', hr', -, hmoved⟩
    · exact h.fresh_handlers (hm.allocates (by omega)).2
    · rcases hm.views with hsame | ⟨q, hq, hroom, hsw, hq'⟩
      · obtain rfl := Option.some.inj ((hsame ▸ hr').symm.trans hr)
        omega
      · obtain rfl := Option.some.inj (hq.symm.trans hr)
        exact h.fresh_replays hr hsw hroom

end Fresh

/-! ## From the bulk load on -/

section Loads

variable {H : HashFn} {cp : ExactLudo} {existKeys : List U64} {memThreads : Nat} {alien : U64 → Bool}
  {regMem : Nat → PackedStruct} {packedStruct : PackedStruct} {st : Store}

/-- The system of a bulk load, with its allocators. -/
def Store.allocWorld (st : Store) (sSlow sStop : Nat) (lookup : Nat → DataPlaneLudo) (proc lane : Nat → Nat) : AllocWorld :=
  ((st.numaServer sSlow sStop).system lookup proc lane).allocWorld

/-- The loaded keys hold the indices below the counter, and no lane has moved. -/
theorem Loaded.allocInv (h : Loaded H cp existKeys)
    (hok : setupLudoTable H cp existKeys memThreads alien regMem packedStruct = .ok st) (sSlow sStop : Nat)
    (lookup : Nat → DataPlaneLudo) (proc lane : Nat → Nat) : AllocInv (st.allocWorld sSlow sStop lookup proc lane) := by
  have hinv := h.storeInv hok
  have hnum := setupLudoTable_num hok
  have hpacked := hinv.packed
  obtain ⟨st', hok', -, -, hlanes, -⟩ := setupLudoTable_ok H cp existKeys memThreads alien regMem packedStruct
  obtain rfl : st' = st := Except.ok.inj (hok'.symm.trans hok)
  have hnone : ∀ i, ¬ Lib.Issued st'.lanes.lanes existKeys.length st'.lanes.laneNextFreeIndex i := by
    refine Lib.not_issued_start (fun i hi => ?_) (Lanes.lanes_pos _)
    rw [hlanes, setupLanes_lanes] at hi
    rw [hlanes]
    exact if_pos hi
  refine ⟨h.systemInv hok sSlow sStop lookup proc lane, rfl, ?_, fun _ => rfl, fun p hp => (by cases hp), fun i => ?_,
    fun hcur => absurd rfl hcur, fun i hi => ?_, fun r hr => (by cases hr)⟩
  · show st'.packed.numElements / 2 ≤ st'.packed.num
    omega
  · refine iff_of_false (by simp [Store.allocWorld, NumaSystem.allocWorld]) (fun hissued => hnone i ?_)
    have hhalf : (st'.server sSlow sStop).geometry.numDataEntries / 2 = existKeys.length := by
      show st'.packed.numElements / 2 = existKeys.length
      omega
    have hissued := hissued.1
    change Lib.Issued _ ((st'.server sSlow sStop).geometry.numDataEntries / 2) _ i at hissued
    rw [hhalf] at hissued
    exact hissued
  · obtain ⟨b, hb, t, hocc, rfl⟩ := hi
    have hb : b < st'.lookup.numBuckets := by
      rw [← hinv.buckets]
      exact hb
    have hslot := (hinv.issued b t hb hocc).2.resolve_right (hnone _)
    right
    left
    show _ < st'.packed.num
    rw [hnum]
    exact hslot

end Loads

/-- **The index that `bulk_load_data` returns is in nobody's use exactly when the call is `Spared`.** From any bulk load and
    any thresholds, for any number of processes and threads, in every run of client puts, handler puts, ticks and replays:
    what a call returns through the handlers' views or through the orchestrator's is neither held by an occupied slot of
    that region nor an index that a lane has issued or can still issue for it, when the call is `Spared`, and, as long as
    indices fit into their words, only then. -/
theorem bulk_load_fresh {H : HashFn} {cp : ExactLudo} {existKeys : List U64} {memThreads : Nat} {alien : U64 → Bool}
    {regMem : Nat → PackedStruct} {packedStruct : PackedStruct} {st : Store} {sSlow sStop : Nat}
    {lookup : Nat → DataPlaneLudo} {proc lane : Nat → Nat} (hld : Loaded H cp existKeys)
    (hset : setupLudoTable H cp existKeys memThreads alien regMem packedStruct = .ok st) {w : AllocWorld}
    (hrun : Lib.Reaches (AllocWorld.step H) AllocWorld.PutsOnly (st.allocWorld sSlow sStop lookup proc lane) w)
    {a : SystemStep} {w' : AllocWorld} {r : ReplayWrappers} (hputs : w.PutsOnly a) (hstep : w.step H a = .ok w')
    (hload : w.system.BulkLoads w'.system r) :
    (w.Spared r → w.Fresh r) ∧ (r.Narrow → w.Fresh r → w.Spared r) := by
  have hinv : AllocInv w :=
    hrun.invariant (hld.allocInv hset sSlow sStop lookup proc lane) (fun _ _ _ h hputs hstep => h.step hputs hstep)
  exact hinv.fresh_iff hputs hstep hload

/-- The one-key store, before anyone connects. -/
def sevenAllocWorld : AllocWorld := (rowStore 423 0 [7]).allocWorld 1 1 (fun _ => (rowStore 423 0 [7]).lookup) id (fun _ => 0)

/-- A put of key 9 through the handlers, with the location its client computes. -/
def putNine : SystemStep := .call (.put 1283 9 5 ⟨false, 0⟩)

/-- Version 2 is current, the lane of version 1 was left where it started, and a put gets index 1 of the handlers' region. -/
def laneUnmoved (w : AllocWorld) : Bool :=
  decide (w.system.handlerViews = ⟨1, 512, 2, 1⟩ ∧ w.registry.currentVersion = 2 ∧ w.registry.lanes.lanes = 1 ∧
      w.retired 0 = 1) &&
    (w.step fastHasher64 putNine).toOption.any fun w' => decide (w'.system.handlerViews.num = 2)

/-- Behind a resize no client put has gone before, the handlers' counter is behind a lane that never moved. -/
theorem bulk_load_fresh_seven : ∃ w w' r,
    Lib.Reaches (AllocWorld.step fastHasher64) AllocWorld.PutsOnly sevenAllocWorld w ∧
    w.step fastHasher64 putNine = .ok w' ∧ w.system.BulkLoads w'.system r ∧ w.Fresh r := by
  have hset := rowStore_setup 423 0 [7]
  obtain ⟨w, hrun, hw⟩ : ∃ w, Lib.Reaches (AllocWorld.step fastHasher64) AllocWorld.PutsOnly sevenAllocWorld w ∧
      laneUnmoved w = true := Lib.exists_along (List.replicate 4 (.tick calmTick)) (by decide +kernel)
  simp only [laneUnmoved, Bool.and_eq_true, decide_eq_true_eq, Option.any_eq_true] at hw
  obtain ⟨⟨hviews, hcur, hlanes, hretired⟩, w', hw', hnum⟩ := hw
  have hstep : w.step fastHasher64 putNine = .ok w' := by
    revert hw'
    cases w.step fastHasher64 putNine with
    | ok v => exact fun h => congrArg Except.ok (Option.some.inj h)
    | error e => exact fun h => nomatch h
  have hload : w.system.BulkLoads w'.system ⟨1, 512, 2, 1⟩ := Or.inl ⟨hviews, hnum⟩
  have hspared : w.Spared ⟨1, 512, 2, 1⟩ := by
    refine ⟨⟨by decide, by decide⟩, ?_⟩
    rw [if_neg (by rw [hcur]; decide), hlanes]
    rintro ⟨-, hlt⟩
    exact absurd hretired (Nat.ne_of_gt hlt)
  exact ⟨w, w', _, hrun, hstep, hload, (bulk_load_fresh rowTable_seven hset hrun (a := putNine) trivial hstep hload).1 hspared⟩

/-- Before any resize a put through the handlers gets the entry that the lane hands out next. -/
theorem bulk_load_clashes : ¬ ∀ w, Lib.Reaches (AllocWorld.step fastHasher64) AllocWorld.PutsOnly sevenAllocWorld w →
    ∀ a w' r, w.PutsOnly a → w.step fastHasher64 a = .ok w' → w.system.BulkLoads w'.system r → w.Fresh r := by
  intro h
  have hstep : sevenAllocWorld.step fastHasher64 putNine = .ok _ := rfl
  have hfresh := h _ .refl putNine _ ⟨1, 512, 2, 1⟩ trivial hstep (Or.inl ⟨rfl, rfl⟩)
  exact hfresh.notIssuable ⟨rfl, by decide, 0, by decide, 0, rfl⟩

end Outback
