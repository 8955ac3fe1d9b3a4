import Outback.Numa.Correctness.Orchestrator
import Outback.Numa.Correctness.Ownership

/-!
# `Numa.Correctness.InsideRegion` — client operations stay inside the current region

Which region an operation works on is decided by `t_region`'s two counters against the registry's version and
generation, with the process globals behind them for a thread that never mapped. **`inside_current_iff`**: over whole
connects, data operations and ticks, with every region that exists opening, each operation of a connected client works
on the bucket wrapper, the packed wrapper and the lock array of the current version, inside their bounds, after any
number of resizes, exactly when the bulk load was not empty. An empty store publishes a packed array without entries, and
the fast path of a search reads the entry of its primary slot, address 0 of an empty slot included.

`ThreadMapped` is what ties a thread's counters to the registry. Every tick that changes the version moves the generation
(`RegistryAdvances`), so that a stale thread is never on the fast path of its version check.
-/

namespace Outback

def ClientOp.key : ClientOp → U64
  | .search key => key
  | .write op => op.key

/-- The version of the region that the selected lock array lies in. -/
def ClientView.lockRegion (c : ClientView) : Option Nat :=
  match c.region.lockArray with
  | some v => some v
  | none => c.process.remote.map (·.wrappers.ver)

/-- The thread's wrappers and its lock array are those of the current epoch. -/
structure ClientView.OnCurrent (c : ClientView) : Prop where
  wrappers : c.selectWrappers
    = .ok (some (.ofEpoch c.shared.registry.currentVersion c.shared.registry.currentEpoch.geometry))
  lock : c.selectLock = .ok true
  lockRegion : c.lockRegion = some c.shared.registry.currentVersion

/-- The operation works inside the current region: behind its version check it uses the current wrappers and lock
    array, its row and every index that it can read or is given lie in them, and it returns. -/
structure InsideCurrent (H : HashFn) (c : ClientView) (tid : Nat) (env : OpEnv) (op : ClientOp) : Prop where
  current : (c.maybeCheckVersion tid env).OnCurrent
  row : c.process.lookup.row H op.key < c.shared.registry.currentEpoch.geometry.numBuckets
  /-- the address of any slot of the row -/
  index : ∀ t : Slot, addrOf (((c.shared.regions c.shared.registry.currentVersion).buckets
    (c.process.lookup.row H op.key)).slots t) < c.shared.registry.currentEpoch.geometry.numDataEntries
  /-- an index that the thread's lane hands out -/
  issued : ∀ idx, (c.shared.registry.lanes.allocRemoteDataSlot c.region.remoteLaneId
    c.shared.registry.currentEpoch.geometry.numDataEntries).1 = some idx →
    idx < c.shared.registry.currentEpoch.geometry.numDataEntries
  returns : ∃ c', c.step H tid env op = .ok c'

/-- The `shm_open` of a region that exists succeeds. -/
def OpensExisting (_ : World) : AtomicStep → Prop
  | .connect _ env => env.opensRegion = true
  | .client _ env _ => env.opensRegion = true
  | .tick _ => True

/-! ## The registry advances -/

/-- What a step may do to the version and the generation: neither goes back, a version keeps its geometry, and a new
    version is signalled. -/
structure RegistryAdvances (reg reg' : SharedNumaRegistry) : Prop where
  version : reg.currentVersion ≤ reg'.currentVersion
  generation : reg.generation ≤ reg'.generation
  geometry : reg'.currentVersion = reg.currentVersion → reg'.currentEpoch.geometry = reg.currentEpoch.geometry
  signal : reg'.currentVersion ≠ reg.currentVersion → reg.generation < reg'.generation

theorem RegistryAdvances.trans {r₁ r₂ r₃ : SharedNumaRegistry} (h : RegistryAdvances r₁ r₂)
    (h' : RegistryAdvances r₂ r₃) : RegistryAdvances r₁ r₃ := by
  have hver := h.version
  have hver' := h'.version
  refine ⟨hver.trans hver', h.generation.trans h'.generation, ?_, ?_⟩
  · intro heq
    rw [h'.geometry (by omega), h.geometry (by omega)]
  · intro hne
    by_cases hsame : r₂.currentVersion = r₁.currentVersion
    · exact h.generation.trans_lt (h'.signal (fun heq => hne (heq.trans hsame)))
    · exact (h.signal hsame).trans_le h'.generation

theorem SharedNumaRegistry.SameData.advances {reg reg' : SharedNumaRegistry}
    (h : SharedNumaRegistry.SameData reg reg') : RegistryAdvances reg reg' where
  version := le_of_eq h.currentVersion.symm
  generation := le_of_eq h.generation.symm
  geometry := fun _ => by
    unfold SharedNumaRegistry.currentEpoch
    rw [h.currentVersion, h.geometry]
  signal := fun hne => absurd h.currentVersion hne

theorem checkState_advances {H : HashFn} {s s' : Server} {inp : TickInput} (h : s.checkState H inp = .ok s') :
    RegistryAdvances s.registry s'.registry := by
  have hchange := (checkState_move h).change
  refine ⟨hchange.version, hchange.generation, ?_, fun hne => hchange.signal (Or.inr hne)⟩
  intro hsame
  rcases checkState_cases h with hq | ⟨-, rfl⟩
  · unfold SharedNumaRegistry.currentEpoch
    rw [hsame, hq.geometry]
  · exact absurd hsame (nextVersion_ne _)

/-! ## The thread and its process -/

/-- The thread has mapped the region of its local version. -/
structure ThreadMapped (reg : SharedNumaRegistry) (r : ClientRegionState) : Prop where
  mapping : r.mapping = some ⟨r.localVersion, true⟩
  lock : r.lockArray = some r.localVersion
  version : r.localVersion ≤ reg.currentVersion
  generation : r.localGeneration ≤ reg.generation
  wrappers : ∃ wr, r.wrappers = some wr ∧
    (r.localVersion = reg.currentVersion → wr = .ofEpoch reg.currentVersion reg.currentEpoch.geometry)
  /-- the fast path of the version check skips no remap -/
  fastPath : r.localGeneration = reg.generation → r.localVersion = reg.currentVersion

/-- A thread has mapped, or it is as it started. -/
def ThreadOk (reg : SharedNumaRegistry) (r : ClientRegionState) : Prop :=
  ThreadMapped reg r ∨ ∃ lane, r = .init lane

/-- Until the generation moves for the first time, the globals of a connected process are the wrappers of the current
    region. -/
def ProcessOk (reg : SharedNumaRegistry) (p : ClientProcess) : Prop :=
  p.registryMapped = true → reg.generation = 0 → ∃ r, p.remote = some r ∧ r.live = true ∧
    r.wrappers = .ofEpoch reg.currentVersion reg.currentEpoch.geometry

section Thread

variable {reg reg' : SharedNumaRegistry} {r : ClientRegionState} {p : ClientProcess}

theorem ThreadMapped.advance (h : ThreadMapped reg r) (ha : RegistryAdvances reg reg') : ThreadMapped reg' r := by
  have hver := h.version
  have hver' := ha.version
  refine ⟨h.mapping, h.lock, hver.trans hver', h.generation.trans ha.generation, ?_, ?_⟩
  · obtain ⟨wr, hwr, hcur⟩ := h.wrappers
    refine ⟨wr, hwr, fun heq => ?_⟩
    -- versions do not come back: a thread on the current version was on it before
    have hsame : reg'.currentVersion = reg.currentVersion := by omega
    rw [ha.geometry hsame, hsame]
    exact hcur (heq.trans hsame)
  · intro heq
    have hgen := h.generation
    have hgen' := ha.generation
    have hsame : reg'.currentVersion = reg.currentVersion := by
      by_contra hne
      have hlt := ha.signal hne
      omega
    rw [hsame]
    exact h.fastPath (by omega)

theorem ThreadOk.advance (h : ThreadOk reg r) (ha : RegistryAdvances reg reg') : ThreadOk reg' r :=
  h.imp_left (fun hm => hm.advance ha)

theorem ProcessOk.advance (h : ProcessOk reg p) (ha : RegistryAdvances reg reg') : ProcessOk reg' p := by
  intro hm hzero
  have hgen := ha.generation
  have hsame : reg'.currentVersion = reg.currentVersion := by
    by_contra hne
    have hlt := ha.signal hne
    omega
  rw [ha.geometry hsame, hsame]
  exact h hm (by omega)

/-- A mapped thread on the current version. -/
theorem ThreadMapped.onCurrent {c : ClientView} (h : ThreadMapped c.shared.registry c.region)
    (hver : c.region.localVersion = c.shared.registry.currentVersion) : c.OnCurrent := by
  obtain ⟨wr, hwr, hcur⟩ := h.wrappers
  refine ⟨?_, ?_, ?_⟩
  · unfold ClientView.selectWrappers
    rw [hwr, hcur hver]
  · unfold ClientView.selectLock
    rw [h.lock, h.mapping]
    rfl
  · unfold ClientView.lockRegion
    rw [h.lock, hver]

/-- A thread that never mapped, in a connected process before the first signal: it works through the globals. -/
theorem ProcessOk.onCurrent {c : ClientView} {lane : Nat} (h : ProcessOk c.shared.registry c.process)
    (hm : c.process.registryMapped = true) (hzero : c.shared.registry.generation = 0) (hr : c.region = .init lane) :
    c.OnCurrent := by
  obtain ⟨rem, hrem, hlive, hwr⟩ := h hm hzero
  have hnone : c.region.wrappers = none ∧ c.region.lockArray = none := by
    rw [hr]
    exact ⟨rfl, rfl⟩
  refine ⟨?_, ?_, ?_⟩
  · unfold ClientView.selectWrappers
    rw [hnone.1, hrem]
    simp only [hlive, if_true, hwr]
  · unfold ClientView.selectLock
    rw [hnone.2, hrem]
    simp only [hlive, if_true]
  · unfold ClientView.lockRegion
    rw [hnone.2, hrem]
    simp only [Option.map_some, hwr]
    rfl

/-- Attaching to the current version. -/
theorem attach_mapped (c : ClientView) (env : OpEnv) :
    ThreadMapped (c.attach c.shared.registry.currentVersion env).shared.registry
      (c.attach c.shared.registry.currentVersion env).region := by
  have hkeep := attach_data c c.shared.registry.currentVersion env
  refine ⟨rfl, rfl, ?_, ?_, ⟨_, rfl, fun _ => ?_⟩, fun _ => hkeep.registry.currentVersion.symm⟩
  · rw [hkeep.registry.currentVersion]
    exact le_refl _
  · rw [hkeep.registry.generation]
    exact le_refl _
  · rw [hkeep.currentEpoch, hkeep.registry.currentVersion]
    rfl

end Thread

/-! ## The version check -/

section Check

variable {c : ClientView} {tid : Nat} {env : OpEnv}

/-- The current version can be attached to. -/
def Shared.Attachable (sh : Shared) : Prop :=
  sh.RegistryReady ∧ sh.registry.currentVersion ≠ 0 ∧ sh.linked sh.registry.currentVersion = true

theorem Shared.Attachable.remapOpens {sh : Shared} (h : sh.Attachable) (hopen : env.opensRegion = true) :
    sh.RemapOpens env := by
  refine ⟨h.1.2.2, ?_⟩
  unfold Shared.openRegion
  rw [h.2.2, hopen]
  rfl

/-- What the version check leaves of a thread and its process. -/
structure Checked (c d : ClientView) : Prop where
  thread : ThreadOk d.shared.registry d.region
  process : ProcessOk d.shared.registry d.process
  current : c.process.registryMapped = true → d.OnCurrent

/-- A remap is only made once the generation has moved. -/
theorem ThreadOk.generation_pos {reg : SharedNumaRegistry} {r : ClientRegionState} (h : ThreadOk reg r)
    (hgen : reg.generation ≠ r.localGeneration) : 0 < reg.generation := by
  rcases h with hmap | ⟨lane, rfl⟩
  · have hle := hmap.generation
    omega
  · exact Nat.pos_of_ne_zero hgen

/-- **The version check puts a connected thread on the current region.** -/
theorem maybeCheckVersion_checked (tid : Nat) (hsh : c.shared.Attachable) (hopen : env.opensRegion = true)
    (hthread : ThreadOk c.shared.registry c.region) (hproc : ProcessOk c.shared.registry c.process) :
    Checked c (c.maybeCheckVersion tid env) := by
  unfold ClientView.maybeCheckVersion
  simp only
  split
  · rename_i hm
    exact ⟨hthread, hproc, fun h => absurd (hm.symm.trans h) Bool.false_ne_true⟩
  · rename_i hm
    have hm : c.process.registryMapped = true := Bool.eq_true_of_not_eq_false hm
    split
    · -- the fast path
      rename_i hgen
      refine ⟨hthread, hproc, fun _ => ?_⟩
      rcases hthread with hmap | ⟨lane, hr⟩
      · exact hmap.onCurrent (hmap.fastPath hgen.symm)
      · refine hproc.onCurrent hm ?_ hr
        rw [hgen, hr]
        rfl
    · rename_i hgen
      have hpos := hthread.generation_pos hgen
      split
      · -- the remap succeeds
        rcases remap_shared c tid env with ⟨hstop, -⟩ | ⟨-, heq⟩
        · rcases hstop with hno | hno
          · exact absurd (hno.symm.trans hm) Bool.false_ne_true
          · exact absurd (hsh.remapOpens hopen) hno
        · have hkeep := attach_data (c.unmapOld tid) c.shared.registry.currentVersion env
          have hmap := attach_mapped (c.unmapOld tid) env
          rw [unmapOld_shared] at hkeep hmap
          rw [heq]
          refine ⟨Or.inl hmap, ?_, fun _ => hmap.onCurrent ?_⟩
          · intro _ hzero
            rw [hkeep.registry.generation] at hzero
            omega
          · exact hkeep.registry.currentVersion.symm
      · -- the same version: only the generation is taken over
        rename_i hver
        have hver : c.shared.registry.currentVersion = c.region.localVersion := not_not.mp hver
        have hsame := SharedNumaRegistry.sameData_heartbeat c.shared.registry c.region.clientSlot env.now
        rcases hthread with hmap | ⟨lane, hr⟩
        · have hmap' := hmap.advance hsame.advances
          have htaken : ThreadMapped (c.shared.registry.heartbeat c.region.clientSlot env.now)
              { c.region with localGeneration := c.shared.registry.generation } :=
            ⟨hmap'.mapping, hmap'.lock, hmap'.version, le_of_eq hsame.generation.symm, hmap'.wrappers,
              fun _ => hver.symm.trans hsame.currentVersion.symm⟩
          refine ⟨Or.inl htaken, hproc.advance hsame.advances, fun _ => ThreadMapped.onCurrent htaken ?_⟩
          exact hver.symm.trans hsame.currentVersion.symm
        · rw [hr] at hver
          exact absurd hver hsh.2.1

end Check

/-! ## The current region -/

/-- What every reachable server keeps, `rows` being the number of buckets of the first region: each client's lookup unit
    still names rows of that one. -/
structure RegionOk (rows : Nat) (s : Server) : Prop where
  owned : Owned s
  orch : OrchInv s
  attachable : s.shared.Attachable
  rows : rows ≤ s.geometry.numBuckets
  entries : 0 < s.geometry.numDataEntries
  /-- every slot names an entry of the region, an empty one the first -/
  slots : ∀ r t, r < s.geometry.numBuckets → s.table.addr r t < s.geometry.numDataEntries

/-- An operation leaves a slot's address as it was, clears it, or stores an index it was given. -/
theorem step_addr_lt {H : HashFn} {st st' : Store} {op : NumaOp} {n : Nat} (hok : st.step H op = .ok st') (hpos : 0 < n)
    (hle : st.numDataEntries ≤ n) {r : Nat} {t : Slot} (h : st.addr r t < n) : st'.addr r t < n := by
  cases op with
  | put laneId k v =>
      cases numaPut_inv hok with
      | noSpace s hs ha => exact h
      | insert s idx hs ha =>
          have hlt := nextIndex_lt ha
          unfold Store.insertEntry
          rw [Store.setWord_addr]
          split
          · -- the 40 bits of a slot word may cut an index, but only to a smaller one
            rw [addrOf_insertWord]
            exact lt_of_le_of_lt (Nat.mod_le idx (2 ^ 40)) (lt_of_lt_of_le hlt hle)
          · exact h
      | update hst hk => exact h
      | dropped hst hk => exact h
      | overwrite hst => exact h
  | update k v =>
      rcases numaUpdate_cases hok with ⟨-, rfl⟩ | ⟨-, rfl⟩
      · exact h
      · exact h
  | remove k =>
      rcases numaRemove_cases hok with ⟨-, rfl⟩ | ⟨-, rfl⟩
      · exact h
      · rw [Store.setWord_addr]
        split
        · rw [addrOf_zero]
          exact hpos
        · exact h

section Region

variable {H : HashFn} {rows : Nat} {s s' : Server}

theorem OrchInv.clientsOnly (h : OrchInv s) {sh : Shared} (hc : ClientsOnly s.registry sh.registry) :
    OrchInv { s with shared := sh } := by
  obtain ⟨w, hw⟩ := hc
  exact (h.clientsWrite w).congr hw rfl rfl rfl rfl rfl

theorem Shared.Attachable.clientsOnly {sh sh' : Shared} (h : sh.Attachable) (hc : ClientsOnly sh.registry sh'.registry)
    (hl : sh'.linked = sh.linked) : sh'.Attachable := by
  obtain ⟨w, hw⟩ := hc
  unfold Shared.Attachable Shared.RegistryReady SharedNumaRegistry.currentEpoch SharedNumaRegistry.epochOf
  rw [hw, hl]
  exact h

/-- A version check or a connect. -/
theorem RegionOk.attach (h : RegionOk rows s) {sh : Shared} (hk : AttachKeeps s.shared sh) :
    RegionOk rows { s with shared := sh } := by
  have hgeo : Server.geometry { s with shared := sh } = s.geometry := hk.currentEpoch
  refine ⟨h.owned.attach hk, h.orch.clientsOnly hk.clients, h.attachable.clientsOnly hk.clients hk.linked,
    by rw [hgeo]; exact h.rows, by rw [hgeo]; exact h.entries, ?_⟩
  rw [hgeo]
  intro r t hr
  have hbuckets : (sh.regions sh.registry.currentVersion).buckets
      = (s.shared.regions s.registry.currentVersion).buckets := by
    rw [hk.registry.currentVersion, hk.buckets]
    rfl
  show addrOf (((sh.regions sh.registry.currentVersion).buckets r).slots t) < s.geometry.numDataEntries
  rw [hbuckets]
  exact h.slots r t hr

/-- What an operation commits. -/
theorem RegionOk.commit {c : ClientView} {wr : Wrappers} {op : NumaOp} {st : Store}
    (h : RegionOk rows { s with shared := c.shared }) (hst : (c.store wr).step H op = .ok st) :
    RegionOk rows { s with shared := (c.commit wr st).shared } := by
  have hclients := commit_clientsOnly hst
  refine ⟨h.owned.commit hst, h.orch.clientsOnly hclients, h.attachable.clientsOnly hclients rfl, h.rows, h.entries, ?_⟩
  intro r t hr
  have hold := h.slots r t hr
  show addrOf ((((c.commit wr st).shared.regions c.shared.registry.currentVersion).buckets r).slots t)
    < c.shared.registry.currentEpoch.geometry.numDataEntries
  by_cases hw : wr.ver = c.shared.registry.currentVersion
  · have hregion : (c.commit wr st).shared.regions c.shared.registry.currentVersion
        = ⟨st.packed.rawArray, st.buckets.bucketsArray⟩ := by
      rw [← hw]
      exact Shared.setRegion_self _ _ _
    have hbefore : (c.store wr).addr r t < c.shared.registry.currentEpoch.geometry.numDataEntries := by
      show addrOf (((c.shared.regions wr.ver).buckets r).slots t) < _
      rw [hw]
      exact hold
    have hle : (c.store wr).numDataEntries ≤ c.shared.registry.currentEpoch.geometry.numDataEntries := by
      show (if c.process.registryMapped then c.shared.registry.currentEpoch.geometry.numDataEntries else 0)
        ≤ c.shared.registry.currentEpoch.geometry.numDataEntries
      split
      · exact le_refl _
      · exact Nat.zero_le _
    rw [hregion]
    exact step_addr_lt hst h.entries hle hbefore
  · have hregion : (c.commit wr st).shared.regions c.shared.registry.currentVersion
        = c.shared.regions c.shared.registry.currentVersion := Shared.setRegion_of_ne _ _ (Ne.symm hw)
    rw [hregion]
    exact hold

/-- The current version stays linked and the registry ready. -/
theorem Shared.Attachable.move (h : s.shared.Attachable) (horch : OrchInv s) (hm : TickMove s s') :
    s'.shared.Attachable := by
  have horch' := horch.move hm
  have hne : s'.registry.currentVersion ≠ 0 := by
    intro hzero
    apply horch'.slot
    rw [hzero]
    rfl
  have hready : s'.shared.registry.magic = kNumaMetaMagic ∧ s'.shared.registry.ready = true := by
    obtain ⟨⟨hmagic, hrdy, -⟩, -, -⟩ := h
    cases hm with
    | wait | trigger | abort | copy | acked | reclaimed => exact ⟨hmagic, hrdy⟩
    | drained hst inp hkeep =>
        obtain ⟨regions, wrappers, rfl⟩ := hkeep
        unfold Server.finishDrain
        split <;> exact ⟨hmagic, hrdy⟩
  refine ⟨⟨hready.1, hready.2, horch'.current.1⟩, hne, ?_⟩
  have hlinked := h.2.2
  cases hm with
  | wait | trigger | acked => exact hlinked
  | abort hst linked hkeep => exact hkeep _ hlinked
  | copy hst g => exact Function.update_self ..
  | drained hst inp hkeep =>
      obtain ⟨regions, wrappers, rfl⟩ := hkeep
      unfold Server.finishDrain
      split <;> exact hlinked
  | reclaimed hst =>
      -- the region that is unlinked is the old one, in another slot of the epoch table
      show (if s.pendingOldVer > 0 then Function.update s.shared.linked s.pendingOldVer false
        else s.shared.linked) s.registry.currentVersion = true
      split
      · rename_i hold
        have hslot := (horch.old (by omega)).2
        have hcur : s.registry.currentVersion ≠ s.pendingOldVer := fun heq => hslot (by rw [heq])
        rw [Function.update_of_ne hcur]
        exact hlinked
      · exact hlinked

/-- A tick. -/
theorem RegionOk.tick (h : RegionOk rows s) {inp : TickInput} (hok : s.checkState H inp = .ok s') :
    RegionOk rows s' := by
  have hm := checkState_move hok
  have howned := h.owned.tick hok
  have horch := h.orch.move hm
  have hattach := h.attachable.move h.orch hm
  rcases checkState_cases hok with hq | ⟨-, rfl⟩
  · obtain ⟨-, -, hregion⟩ := hq.regions h.owned.noInserts h.owned.noDeletes
    have hgeo : s'.geometry = s.geometry := by
      unfold Server.geometry SharedNumaRegistry.currentEpoch
      rw [hq.currentVersion, hq.geometry]
    refine ⟨howned, horch, hattach, by rw [hgeo]; exact h.rows, by rw [hgeo]; exact h.entries, ?_⟩
    rw [hgeo]
    intro r t hr
    show addrOf (((s'.shared.regions s'.registry.currentVersion).buckets r).slots t) < _
    rw [hq.currentVersion, hregion]
    exact h.slots r t hr
  · have hgeo := h.owned.laidOut.copied_geometry inp.packedStruct
    have hbuckets : (s.copied s.registry.currentVersion inp.packedStruct).geometry.numBuckets
        = s.geometry.numBuckets * 2 := by
      rw [hgeo]
      rfl
    have hdata : (s.copied s.registry.currentVersion inp.packedStruct).geometry.numDataEntries
        = s.geometry.numDataEntries * 2 := by
      rw [hgeo]
      rfl
    have hrows := h.rows
    have hentries := h.entries
    refine ⟨howned, horch, hattach, by omega, by omega, ?_⟩
    intro r t _
    rw [hdata]
    unfold Store.addr
    rw [h.owned.copied_word]
    split
    · rename_i hr
      have hold := h.slots r t hr
      unfold Store.addr at hold
      omega
    · rw [addrOf_zero]
      omega

end Region

/-! ## An operation in range returns -/

theorem NumaOp.onLane_key (op : NumaOp) (laneId : Nat) : (op.onLane laneId).key = op.key := by
  cases op <;> rfl

/-- A client's operation returns behind a version check that put it on the current region. -/
theorem clientStep_returns {H : HashFn} {c : ClientView} {tid : Nat} {env : OpEnv} {op : ClientOp} {wr : Wrappers}
    (hsel : (c.maybeCheckVersion tid env).selectWrappers = .ok (some wr))
    (hlock : (c.maybeCheckVersion tid env).selectLock = .ok true)
    (hrow : (c.maybeCheckVersion tid env).process.lookup.row H op.key < wr.numBuckets)
    (haddr : ∀ t, ((c.maybeCheckVersion tid env).store wr).addr
      ((c.maybeCheckVersion tid env).process.lookup.row H op.key) t < wr.numDataEntries)
    (hle : ((c.maybeCheckVersion tid env).store wr).numDataEntries ≤ wr.numDataEntries) :
    ∃ c', c.step H tid env op = .ok c' := by
  cases op with
  | search key =>
      have hsearch : ((c.maybeCheckVersion tid env).store wr).numaSearch H key = .ok _ := numaSearch_eq_probe hrow haddr
      change ∃ c', (c.numaSearch H tid env key).map Prod.fst = .ok c'
      unfold ClientView.numaSearch
      simp only [hsel, Exec.ok_bind, hsearch]
      exact ⟨_, rfl⟩
  | write numaOp =>
      obtain ⟨st, hst⟩ := step_returns (H := H) ((c.maybeCheckVersion tid env).store wr)
        (numaOp.onLane (c.maybeCheckVersion tid env).region.remoteLaneId)
        (by rw [NumaOp.onLane_key]; exact hrow) (by rw [NumaOp.onLane_key]; exact haddr) hle
      change ∃ c', c.numaWrite H tid env numaOp = .ok c'
      unfold ClientView.numaWrite
      simp only [hsel, hlock, Exec.ok_bind, if_true, hst]
      exact ⟨_, rfl⟩

/-! ## The world -/

/-- What every reachable world keeps. -/
structure InsideInv (rows : Nat) (w : World) : Prop where
  region : RegionOk rows w.server
  lookups : ∀ p, (w.procs p).lookup.numBuckets = rows
  processes : ∀ p, ProcessOk w.server.registry (w.procs p)
  threads : ∀ tid, ThreadOk w.server.registry (w.threads tid).region

section World

variable {H : HashFn} {rows : Nat} {w w' : World}

/-- A thread's step: the rest of the world only sees the registry. -/
theorem InsideInv.putView (h : InsideInv rows w) (tid : Nat) {c : ClientView}
    (hregion : RegionOk rows { w.server with shared := c.shared })
    (hadv : RegistryAdvances w.server.registry c.shared.registry) (hlk : c.process.lookup.numBuckets = rows)
    (hproc : ProcessOk c.shared.registry c.process) (hthread : ThreadOk c.shared.registry c.region) :
    InsideInv rows (w.putView tid c) := by
  refine ⟨hregion, ?_, ?_, ?_⟩
  · intro p
    by_cases hp : p = (w.threads tid).proc
    · subst hp
      rw [World.putView_procs_self]
      exact hlk
    · rw [World.putView_procs_of_ne _ _ _ hp]
      exact h.lookups p
  · intro p
    by_cases hp : p = (w.threads tid).proc
    · subst hp
      rw [World.putView_procs_self]
      exact hproc
    · rw [World.putView_procs_of_ne _ _ _ hp]
      exact (h.processes p).advance hadv
  · intro i
    by_cases hi : i = tid
    · subst hi
      rw [World.putView_region_self]
      exact hthread
    · rw [World.putView_threads_of_ne _ _ _ hi]
      exact (h.threads i).advance hadv

/-- A connect that opens what it needs registers, attaches to the current version and sets the globals. -/
theorem connect_attaches (c : ClientView) (tid : Nat) (env : OpEnv) (hreg : env.opensRegistry = true)
    (hready : c.shared.RegistryReady) (hopen : c.shared.RemapOpens env) : ∃ d : ClientView,
      SharedNumaRegistry.SameData c.shared.registry d.shared.registry ∧ d.process = c.process ∧
      (c.connectToNumaServer tid env).2 = { d.attach d.shared.registry.currentVersion env with
        process := { c.process with
          registryMapped := true
          remote := some ⟨.ofEpoch d.shared.registry.currentVersion d.shared.registry.currentEpoch.geometry, tid,
            true⟩ } } := by
  have hdata := SharedNumaRegistry.sameData_registerClient c.shared.registry
  refine ⟨⟨c.shared.withRegistry c.shared.registry.registerClient, c.process,
    { c.region with clientSlot := c.shared.registry.freeClientSlot.or c.region.clientSlot }⟩, hdata, rfl, ?_⟩
  have hver : (c.shared.withRegistry c.shared.registry.registerClient).registry.currentVersion
      = c.shared.registry.currentVersion := hdata.currentVersion
  have hopens : ¬ (c.shared.withRegistry c.shared.registry.registerClient).openRegion
      c.shared.registry.currentVersion env.opensRegion = false := by
    rw [Bool.not_eq_false]
    exact hopen.2
  unfold ClientView.connectToNumaServer SharedNumaRegistry.currentEpoch
  simp only [hreg, Bool.true_eq_false, if_false, hready, not_true_eq_false, hopens, hver]
  rfl

/-- What a connect leaves of a thread and its process, when whatever exists opens. -/
theorem connect_ok {c : ClientView} (tid : Nat) {env : OpEnv} (hsh : c.shared.Attachable) (hopen : env.opensRegion = true)
    (hthread : ThreadOk c.shared.registry c.region) (hproc : ProcessOk c.shared.registry c.process) :
    ThreadOk (c.connectToNumaServer tid env).2.shared.registry (c.connectToNumaServer tid env).2.region ∧
    ProcessOk (c.connectToNumaServer tid env).2.shared.registry (c.connectToNumaServer tid env).2.process ∧
    (c.connectToNumaServer tid env).2.process.lookup = c.process.lookup := by
  cases hreg : env.opensRegistry with
  | false =>
      unfold ClientView.connectToNumaServer
      rw [if_pos hreg]
      exact ⟨hthread, hproc, rfl⟩
  | true =>
      obtain ⟨d, hdata, hd, heq⟩ := connect_attaches c tid env hreg hsh.1 (hsh.remapOpens hopen)
      have hkeep := attach_data d d.shared.registry.currentVersion env
      rw [heq]
      refine ⟨Or.inl (attach_mapped d env), fun _ _ => ⟨_, rfl, rfl, ?_⟩, rfl⟩
      rw [hkeep.currentEpoch, hkeep.registry.currentVersion]

/-- **One step of a world.** -/
theorem InsideInv.step {a : AtomicStep} (h : InsideInv rows w) (hopen : OpensExisting w a) (hok : w.atomic H a = .ok w') :
    InsideInv rows w' := by
  cases a with
  | connect tid env =>
      cases hok
      have hkeep := connect_data (w.view tid) tid env
      obtain ⟨hthread, hproc, hlk⟩ := connect_ok (c := w.view tid) tid h.region.attachable hopen (h.threads tid)
        (h.processes _)
      exact h.putView tid (h.region.attach hkeep) hkeep.registry.advances (by rw [hlk]; exact h.lookups _) hproc hthread
  | client tid env op =>
      obtain ⟨c, hc, hok⟩ := Lib.bind_eq_ok.mp hok
      cases hok
      have hkeep := maybeCheckVersion_data (w.view tid) tid env
      have hregion := h.region.attach hkeep
      have hcheck := maybeCheckVersion_checked (c := w.view tid) tid h.region.attachable hopen (h.threads tid)
        (h.processes _)
      have hlk : ((w.view tid).maybeCheckVersion tid env).process.lookup.numBuckets = rows := by
        rw [(maybeCheckVersion_keeps (w.view tid) tid env).1]
        exact h.lookups _
      rcases clientStep_inv hc with rfl | ⟨wr, numaOp, st, -, -, hst, rfl⟩
      · exact h.putView tid hregion hkeep.registry.advances hlk hcheck.process hcheck.thread
      · -- a commit moves lane counters only
        have hadv : RegistryAdvances ((w.view tid).maybeCheckVersion tid env).shared.registry
            (((w.view tid).maybeCheckVersion tid env).commit wr st).shared.registry :=
          ⟨le_refl _, le_refl _, fun _ => rfl, fun hne => absurd rfl hne⟩
        exact h.putView tid (hregion.commit hst) (hkeep.registry.advances.trans hadv) ((step_numBuckets hst).trans hlk)
          (hcheck.process.advance hadv) (hcheck.thread.advance hadv)
  | tick inp =>
      obtain ⟨s, hs, hok⟩ := Lib.bind_eq_ok.mp hok
      cases hok
      have hadv := checkState_advances hs
      exact ⟨h.region.tick hs, h.lookups, fun p => (h.processes p).advance hadv, fun tid => (h.threads tid).advance hadv⟩

/-- **Every operation of a connected thread is inside the current region.** -/
theorem InsideInv.insideCurrent (h : InsideInv rows w) (hrows : 0 < rows) {tid : Nat} {env : OpEnv}
    (hopen : env.opensRegion = true) (hm : (w.view tid).process.registryMapped = true) (op : ClientOp) :
    InsideCurrent H (w.view tid) tid env op := by
  have hcur := (maybeCheckVersion_checked (c := w.view tid) tid h.region.attachable hopen
    (h.threads tid) (h.processes _)).current hm
  have hkeep := maybeCheckVersion_data (w.view tid) tid env
  have hlk := (maybeCheckVersion_keeps (w.view tid) tid env).1
  have hnum : (w.view tid).process.lookup.numBuckets = rows := h.lookups _
  have hlt : (w.view tid).process.lookup.row H op.key < rows := by
    rw [← hnum]
    exact DataPlaneLudo.row_lt H (by omega) op.key
  have hrow : (w.view tid).process.lookup.row H op.key < w.server.geometry.numBuckets := hlt.trans_le h.region.rows
  refine ⟨hcur, hrow, fun t => h.region.slots _ t hrow, ?_, ?_⟩
  · intro idx hidx
    unfold Lanes.allocRemoteDataSlot at hidx
    simp only at hidx
    split at hidx
    · cases hidx
    · cases hidx
      omega
  · refine clientStep_returns hcur.wrappers hcur.lock ?_ ?_ ?_
    · rw [hlk, hkeep.currentEpoch]
      exact hrow
    · intro t
      show addrOf ((((((w.view tid).maybeCheckVersion tid env).shared.regions
        ((w.view tid).maybeCheckVersion tid env).shared.registry.currentVersion).buckets
        (((w.view tid).maybeCheckVersion tid env).process.lookup.row H op.key)).slots t))
        < ((w.view tid).maybeCheckVersion tid env).shared.registry.currentEpoch.geometry.numDataEntries
      rw [hlk, hkeep.currentEpoch, hkeep.registry.currentVersion, hkeep.buckets]
      exact h.region.slots _ t hrow
    · show (if ((w.view tid).maybeCheckVersion tid env).process.registryMapped then
        ((w.view tid).maybeCheckVersion tid env).shared.registry.currentEpoch.geometry.numDataEntries else 0)
        ≤ ((w.view tid).maybeCheckVersion tid env).shared.registry.currentEpoch.geometry.numDataEntries
      split
      · exact le_refl _
      · exact Nat.zero_le _

end World

/-! ## From the bulk load on -/

/-- In every world that connects, data operations and ticks reach from the published store, with regions that open when
    they exist and every client holding a copy of the server's lookup unit, each operation of a connected client works
    inside the current region. -/
def AlwaysInside (H : HashFn) (st : Store) (sSlow sStop : Nat) : Prop :=
  ∀ (proc lane : Nat → Nat) (w : World),
    Lib.Reaches (World.atomic H) OpensExisting ((st.server sSlow sStop).world (fun _ => st.lookup) proc lane) w →
    ∀ (tid : Nat) (env : OpEnv) (op : ClientOp), env.opensRegion = true →
      (w.view tid).process.registryMapped = true → InsideCurrent H (w.view tid) tid env op

section BulkLoad

variable {H : HashFn} {cp : ExactLudo} {existKeys : List U64} {memThreads : Nat} {alien : U64 → Bool}
  {regMem : Nat → PackedStruct} {packedStruct : PackedStruct} {st : Store}

theorem Loaded.insideInv (h : Loaded H cp existKeys)
    (hok : setupLudoTable H cp existKeys memThreads alien regMem packedStruct = .ok st) (hne : existKeys ≠ [])
    (sSlow sStop : Nat) (proc lane : Nat → Nat) :
    InsideInv st.lookup.numBuckets ((st.server sSlow sStop).world (fun _ => st.lookup) proc lane) := by
  have hinv := h.storeInv hok
  have hlen : 0 < existKeys.length := List.length_pos_of_ne_nil hne
  have hpos : 0 < st.buckets.numElements := by
    rw [hinv.buckets]
    exact hinv.pos
  have hdata : (st.server sSlow sStop).geometry.numDataEntries = 2 * existKeys.length := hinv.packed
  refine ⟨⟨h.owned hok sSlow sStop, orchInv_start hpos sSlow sStop, ⟨⟨rfl, rfl, rfl⟩, Nat.one_ne_zero, rfl⟩, ?_, ?_, ?_⟩,
    fun _ => rfl, fun _ hm => absurd hm Bool.false_ne_true, fun tid => Or.inr ⟨lane tid, rfl⟩⟩
  · exact le_of_eq hinv.buckets.symm
  · exact hdata ▸ (by omega)
  · intro r t hr
    exact hinv.addr_lt hlen t (hinv.buckets ▸ hr)

/-- Without a loaded key the first connected client has no packed entry to read. -/
theorem not_alwaysInside_nil (hok : setupLudoTable H cp [] memThreads alien regMem packedStruct = .ok st)
    (sSlow sStop : Nat) : ¬ AlwaysInside H st sSlow sStop := by
  intro hall
  obtain ⟨st', hok', -, -, -, -, hel, -⟩ := setupLudoTable_ok H cp [] memThreads alien regMem packedStruct
  obtain rfl : st' = st := Except.ok.inj (hok'.symm.trans hok)
  let w := (st'.server sSlow sStop).world (fun _ => st'.lookup) (fun _ => 0) (fun _ => 0)
  let env : OpEnv := ⟨true, true, .zero, 0⟩
  have hready : (w.view 0).shared.RegistryReady := ⟨rfl, rfl, rfl⟩
  obtain ⟨d, -, -, hend⟩ := connect_attaches (w.view 0) 0 env rfl hready ⟨rfl, rfl⟩
  have hkeep := connect_data (w.view 0) 0 env
  have hmapped : ((w.connect 0 env).view 0).process.registryMapped = true := by
    show ((w.connect 0 env).procs (w.threads 0).proc).registryMapped = true
    rw [World.connect, World.putView_procs_self, hend]
  have hin := (hall _ _ _ (Lib.Reaches.snoc .refl (a := .connect 0 env) rfl rfl) 0 env (.search 0) rfl hmapped).index 0
  have hgeo : ((w.connect 0 env).view 0).shared.registry.currentEpoch.geometry.numDataEntries = 0 := by
    show ((w.view 0).connectToNumaServer 0 env).2.shared.registry.currentEpoch.geometry.numDataEntries = 0
    rw [hkeep.currentEpoch]
    exact hel
  rw [hgeo] at hin
  exact absurd hin (Nat.not_lt_zero _)

end BulkLoad

/-- **Operations stay inside the current region exactly when the bulk load was not empty.** For any number of client
    processes and threads, any thresholds and any run. -/
theorem inside_current_iff {H : HashFn} {cp : ExactLudo} {existKeys : List U64} {memThreads : Nat} {alien : U64 → Bool}
    {regMem : Nat → PackedStruct} {packedStruct : PackedStruct} {st : Store} (hld : Loaded H cp existKeys)
    (hok : setupLudoTable H cp existKeys memThreads alien regMem packedStruct = .ok st) (sSlow sStop : Nat) :
    AlwaysInside H st sSlow sStop ↔ existKeys ≠ [] := by
  constructor
  · rintro hall rfl
    exact not_alwaysInside_nil hok sSlow sStop hall
  · intro hne proc lane w hrun tid env op hopen hm
    have hinv : InsideInv st.lookup.numBuckets w :=
      hrun.invariant (hld.insideInv hok hne sSlow sStop proc lane) (fun _ _ _ hv hC hstep => hv.step hC hstep)
    exact hinv.insideCurrent (hld.storeInv hok).pos hopen hm op

/-- The client connects, the store is resized, and its search of key 7 is inside the region of version 2. -/
theorem inside_current_seven : ∃ w, Lib.Reaches (World.atomic fastHasher64) OpensExisting sevenWorld w ∧
    w.server.registry.currentVersion = 2 ∧
    InsideCurrent fastHasher64 (w.view 0) 0 ⟨true, true, .zero, 1⟩ (.search 7) := by
  have hsetup := rowStore_setup 423 0 [7]
  have h₁ : Lib.Reaches (World.atomic fastHasher64) OpensExisting sevenWorld _ :=
    Lib.Reaches.snoc .refl (a := .connect 0 ⟨true, true, .zero, 1⟩) rfl rfl
  have h₃ := (h₁.snoc (a := .tick calmTick) trivial rfl).snoc (a := .tick calmTick) trivial rfl
  exact ⟨_, h₃, rfl, (inside_current_iff rowTable_seven hsetup 1 1).mpr (by decide) (fun _ => 0) (fun _ => 0) _ h₃ 0 _ _ rfl rfl⟩

/-- A store without keys: the client connects, and its search of key 7 reads past the packed array. -/
theorem empty_store_out_of_bounds :
    Loaded fastHasher64 (rowTable 423 0 []) [] ∧
    setupLudoTable fastHasher64 (rowTable 423 0 []) [] 1 (fun _ => false) (fun _ => .zero) .zero
      = .ok (rowStore 423 0 []) ∧
    ¬ AlwaysInside fastHasher64 (rowStore 423 0 []) 1 1 ∧
    ∃ w, Lib.Reaches (World.atomic fastHasher64) OpensExisting
        (((rowStore 423 0 []).server 1 1).world (fun _ => (rowStore 423 0 []).lookup) (fun _ => 0) (fun _ => 0)) w ∧
      (w.view 0).process.registryMapped = true ∧
      (w.view 0).step fastHasher64 0 ⟨true, true, .zero, 1⟩ (.search 7) = .error .packedBounds := by
  have hsetup := rowStore_setup 423 0 []
  refine ⟨rowTable_loaded (by decide) rfl (by decide +kernel), hsetup, not_alwaysInside_nil hsetup 1 1, ?_⟩
  exact ⟨_, Lib.Reaches.snoc .refl (a := .connect 0 ⟨true, true, .zero, 1⟩) rfl rfl, rfl, rfl⟩

end Outback
