import Outback.Numa.Correctness.ReplayRemove
import Outback.Numa.Correctness.SystemInv

/-!
# `Numa.Correctness.ReplayExact` — when replays into the new region are puts and removes

A copy that completes in a reachable system leaves a region to replay into. **`replay_exact_iff`**: in every state that any
replays lead to from there, the next `replay_insert` is a put of its key exactly when `InsertPlain` holds of the region, and
the next `replay_delete` a remove exactly when `DeletePlain` does.

The region fits its slots (`Region.SlotsFit`): every step of the system keeps this of the current region (`RegionInv.step`),
a copy hands it to the next one, and a replay keeps it of that (`NewRegion.replay`).
-/

namespace Outback

/-! ## Slots that fit the region -/

/-- In the first `rows` rows an empty slot is the zero word, and an occupied one refers to one of the first `entries`
    entries. -/
def Region.SlotsFit (rg : Region) (rows entries : Nat) : Prop :=
  ∀ b, b < rows → ∀ t, (occ ((rg.buckets b).slots t) = false → (rg.buckets b).slots t = 0) ∧
    (occ ((rg.buckets b).slots t) = true → addrOf ((rg.buckets b).slots t) < entries)

theorem Region.SlotsFit.move {rg rg' : Region} {rows entries : Nat} {clears : Prop} {P : Nat → Prop}
    (h : rg.SlotsFit rows entries) (hm : BucketsMove clears P rg.buckets rg'.buckets) (hP : ∀ a, P a → a < entries) :
    rg'.SlotsFit rows entries := by
  intro b hb t
  have hword := hm b t
  have hslot := h b hb t
  generalize (rg.buckets b).slots t = word at hword hslot
  generalize (rg'.buckets b).slots t = word' at hword
  cases hword with
  | same => exact hslot
  | mark hocc hocc' ha =>
      refine ⟨fun hempty => absurd hocc' (by rw [hempty]; decide), fun _ => ?_⟩
      rw [ha]
      exact hslot.2 hocc
  | fill _ hocc' hp => exact ⟨fun hempty => absurd hocc' (by rw [hempty]; decide), fun _ => hP _ hp⟩
  | clear => exact ⟨fun _ => rfl, fun hocc => absurd hocc (by decide)⟩

/-! ## The current region of a reachable system -/

structure RegionInv (w : NumaSystem) : Prop where
  system : SystemInv w
  first : w.registry.currentVersion = 1 →
    w.server.packedData.numElements = w.server.orch.geometry.numDataEntries
  lookup : 0 < w.server.orch.lookup.numBuckets ∧ w.server.orch.lookup.numBuckets ≤ w.server.orch.geometry.numBuckets
  slots : (w.server.orch.shared.regions w.registry.currentVersion).SlotsFit w.server.orch.geometry.numBuckets
    w.server.orch.geometry.numDataEntries

/-! ## What keeps it -/

/-- What a step that completes no copy does to it. -/
structure RegionMoves (w w' : NumaSystem) : Prop where
  version : w'.registry.currentVersion = w.registry.currentVersion
  geometry : w'.server.orch.geometry = w.server.orch.geometry
  lookup : w'.server.orch.lookup = w.server.orch.lookup
  entries : w'.server.packedData.numElements = w.server.packedData.numElements
  buckets : BucketsMove True (· < w.server.orch.geometry.numDataEntries)
    (w.server.orch.shared.regions w.registry.currentVersion).buckets
    (w'.server.orch.shared.regions w.registry.currentVersion).buckets

section System

variable {H : HashFn} {w w' : NumaSystem}

theorem RegionInv.moves (h : RegionInv w) (hm : RegionMoves w w') (hsys : SystemInv w') : RegionInv w' := by
  refine ⟨hsys, fun hcur => ?_, ?_, ?_⟩
  · rw [hm.version] at hcur
    rw [hm.entries, hm.geometry]
    exact h.first hcur
  · rw [hm.lookup, hm.geometry]
    exact h.lookup
  · rw [hm.version, hm.geometry]
    exact h.slots.move hm.buckets (fun _ ha => ha)

/-- A tick leaves `ludo_lookup_` alone. -/
theorem checkState_lookup {s s' : Server} {inp : TickInput} (h : s.checkState H inp = .ok s') : s'.lookup = s.lookup := by
  cases checkState_move h with
  | wait | trigger | abort | copy | acked | reclaimed => rfl
  | drained hst inp hkeep =>
      obtain ⟨regions, wrappers, rfl⟩ := hkeep
      unfold Server.finishDrain
      split <;> rfl

theorem RegionInv.connect (tid : Nat) (env : OpEnv) : RegionMoves w (w.ofWorld (w.world.connect tid env)) := by
  have hdata := connect_data (w.world.view tid) tid env
  exact ⟨hdata.registry.currentVersion, hdata.currentEpoch, rfl, rfl, .of_eq (hdata.buckets _)⟩

/-- A client's wrappers over the current version see the entries of its region. -/
theorem RegionInv.client (h : RegionInv w) {tid : Nat} {env : OpEnv} {op : ClientOp} {c : ClientView}
    (hc : (w.world.view tid).step H tid env op = .ok c) : RegionMoves w (w.ofWorld (w.world.putView tid c)) := by
  have hclients : ClientsOnly w.registry c.shared.registry := clientStep_clientsOnly hc
  have hsame : c.shared.registry.currentVersion = w.registry.currentVersion ∧
      c.shared.registry.currentEpoch.geometry = w.server.orch.geometry := by
    obtain ⟨writes, hw⟩ := hclients
    rw [hw]
    exact ⟨rfl, rfl⟩
  refine ⟨hsame.1, hsame.2, rfl, rfl, (clientStep_buckets hc _).mono (fun _ => trivial) ?_⟩
  rintro a ⟨wr, idx, hsel, hver, hlt, -, rfl⟩
  have hupTo := ((h.system.clients tid).maybeCheckVersion (.ofEpoch _ _) tid env).select hsel
  rw [hupTo.current hver] at hlt
  exact lt_of_le_of_lt (Nat.mod_le _ _) hlt

/-- The handlers write to the current region as long as it is the first. -/
theorem RegionInv.call (h : RegionInv w) {d : DirectCall} {r : NumaServer × ReplyValue}
    (hr : w.server.call H d = .ok r) : RegionMoves w { w with server := r.1 } := by
  have hmoves := call_moves hr
  obtain ⟨regions, inserts, deletes, num, cache, -, heq⟩ := call_keeps hr
  have hreg : r.1.orch.registry = w.server.orch.registry := by rw [heq]; rfl
  refine ⟨congrArg SharedNumaRegistry.currentVersion hreg, congrArg (·.currentEpoch.geometry) hreg, by rw [heq],
    by rw [heq], (hmoves.buckets _).mono (fun _ => trivial) ?_⟩
  rintro a ⟨hver, hmoved, rfl⟩
  rw [h.system.buckets] at hver
  have hroom := (hmoves.allocates (by omega)).2
  rw [h.first hver] at hroom
  exact lt_of_le_of_lt (BitVec.toNat_ofNat _ _ ▸ Nat.mod_le _ _) hroom

theorem RegionInv.quietTick {s : Server} (hq : QuietTick w.server.orch s) (hlookup : s.lookup = w.server.orch.lookup) :
    RegionMoves w (w.putOrch s) := by
  refine ⟨hq.quiet.currentVersion, ?_, hlookup, rfl, .of_eq ?_⟩
  · show s.registry.currentEpoch.geometry = _
    unfold SharedNumaRegistry.currentEpoch
    rw [hq.quiet.currentVersion, hq.quiet.geometry]
    rfl
  · show (s.shared.regions _).buckets = _
    rw [hq.regions]

/-- The replays write to the region behind the orchestrator's views. -/
theorem RegionInv.replay (h : RegionInv w) {s : Server} (hs : w.server.orch.replayNext H = .ok s) :
    RegionMoves w (w.putOrch s) := by
  obtain ⟨hmoves, t, inserts, deletes, ⟨regions, wrappers, rfl⟩, rfl, -⟩ := replayNext_moves hs
  refine ⟨rfl, rfl, rfl, rfl, (hmoves.buckets _).mono (fun _ => trivial) ?_⟩
  rintro a ⟨r, hr, -, hroom, -, rfl⟩
  rw [(h.system.orch.views r hr).2.2.2] at hroom
  exact lt_of_le_of_lt (BitVec.toNat_ofNat _ _ ▸ Nat.mod_le _ _) hroom

/-- The slots of the region that a copy publishes. -/
theorem RegionInv.copied_slots (h : RegionInv w) (g : PackedStruct) :
    ((w.server.orch.copied w.registry.currentVersion g).shared.regions (nextVersion w.registry.currentVersion)).SlotsFit
      (w.server.orch.geometry.numBuckets * 2) (w.server.orch.geometry.numDataEntries * 2) := by
  intro b _ t
  have hbuckets : ((w.server.orch.copied w.registry.currentVersion g).shared.regions
      (nextVersion w.registry.currentVersion)).buckets b = _ := h.system.orch.copied_buckets g b
  rw [hbuckets]
  split
  · rename_i hb
    obtain ⟨hempty, hinside⟩ := h.slots b hb t
    exact ⟨hempty, fun hocc => lt_of_lt_of_le (hinside hocc) (Nat.le_mul_of_pos_right _ (by decide))⟩
  · exact ⟨fun _ => rfl, fun hocc => absurd hocc (by decide : ¬ occ 0 = true)⟩

theorem RegionInv.copied (h : RegionInv w) (g : PackedStruct)
    (hsys : SystemInv (w.putOrch (w.server.orch.copied w.registry.currentVersion g))) :
    RegionInv (w.putOrch (w.server.orch.copied w.registry.currentVersion g)) := by
  have hgeo := h.system.orch.laidOut.copied_geometry g
  have hlt := lt_nextVersion w.registry.currentVersion
  have hpos : 0 < w.registry.currentVersion := h.system.orch.version
  have hcur : (w.putOrch (w.server.orch.copied w.registry.currentVersion g)).registry.currentVersion
      = nextVersion w.registry.currentVersion := rfl
  refine ⟨hsys, fun hone => ?_, ⟨h.lookup.1, ?_⟩, ?_⟩
  · rw [hcur] at hone
    omega
  · show w.server.orch.lookup.numBuckets ≤ (w.server.orch.copied w.server.orch.registry.currentVersion g).geometry.numBuckets
    rw [hgeo]
    exact h.lookup.2.trans (Nat.le_mul_of_pos_right _ (by decide))
  · show Region.SlotsFit _ (w.server.orch.copied w.server.orch.registry.currentVersion g).geometry.numBuckets
      (w.server.orch.copied w.server.orch.registry.currentVersion g).geometry.numDataEntries
    rw [hgeo]
    exact h.copied_slots g

/-- **One step.** -/
theorem RegionInv.step (h : RegionInv w) {a : SystemStep} (hok : w.step H a = .ok w') : RegionInv w' := by
  have hsys := h.system.step hok
  cases a with
  | connect tid env =>
      cases hok
      exact h.moves (RegionInv.connect tid env) hsys
  | client tid env op =>
      obtain ⟨v, hv, hok⟩ := Lib.bind_eq_ok.mp hok
      cases hok
      obtain ⟨c, hc, hv⟩ := Lib.bind_eq_ok.mp hv
      cases hv
      exact h.moves (h.client hc) hsys
  | call d =>
      obtain ⟨r, hr, hok⟩ := Lib.bind_eq_ok.mp hok
      cases hok
      exact h.moves (h.call hr) hsys
  | tick inp =>
      change (if _ then _ else _) = _ at hok
      split at hok
      · cases hok
        exact h
      · rename_i hq
        obtain ⟨s, hs, hok⟩ := Lib.bind_eq_ok.mp hok
        cases hok
        rcases tick_inv hs hq with rfl | hquiet
        · exact h.copied _ hsys
        · exact h.moves (RegionInv.quietTick hquiet (checkState_lookup hs)) hsys
  | replay =>
      change (if _ then _ else _) = _ at hok
      split at hok
      · obtain ⟨s, hs, hok⟩ := Lib.bind_eq_ok.mp hok
        cases hok
        exact h.moves (h.replay hs) hsys
      · cases hok
        exact h

end System

theorem Loaded.regionInv {H : HashFn} {cp : ExactLudo} {existKeys : List U64} {memThreads : Nat} {alien : U64 → Bool}
    {regMem : Nat → PackedStruct} {packedStruct : PackedStruct} {st : Store} (h : Loaded H cp existKeys)
    (hok : setupLudoTable H cp existKeys memThreads alien regMem packedStruct = .ok st) (sSlow sStop : Nat)
    (lookup : Nat → DataPlaneLudo) (proc lane : Nat → Nat) :
    RegionInv ((st.numaServer sSlow sStop).system lookup proc lane) := by
  have hinv := h.storeInv hok
  have hrows : (st.server sSlow sStop).geometry.numBuckets = st.lookup.numBuckets := hinv.buckets
  have hentries : (st.server sSlow sStop).geometry.numDataEntries = 2 * existKeys.length := hinv.packed
  refine ⟨h.systemInv hok sSlow sStop lookup proc lane, fun _ => rfl, ⟨hinv.pos, le_of_eq hrows.symm⟩, ?_⟩
  show Region.SlotsFit ⟨st.packed.rawArray, st.buckets.bucketsArray⟩ (st.server sSlow sStop).geometry.numBuckets
    (st.server sSlow sStop).geometry.numDataEntries
  intro b hb t
  rw [hrows] at hb
  rw [hentries]
  exact ⟨fun hempty => hinv.empty b t hb (by rw [Store.Occupied, Store.word]; exact Bool.eq_false_iff.mp hempty),
    fun hocc => (hinv.issued b t hb hocc).1⟩

/-! ## The new region -/

/-- `numa_search` in the region that the server has published last. -/
def Server.search (H : HashFn) (s : Server) (key : U64) : Exec (Option U64) := (s.store s.lookup).numaSearch H key

/-- `replay_insert(key, val)` returns and is a put of the key. -/
def Server.ReplaysPut (H : HashFn) (s : Server) (key val : U64) : Prop :=
  ∃ u, s.replayInsert H key val = .ok u ∧ u.search H key = .ok (some val) ∧
    ∀ k', k' ≠ key → u.search H k' = s.search H k'

/-- `replay_delete(key)` returns and is a remove of the key. -/
def Server.ReplaysRemove (H : HashFn) (s : Server) (key : U64) : Prop :=
  ∃ u, s.replayDelete H key = .ok u ∧ u.search H key = .ok none ∧ ∀ k', k' ≠ key → u.search H k' = s.search H k'

/-- The states behind a `do_copy` of the system and any replays. -/
def ReplayedInto (H : HashFn) (start : NumaSystem) (t : Server) : Prop :=
  ∃ w inp, Lib.Reaches (NumaSystem.step H) Lib.anyStep start w ∧ w.server.orch.CompletesCopy inp ∧
    Lib.Reaches (Server.replay H) Lib.anyStep (w.server.orch.doCopy w.registry.currentVersion inp) t

/-- The orchestrator's views are those of the current region, which fits its slots. -/
structure NewRegion (s : Server) (r : ReplayWrappers) : Prop where
  views : s.newWrappers = some r
  ver : r.ver = s.registry.currentVersion
  rows : r.numBuckets = s.geometry.numBuckets
  entries : r.numDataEntries = s.geometry.numDataEntries
  lookup : 0 < s.lookup.numBuckets ∧ s.lookup.numBuckets ≤ r.numBuckets
  slots : (s.shared.regions r.ver).SlotsFit r.numBuckets r.numDataEntries

/-- A replay on the store behind the views, written back. -/
def Server.writeBack (s : Server) (r : ReplayWrappers) (st : Store) : Server :=
  { s with shared := s.shared.setRegion r.ver ⟨st.packed.rawArray, st.buckets.bucketsArray⟩ }

section New

variable {H : HashFn} {s s' : Server} {r : ReplayWrappers} {k v : U64}

theorem NewRegion.inside (h : NewRegion s r) : SlotsInside (s.newStore r) := by
  have hword : ∀ b t, (s.newStore r).word b t = ((s.shared.regions r.ver).buckets b).slots t := fun _ _ => rfl
  refine ⟨h.lookup.1, h.lookup.2, fun b t hb hempty => ?_, fun b t hb hocc => ?_⟩
  · rw [Store.Occupied, Bool.not_eq_true] at hempty
    exact (h.slots b (lt_of_lt_of_le hb h.lookup.2) t).1 hempty
  · exact (h.slots b (lt_of_lt_of_le hb h.lookup.2) t).2 hocc

/-- A replay keeps it, with a counter that may have moved. -/
theorem NewRegion.replay (h : NewRegion s r) {m : Mutation} (hok : s.replay H m = .ok s') : ∃ r', NewRegion s' r' := by
  have hmoves := replay_moves hok
  obtain ⟨regions, wrappers, rfl⟩ : ReplayKeeps s s' := by
    cases m with
    | insert key val => exact replayInsert_keeps hok
    | delete key => exact replayDelete_keeps hok
  have hslots := h.slots.move (hmoves.buckets r.ver) (by
    rintro a ⟨q, hq, -, hroom, -, rfl⟩
    obtain rfl := Option.some.inj (hq.symm.trans h.views)
    exact lt_of_le_of_lt (BitVec.toNat_ofNat _ _ ▸ Nat.mod_le _ _) hroom)
  rcases hmoves.views with hsame | ⟨q, hq, -, hmoved⟩
  · exact ⟨r, hsame.trans h.views, h.ver, h.rows, h.entries, h.lookup, hslots⟩
  · obtain rfl := Option.some.inj (hq.symm.trans h.views)
    exact ⟨_, hmoved, h.ver, h.rows, h.entries, h.lookup, hslots⟩

/-! ## Searches of the new region -/

/-- The client's search is one of the store behind the views. -/
theorem NewRegion.search (h : NewRegion s r) : s.search H k = (s.newStore r).numaSearch H k := by
  have hbuckets : (s.store s.lookup).buckets = (s.newStore r).buckets := by
    show LudoBuckets.mk (s.shared.regions s.registry.currentVersion).buckets s.geometry.numBuckets
      = ⟨(s.shared.regions r.ver).buckets, r.numBuckets⟩
    rw [h.ver, h.rows]
  have hpacked : (s.store s.lookup).packed = { (s.newStore r).packed with num := 0 } := by
    show PackedData.mk (s.shared.regions s.registry.currentVersion).packed 0 s.geometry.numDataEntries
      = ⟨(s.shared.regions r.ver).packed, 0, r.numDataEntries⟩
    rw [h.ver, h.entries]
  refine numaSearch_congr rfl hbuckets fun i => ?_
  rw [hpacked]
  rfl

/-- The search behind a replay. -/
theorem NewRegion.search_writeBack (h : NewRegion s r) {st : Store} (hlookup : st.lookup = s.lookup)
    (hrows : st.buckets.numElements = r.numBuckets) (hentries : st.packed.numElements = r.numDataEntries) :
    (s.writeBack r st).search H k = st.numaSearch H k := by
  have hregion : (s.writeBack r st).region = ⟨st.packed.rawArray, st.buckets.bucketsArray⟩ := by
    show (s.shared.setRegion r.ver _).regions s.registry.currentVersion = _
    rw [← h.ver]
    exact Shared.setRegion_self _ _ _
  have hstore : (s.writeBack r st).store s.lookup = { s.store s.lookup with
      buckets := ⟨(s.writeBack r st).region.buckets, s.geometry.numBuckets⟩
      packed := ⟨(s.writeBack r st).region.packed, 0, s.geometry.numDataEntries⟩ } := rfl
  rw [Server.search, show (s.writeBack r st).lookup = s.lookup from rfl, hstore, hregion]
  refine numaSearch_congr hlookup.symm ?_ fun i => ?_
  · show LudoBuckets.mk st.buckets.bucketsArray s.geometry.numBuckets = st.buckets
    rw [← h.rows, ← hrows]
  · show (PackedData.mk st.packed.rawArray 0 s.geometry.numDataEntries).entry i = st.packed.entry i
    rw [← h.entries, ← hentries]
    rfl

/-- The two replays, on the store behind the views. -/
theorem replayInsert_eq (hw : s.newWrappers = some r) : s.replayInsert H k v = ((s.newStore r).replayPut H k v).map
    fun st => { s.writeBack r st with newWrappers := some { r with num := st.packed.num } } := by
  unfold Server.replayInsert Store.replayPut Server.newStore
  split
  · rename_i hnone
    rw [hw] at hnone
    cases hnone
  · rename_i q hq
    obtain rfl := Option.some.inj (hq.symm.trans hw)
    dsimp only
    cases Server.replayPut H s.lookup ⟨(s.shared.regions q.ver).buckets, q.numBuckets⟩
      ⟨(s.shared.regions q.ver).packed, q.num, q.numDataEntries⟩ k v <;> rfl

theorem replayDelete_eq (hw : s.newWrappers = some r) :
    s.replayDelete H k = ((s.newStore r).replayRemove H k).map (s.writeBack r) := by
  unfold Server.replayDelete Store.replayRemove Server.newStore
  split
  · rename_i hnone
    rw [hw] at hnone
    cases hnone
  · rename_i q hq
    obtain rfl := Option.some.inj (hq.symm.trans hw)
    dsimp only
    cases Server.replayRemove H s.lookup ⟨(s.shared.regions q.ver).buckets, q.numBuckets⟩
      ⟨(s.shared.regions q.ver).packed, q.num, q.numDataEntries⟩ k <;> rfl

/-! ## One replay -/

/-- A replay that is written back so that searches find it behaves as it does on the store. -/
theorem NewRegion.map_iff (h : NewRegion s r) {f : Exec Store} {wrap : Store → Server} {a : Option U64}
    (hsearch : ∀ st, f = .ok st → ∀ k', (wrap st).search H k' = st.numaSearch H k') :
    (∃ u, f.map wrap = .ok u ∧ u.search H k = .ok a ∧ ∀ k', k' ≠ k → u.search H k' = s.search H k') ↔
      ∃ st, f = .ok st ∧ st.numaSearch H k = .ok a ∧
        ∀ k', k' ≠ k → st.numaSearch H k' = (s.newStore r).numaSearch H k' := by
  constructor
  · rintro ⟨u, hu, ha, hframe⟩
    cases hf : f with
    | error e =>
        rw [hf] at hu
        cases hu
    | ok st =>
        rw [hf] at hu
        cases hu
        refine ⟨st, rfl, (hsearch st hf k).symm.trans ha, fun k' hne => ?_⟩
        rw [← hsearch st hf, hframe k' hne, h.search]
  · rintro ⟨st, hf, ha, hframe⟩
    refine ⟨wrap st, by rw [hf]; rfl, (hsearch st hf k).trans ha, fun k' hne => ?_⟩
    rw [hsearch st hf, hframe k' hne, h.search]

/-- **The next replays**, in a region that fits its slots. -/
theorem NewRegion.exact_iff (h : NewRegion s r) (k v : U64) :
    (InsertPlain H (s.newStore r) k v → s.ReplaysPut H k v) ∧
    (r.num < 2 ^ 32 → s.ReplaysPut H k v → InsertPlain H (s.newStore r) k v) ∧
    (s.ReplaysRemove H k ↔ DeletePlain H (s.newStore r) k) := by
  have hput : s.ReplaysPut H k v ↔ ∃ st, (s.newStore r).replayPut H k v = .ok st ∧ st.numaSearch H k = .ok (some v) ∧
      ∀ k', k' ≠ k → st.numaSearch H k' = (s.newStore r).numaSearch H k' := by
    unfold Server.ReplaysPut
    rw [replayInsert_eq h.views]
    refine h.map_iff fun st hst k' => ?_
    have hsizes : st.lookup = s.lookup ∧ st.buckets.numElements = r.numBuckets ∧
        st.packed.numElements = r.numDataEntries := by
      cases replayPut_inv hst with
      | load | update | dropped | discarded => exact ⟨rfl, rfl, rfl⟩
    exact h.search_writeBack hsizes.1 hsizes.2.1 hsizes.2.2
  have hremove : s.ReplaysRemove H k ↔ ∃ st, (s.newStore r).replayRemove H k = .ok st ∧ st.numaSearch H k = .ok none ∧
      ∀ k', k' ≠ k → st.numaSearch H k' = (s.newStore r).numaSearch H k' := by
    unfold Server.ReplaysRemove
    rw [replayDelete_eq h.views]
    refine h.map_iff fun st hst k' => ?_
    have hsizes : st.lookup = s.lookup ∧ st.buckets.numElements = r.numBuckets ∧
        st.packed.numElements = r.numDataEntries := by
      rw [replayRemove_ok h.inside (replayRemove_pos hst)] at hst
      cases hx : (s.newStore r).found H k with
      | none =>
          rw [hx] at hst
          cases hst
          exact ⟨rfl, rfl, rfl⟩
      | some x =>
          rw [hx] at hst
          cases hst
          exact ⟨rfl, rfl, rfl⟩
    exact h.search_writeBack hsizes.1 hsizes.2.1 hsizes.2.2
  rw [hput, hremove]
  obtain ⟨hplain, hexact⟩ := replayPut_iff (H := H) (k := k) (v := v) h.inside
  exact ⟨hplain, hexact, replayRemove_iff h.inside⟩

/-- A completed copy of a reachable system. -/
theorem RegionInv.newRegion {w : NumaSystem} (h : RegionInv w) (g : PackedStruct) :
    ∃ r, NewRegion (w.server.orch.copied w.registry.currentVersion g) r := by
  have hgeo := h.system.orch.laidOut.copied_geometry g
  have hfits := h.system.orch.copied g
  have hviews : (w.server.orch.copied w.registry.currentVersion g).newWrappers = some _ := rfl
  obtain ⟨hver, -, hrows, hentries⟩ := hfits.views _ hviews
  refine ⟨_, hviews, hver, hrows, hentries, ⟨h.lookup.1, ?_⟩, ?_⟩
  · rw [hrows, hgeo]
    exact h.lookup.2.trans (Nat.le_mul_of_pos_right _ (by decide))
  · rw [hrows, hentries, hgeo]
    exact h.copied_slots g

end New

/-! ## Every replay -/

/-- **The next replay is a put or a remove exactly when the region lets it.** From any bulk load and any thresholds, for any
    run of the system, any `do_copy` that completes in it and any replays behind that: `replay_insert(k, v)` returns, makes
    a search of `k` answer `v` and leaves the answer of every other key when `InsertPlain` holds, and, as long as the
    counter fits into the 32 bits it is returned in, only then; `replay_delete(k)` returns, makes a search of `k` answer
    nothing and leaves the others exactly when `DeletePlain` holds. -/
theorem replay_exact_iff {H : HashFn} {cp : ExactLudo} {existKeys : List U64} {memThreads : Nat} {alien : U64 → Bool}
    {regMem : Nat → PackedStruct} {packedStruct : PackedStruct} {st : Store} {sSlow sStop : Nat}
    {lookup : Nat → DataPlaneLudo} {proc lane : Nat → Nat} (hld : Loaded H cp existKeys)
    (hset : setupLudoTable H cp existKeys memThreads alien regMem packedStruct = .ok st) {t : Server}
    (ht : ReplayedInto H ((st.numaServer sSlow sStop).system lookup proc lane) t) :
    ∃ r, t.newWrappers = some r ∧ ∀ k v,
      (InsertPlain H (t.newStore r) k v → t.ReplaysPut H k v) ∧
      (r.num < 2 ^ 32 → t.ReplaysPut H k v → InsertPlain H (t.newStore r) k v) ∧
      (t.ReplaysRemove H k ↔ DeletePlain H (t.newStore r) k) := by
  obtain ⟨w, inp, hrun, hcopy, hreplays⟩ := ht
  have hinv : RegionInv w :=
    hrun.invariant (hld.regionInv hset sSlow sStop lookup proc lane) (fun _ _ _ h _ hstep => h.step hstep)
  have hnew : ∃ r, NewRegion t r := by
    refine hreplays.invariant (P := fun t => ∃ r, NewRegion t r) ?_ (fun _ _ _ h _ hstep => h.elim fun _ h => h.replay hstep)
    rw [doCopy_created _ _ _ hcopy.2.2.2.2]
    exact hinv.newRegion _
  obtain ⟨r, hr⟩ := hnew
  exact ⟨r, hr.views, hr.exact_iff⟩

/-- The one-key system. -/
def sevenSystem : NumaSystem :=
  ((rowStore 423 0 [7]).numaServer 1 1).system (fun _ => (rowStore 423 0 [7]).lookup) id (fun _ => 0)

/-- Behind two replays the counter has moved twice, and a third one finds key 11 in its place. -/
def twoReplayed (t : Server) : Bool :=
  t.newWrappers.any fun r => decide ((t.newStore r).putSlot fastHasher64 11 = none) &&
    decide (InsertVisible fastHasher64 (t.newStore r) 11 8) && decide (0 < (t.newStore r).packed.numElements) &&
    decide (∀ x, (t.newStore r).found fastHasher64 11 = some x →
      DeleteGone fastHasher64 (t.newStore r) 11 x ∧ DeleteFrames fastHasher64 (t.newStore r) 11 x)

/-- The region of the one-key store takes keys 9 and 11, a change of the latter and its removal. -/
theorem replay_exact_iff_seven : ∃ t, ReplayedInto fastHasher64 sevenSystem t ∧ t.ReplaysPut fastHasher64 11 8 ∧
    t.ReplaysRemove fastHasher64 11 := by
  have hset := rowStore_setup 423 0 [7]
  obtain ⟨t, hinto, ht⟩ : ∃ t, ReplayedInto fastHasher64 sevenSystem t ∧ twoReplayed t = true := by
    have hrun : sevenSystem.step fastHasher64 (.tick calmTick)
        = .ok (sevenSystem.putOrch sevenSystem.server.orch.maybeTriggerPreResize) := rfl
    obtain ⟨t, hreplays, ht⟩ : ∃ t, Lib.Reaches (Server.replay fastHasher64) Lib.anyStep
        (sevenSystem.server.orch.maybeTriggerPreResize.doCopy 1 calmTick) t ∧ twoReplayed t = true :=
      Lib.exists_along [.insert 9 5, .insert 11 6] (by decide +kernel)
    exact ⟨t, ⟨_, calmTick, .snoc .refl trivial hrun, ⟨rfl, by decide, by decide, rfl, rfl⟩, hreplays⟩, ht⟩
  obtain ⟨r, hr, hexact⟩ := replay_exact_iff rowTable_seven hset hinto
  rw [twoReplayed, hr] at ht
  simp only [Option.any_some, Bool.and_eq_true, decide_eq_true_eq] at ht
  obtain ⟨⟨⟨hnone, hvisible⟩, hpos⟩, hfound⟩ := ht
  have hins : InsertPlain fastHasher64 (t.newStore r) 11 8 :=
    ⟨fun hs => by rw [hnone] at hs; exact absurd hs (by decide), hvisible, insertFrames_of_none hnone⟩
  have hdel : DeletePlain fastHasher64 (t.newStore r) 11 :=
    ⟨hpos, fun x hx => (hfound x hx).1, fun x hx => (hfound x hx).2⟩
  exact ⟨t, hinto, (hexact 11 8).1 hins, (hexact 11 0).2.2.mpr hdel⟩

/-! ## A replay that is lost -/

/-- The system of the two keys 0 and 301, in slots 1 and 2 of their row. -/
def pairSystem : NumaSystem :=
  ((rowStore 31 0 [0, 301]).numaServer 1 1).system (fun _ => (rowStore 31 0 [0, 301]).lookup) id (fun _ => 0)

/-- A replay that returns, and whose key no search finds. -/
def loses (t : Server) (key val : U64) : Bool :=
  match t.replayInsert fastHasher64 key val with
  | .ok u => decide (u.search fastHasher64 key = .ok none)
  | .error _ => false

/-- The first replay goes to entry 0, and the slot it takes is passed over by the scan. -/
theorem replay_lost : ¬ ∀ t, ReplayedInto fastHasher64 pairSystem t → ∀ k v,
    t.ReplaysPut fastHasher64 k v ∧ t.ReplaysRemove fastHasher64 k := by
  intro h
  have hrun : pairSystem.step fastHasher64 (.tick calmTick)
      = .ok (pairSystem.putOrch pairSystem.server.orch.maybeTriggerPreResize) := rfl
  have hinto : ReplayedInto fastHasher64 pairSystem (pairSystem.server.orch.maybeTriggerPreResize.doCopy 1 calmTick) :=
    ⟨_, calmTick, .snoc .refl trivial hrun, ⟨rfl, by decide, by decide, rfl, rfl⟩, .refl⟩
  obtain ⟨u, hu, hsearch, -⟩ := (h _ hinto 301 9).1
  have hlost : loses (pairSystem.server.orch.maybeTriggerPreResize.doCopy 1 calmTick) 301 9 = true := by decide +kernel
  rw [loses, hu] at hlost
  exact absurd (hsearch.symm.trans (of_decide_eq_true hlost)) (by decide)

end Outback
