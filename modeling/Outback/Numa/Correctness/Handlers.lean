import Outback.Numa.Direct
import Outback.Numa.Correctness.Ownership
import Outback.Numa.Correctness.Orchestrator

/-!
# `Numa.Correctness.Handlers` — the server's handlers across a resize

The handlers reach the data through the globals `ludo_buckets` and `packed_data`; `do_copy` publishes the new region
through the registry and `srv_state_`, and repoints neither global. **`handlers_follow_iff`**: over any interleaving of
ticks and calls, the handlers' arrays are those of the current version, and mapped, exactly as long as no tick has
completed a copy. **`handlers_left_behind`** runs one resize: a put acknowledged behind it goes to the old region, where no
client looks, and once `maybe_gc` has unmapped that region a handler follows a dangling pointer.
-/

namespace Outback

/-! ## Handlers that follow -/

/-- The handlers follow the resize: both globals point into the region of the current version, that region is mapped, and
    what a put acknowledges after a resize is there for a search. -/
structure HandlersFollow (H : HashFn) (s : NumaServer) : Prop where
  buckets : s.ludoBuckets.ver = s.orch.registry.currentVersion
  packed : s.packedData.ver = s.orch.registry.currentVersion
  mapped : s.orch.Mapped s.ludoBuckets.ver ∧ s.orch.Mapped s.packedData.ver
  visible : s.orch.registry.currentVersion ≠ 1 → ∀ (key val : U64) (reply : ReplyValue) (s' : NumaServer) (r : ReplyValue),
    s.outbackPutDirect H (4 * s.orch.lookup.row H key + s.orch.lookup.slot H key) key val reply = .ok (s', r) →
    r.status = true → (s'.orch.store s'.orch.lookup).numaSearch H key = .ok (some val)

/-- No tick completes a copy. -/
def NoCopy (s : NumaServer) : NumaServerStep → Prop
  | .tick inp => ¬ s.orch.CompletesCopy inp
  | .call _ => True

/-! ## What a call can do -/

/-- A call writes the regions of the globals, queues, the packed array's counter and the cache, and nothing else. -/
def HandlerKeeps (s s' : NumaServer) : Prop :=
  ∃ regions inserts deletes num cache,
    (∀ v, v ≠ s.ludoBuckets.ver → v ≠ s.packedData.ver → regions v = s.orch.shared.regions v) ∧
    s' = { s with
      orch := { s.orch with
        shared := { s.orch.shared with regions := regions }
        deferredInserts := inserts
        deferredDeletes := deletes }
      packedData := { s.packedData with num := num }
      lruCache := cache }

/-- What a call does that is not deferred: the same without the queues. -/
def DataKeeps (s s' : NumaServer) : Prop :=
  ∃ regions num cache,
    (∀ v, v ≠ s.ludoBuckets.ver → v ≠ s.packedData.ver → regions v = s.orch.shared.regions v) ∧
    s' = { s with
      orch := { s.orch with shared := { s.orch.shared with regions := regions } }
      packedData := { s.packedData with num := num }
      lruCache := cache }

namespace DataKeeps

variable {s s' s'' : NumaServer}

theorem refl (s : NumaServer) : DataKeeps s s := ⟨_, _, _, fun _ _ _ => rfl, rfl⟩

theorem trans (h : DataKeeps s s') (h' : DataKeeps s' s'') : DataKeeps s s'' := by
  obtain ⟨_, _, _, hregions, rfl⟩ := h
  obtain ⟨regions, num, cache, hregions', rfl⟩ := h'
  refine ⟨regions, num, cache, ?_, rfl⟩
  intro v hb hp
  exact (hregions' v hb hp).trans (hregions v hb hp)

theorem putBuckets (s : NumaServer) (lbs : LudoBuckets) : DataKeeps s (s.putBuckets lbs) :=
  ⟨_, _, _, fun _ hb _ => Shared.setRegion_of_ne _ _ hb, rfl⟩

theorem putPacked (s : NumaServer) (pd : PackedData) : DataKeeps s (s.putPacked pd) :=
  ⟨_, _, _, fun _ _ hp => Shared.setRegion_of_ne _ _ hp, rfl⟩

theorem cache (s : NumaServer) (cache : Cache U64 U64) : DataKeeps s { s with lruCache := cache } :=
  ⟨_, _, _, fun _ _ _ => rfl, rfl⟩

theorem handlerKeeps (h : DataKeeps s s') : HandlerKeeps s s' := by
  obtain ⟨regions, num, cache, hregions, rfl⟩ := h
  exact ⟨regions, _, _, num, cache, hregions, rfl⟩

end DataKeeps

namespace HandlerKeeps

theorem deferPut (s : NumaServer) (key val : U64) : HandlerKeeps s (s.deferPut key val) := by
  unfold NumaServer.deferPut Server.deferInsert
  split
  · split
    · exact (DataKeeps.refl s).handlerKeeps
    · exact ⟨_, _, _, _, _, fun _ _ _ => rfl, rfl⟩
  · exact (DataKeeps.refl s).handlerKeeps

theorem deferRemove (s : NumaServer) (key : U64) : HandlerKeeps s (s.deferRemove key) := by
  unfold NumaServer.deferRemove Server.deferDelete
  split
  · split
    · exact (DataKeeps.refl s).handlerKeeps
    · exact ⟨_, _, _, _, _, fun _ _ _ => rfl, rfl⟩
  · exact (DataKeeps.refl s).handlerKeeps

end HandlerKeeps

/-! ## What each handler keeps -/

section Call

variable {H : HashFn} {s : NumaServer} {r : NumaServer × ReplyValue}

theorem insertDirect_keeps {lbs : LudoBuckets} {key val : U64} {row : Nat} {slot : Slot} {v : U64}
    (h : s.insertDirect H lbs key val row slot v = .ok r) : DataKeeps s r.1 := by
  unfold NumaServer.insertDirect at h
  obtain ⟨pd, -, h⟩ := Lib.bind_eq_ok.mp h
  obtain ⟨q, -, h⟩ := Lib.bind_eq_ok.mp h
  cases h
  exact (DataKeeps.putPacked s q.1).trans (.putBuckets _ _)

theorem applyPut_keeps {loc : Nat} {key val : U64} {reply : ReplyValue} (h : s.applyPut H loc key val reply = .ok r) :
    DataKeeps s r.1 := by
  unfold NumaServer.applyPut at h
  obtain ⟨lbs, -, h⟩ := Lib.bind_eq_ok.mp h
  obtain ⟨b, -, h⟩ := Lib.bind_eq_ok.mp h
  simp only at h
  cases hst : b.checkSlots H key (seedSlot H (s.orch.lookup.seeds (locRow loc)) key) with
  | good =>
      rw [hst] at h
      exact insertDirect_keeps h
  | maybeUpdate =>
      rw [hst] at h
      obtain ⟨pd, -, h⟩ := Lib.bind_eq_ok.mp h
      obtain ⟨k, -, h⟩ := Lib.bind_eq_ok.mp h
      split at h
      · obtain ⟨pd', -, h⟩ := Lib.bind_eq_ok.mp h
        cases h
        exact .putPacked s pd'
      · cases h
        exact .refl s
  | emptyExists =>
      rw [hst] at h
      simp only at h
      split at h
      · exact insertDirect_keeps h
      · cases h
        exact .refl s
  | full =>
      rw [hst] at h
      cases h
      exact (DataKeeps.putBuckets s _).trans (.cache _ _)

theorem outbackUpdateDirect_keeps {loc : Nat} {key val : U64} (h : s.outbackUpdateDirect loc key val = .ok r) :
    DataKeeps s r.1 := by
  unfold NumaServer.outbackUpdateDirect at h
  obtain ⟨lbs, -, h⟩ := Lib.bind_eq_ok.mp h
  obtain ⟨b, -, h⟩ := Lib.bind_eq_ok.mp h
  obtain ⟨pd, -, h⟩ := Lib.bind_eq_ok.mp h
  obtain ⟨k, -, h⟩ := Lib.bind_eq_ok.mp h
  split at h
  · obtain ⟨pd', -, h⟩ := Lib.bind_eq_ok.mp h
    cases h
    exact .putPacked s pd'
  · cases h
    exact .refl s

theorem applyRemove_keeps {loc : Nat} {key : U64} (h : s.applyRemove loc key = .ok r) : DataKeeps s r.1 := by
  unfold NumaServer.applyRemove at h
  obtain ⟨lbs, -, h⟩ := Lib.bind_eq_ok.mp h
  obtain ⟨b, -, h⟩ := Lib.bind_eq_ok.mp h
  obtain ⟨pd, -, h⟩ := Lib.bind_eq_ok.mp h
  obtain ⟨⟨pd', res⟩, -, h⟩ := Lib.bind_eq_ok.mp h
  cases res with
  | true =>
      cases h
      exact (DataKeeps.putPacked s pd').trans (.putBuckets _ _)
  | false =>
      cases h
      exact .refl s

/-- **What a call can do.** -/
theorem call_keeps {c : DirectCall} (h : s.call H c = .ok r) : HandlerKeeps s r.1 := by
  cases c with
  | get loc =>
      obtain ⟨v, -, h⟩ := Lib.bind_eq_ok.mp h
      cases h
      exact (DataKeeps.refl s).handlerKeeps
  | put loc key val reply =>
      change s.outbackPutDirect H loc key val reply = .ok r at h
      unfold NumaServer.outbackPutDirect at h
      split at h
      · cases h
        exact .deferPut s key val
      · exact (applyPut_keeps h).handlerKeeps
  | update loc key val => exact (outbackUpdateDirect_keeps h).handlerKeeps
  | remove loc key =>
      change s.outbackRemoveDirect loc key = .ok r at h
      unfold NumaServer.outbackRemoveDirect at h
      split at h
      · cases h
        exact .deferRemove s key
      · exact (applyRemove_keeps h).handlerKeeps

/-- A call through globals that point into another region changes nothing that a search of the current one reads. -/
theorem call_elsewhere {c : DirectCall} (hb : s.ludoBuckets.ver ≠ s.orch.registry.currentVersion)
    (hp : s.packedData.ver ≠ s.orch.registry.currentVersion) (h : s.call H c = .ok r) (lookup : DataPlaneLudo) :
    r.1.orch.store lookup = s.orch.store lookup := by
  obtain ⟨regions, inserts, deletes, num, cache, hregions, heq⟩ := call_keeps h
  have hregion := hregions s.orch.registry.currentVersion hb.symm hp.symm
  rw [heq]
  unfold Server.store Server.region
  show Store.mk lookup ⟨(regions s.orch.registry.currentVersion).buckets, _⟩
    ⟨(regions s.orch.registry.currentVersion).packed, 0, _⟩ _ _ = _
  rw [hregion]
  rfl

end Call

/-! ## Whole runs -/

/-- What every reachable server process keeps: the globals stay on version 1, versions only grow. -/
structure HandlerInv (s : NumaServer) : Prop where
  buckets : s.ludoBuckets.ver = 1
  packed : s.packedData.ver = 1
  orch : OrchInv s.orch
  version : 1 ≤ s.orch.registry.currentVersion

section Runs

variable {H : HashFn} {s s' : NumaServer} {a : NumaServerStep}

/-- Without a completed copy the version stays. -/
theorem NoCopy.version (hno : NoCopy s a) (h : s.step H a = .ok s') :
    s'.orch.registry.currentVersion = s.orch.registry.currentVersion := by
  cases a with
  | tick inp =>
      obtain ⟨t, ht, h⟩ := Lib.bind_eq_ok.mp h
      cases h
      rcases checkState_cases ht with hq | ⟨hcopy, -⟩
      · exact hq.currentVersion
      · exact absurd hcopy hno
  | call c =>
      obtain ⟨r, hr, h⟩ := Lib.bind_eq_ok.mp h
      cases h
      obtain ⟨regions, inserts, deletes, num, cache, -, heq⟩ := call_keeps hr
      rw [heq]
      rfl

/-- A completed copy moves it. -/
theorem lt_version_of_copy (hcopy : ¬ NoCopy s a) (h : s.step H a = .ok s') :
    s.orch.registry.currentVersion < s'.orch.registry.currentVersion := by
  cases a with
  | tick inp =>
      have hcopy : s.orch.CompletesCopy inp := not_not.mp hcopy
      obtain ⟨t, ht, h⟩ := Lib.bind_eq_ok.mp h
      cases h
      rw [Server.checkState_of_completesCopy H hcopy, doCopy_created _ _ _ hcopy.2.2.2.2] at ht
      cases ht
      exact lt_nextVersion _
  | call c => exact absurd trivial hcopy

theorem HandlerInv.step (hinv : HandlerInv s) (h : s.step H a = .ok s') : HandlerInv s' := by
  cases a with
  | tick inp =>
      obtain ⟨t, ht, h⟩ := Lib.bind_eq_ok.mp h
      cases h
      have hm := checkState_move ht
      exact ⟨hinv.buckets, hinv.packed, hinv.orch.move hm, hinv.version.trans hm.change.version⟩
  | call c =>
      obtain ⟨r, hr, h⟩ := Lib.bind_eq_ok.mp h
      cases h
      obtain ⟨regions, inserts, deletes, num, cache, -, heq⟩ := call_keeps hr
      rw [heq]
      exact ⟨hinv.buckets, hinv.packed, hinv.orch.congr rfl rfl rfl rfl rfl rfl, hinv.version⟩

/-- Before the first completed copy the handlers work on the current region. -/
theorem HandlerInv.follow (h : HandlerInv s) (hver : s.orch.registry.currentVersion = 1) : HandlersFollow H s := by
  have hsrv := h.orch.srvRegion
  refine ⟨h.buckets.trans hver.symm, h.packed.trans hver.symm, ⟨Or.inl ?_, Or.inl ?_⟩, fun hne => absurd hver hne⟩
  · rw [hsrv, hver, h.buckets]
  · rw [hsrv, hver, h.packed]

/-- A run that is still on version 1 has completed no copy. -/
theorem reaches_noCopy {s₀ : NumaServer} (hver₀ : s₀.orch.registry.currentVersion = 1)
    (hrun : Lib.Reaches (NumaServer.step H) Lib.anyStep s₀ s) :
    (Lib.Reaches (NumaServer.step H) NoCopy s₀ s ∧ s.orch.registry.currentVersion = 1) ∨
      1 < s.orch.registry.currentVersion := by
  induction hrun with
  | refl => exact Or.inl ⟨.refl, hver₀⟩
  | @tail t u _ hstep ih =>
      obtain ⟨a, -, hstep⟩ := hstep
      by_cases hno : NoCopy t a
      · have hsame := hno.version hstep
        rcases ih with ⟨hreach, hver⟩ | hgt
        · exact Or.inl ⟨hreach.snoc hno hstep, hsame.trans hver⟩
        · exact Or.inr (by omega)
      · have hlt := lt_version_of_copy hno hstep
        rcases ih with ⟨-, hver⟩ | hgt
        · exact Or.inr (by omega)
        · exact Or.inr (by omega)

end Runs

/-! ## Exactly when they follow -/

/-- **The handlers follow the resize exactly as long as none is completed.** From any bulk load and any thresholds, in
    every state reached by ticks and calls. -/
theorem handlers_follow_iff {H : HashFn} {cp : ExactLudo} {existKeys : List U64} {memThreads : Nat} {alien : U64 → Bool}
    {regMem : Nat → PackedStruct} {packedStruct : PackedStruct} {st : Store} {sSlow sStop : Nat} {s : NumaServer}
    (hld : Loaded H cp existKeys)
    (hok : setupLudoTable H cp existKeys memThreads alien regMem packedStruct = .ok st)
    (hrun : Lib.Reaches (NumaServer.step H) Lib.anyStep (st.numaServer sSlow sStop) s) :
    HandlersFollow H s ↔ Lib.Reaches (NumaServer.step H) NoCopy (st.numaServer sSlow sStop) s := by
  have hpos : 0 < st.buckets.numElements := by
    have hinv := hld.storeInv hok
    rw [hinv.buckets]
    exact hinv.pos
  have hinv : HandlerInv s := by
    refine hrun.invariant (P := HandlerInv) ⟨rfl, rfl, orchInv_start hpos sSlow sStop, le_refl _⟩ ?_
    intro t a t' ht _ hstep
    exact ht.step hstep
  constructor
  · intro hfollow
    rcases reaches_noCopy rfl hrun with ⟨hreach, -⟩ | hgt
    · exact hreach
    · have hcur : 1 = s.orch.registry.currentVersion := hinv.buckets.symm.trans hfollow.buckets
      omega
  · intro hreach
    refine hinv.follow ?_
    refine hreach.invariant (P := fun s => s.orch.registry.currentVersion = 1) rfl ?_
    intro t a t' ht hno hstep
    exact (hno.version hstep).trans ht

/-- Key 9 is put and the first tick announces the resize: the handlers are on the current region. -/
theorem handlers_follow_iff_seven : ∃ s, Lib.Reaches (NumaServer.step fastHasher64) Lib.anyStep
      ((rowStore 423 0 [7]).numaServer 1 1) s ∧ s.orch.registry.resizeState = .preResize ∧
    HandlersFollow fastHasher64 s := by
  have hsetup := rowStore_setup 423 0 [7]
  have hput : ((rowStore 423 0 [7]).numaServer 1 1).step fastHasher64 (.call (.put 1283 9 5 ⟨false, 0⟩)) = .ok _ :=
    rfl
  have hany : Lib.Reaches (NumaServer.step fastHasher64) Lib.anyStep ((rowStore 423 0 [7]).numaServer 1 1) _ :=
    (Lib.Reaches.snoc .refl trivial hput).snoc (a := .tick calmTick) trivial rfl
  have hno : Lib.Reaches (NumaServer.step fastHasher64) NoCopy ((rowStore 423 0 [7]).numaServer 1 1) _ :=
    (Lib.Reaches.snoc .refl trivial hput).snoc (a := .tick calmTick) (fun h => ResizeState.noConfusion h.1) rfl
  exact ⟨_, hany, rfl, (handlers_follow_iff rowTable_seven hsetup hany).mpr hno⟩

/-- The server process after the four ticks of a resize of the one-key store. -/
def resizedServer : NumaServer :=
  { (rowStore 423 0 [7]).numaServer 1 1 with
    orch := (((sevenServer.setState .preResize).copied 1 .zero).setState .drainOld).finishDrain calmTick }

/-- A tick whose second reading of the clock is three seconds after the first. -/
def lateTick : TickInput := ⟨fun i => if i = 0 then 0 else 3000000000, true, .created, .zero⟩

/-- One resize of the one-key store. Behind it a put of key 9, with the location its client computes, is acknowledged and a
    search of the current region does not find it; and when the old region is reclaimed, a get of key 7 follows a dangling
    pointer. -/
theorem handlers_left_behind :
    Lib.Reaches (NumaServer.step fastHasher64) Lib.anyStep ((rowStore 423 0 [7]).numaServer 1 1) resizedServer ∧
    resizedServer.orch.registry.currentVersion = 2 ∧ ¬ HandlersFollow fastHasher64 resizedServer ∧
    4 * resizedServer.orch.lookup.row fastHasher64 9 + resizedServer.orch.lookup.slot fastHasher64 9 = 1283 ∧
    (∃ t, resizedServer.outbackPutDirect fastHasher64 1283 9 5 ⟨false, 0⟩ = .ok (t, ⟨true, 0⟩) ∧
      (t.orch.store resizedServer.orch.lookup).numaSearch fastHasher64 9 = .ok none) ∧
    ∃ u, resizedServer.step fastHasher64 (.tick lateTick) = .ok u ∧
      u.outbackGetDirect 1693 = .error .danglingPointer := by
  have h₂ : Lib.Reaches (NumaServer.step fastHasher64) Lib.anyStep ((rowStore 423 0 [7]).numaServer 1 1) _ :=
    (Lib.Reaches.snoc .refl (a := .tick calmTick) trivial rfl).snoc (a := .tick calmTick) trivial rfl
  have h₄ : Lib.Reaches (NumaServer.step fastHasher64) Lib.anyStep _ resizedServer :=
    (h₂.snoc (a := .tick calmTick) trivial rfl).snoc (a := .tick calmTick) trivial rfl
  refine ⟨h₄, rfl, fun hfollow => absurd hfollow.buckets (by decide), by decide +kernel, ?_, ⟨_, rfl, rfl⟩⟩
  -- the put is found nowhere but in the old region
  obtain ⟨t, ht⟩ : ∃ t, resizedServer.call fastHasher64 (.put 1283 9 5 ⟨false, 0⟩) = .ok (t, ⟨true, 0⟩) := ⟨_, rfl⟩
  have hsearch : (resizedServer.orch.store resizedServer.orch.lookup).numaSearch fastHasher64 9 = .ok none := rfl
  have hstore : t.orch.store resizedServer.orch.lookup = resizedServer.orch.store resizedServer.orch.lookup :=
    call_elsewhere (by decide) (by decide) ht _
  exact ⟨t, ht, by rw [hstore]; exact hsearch⟩

end Outback
