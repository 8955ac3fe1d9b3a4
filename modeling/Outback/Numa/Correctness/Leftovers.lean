import Outback.Numa.Shutdown
import Outback.Numa.Correctness.InsideRegion

/-!
# `Numa.Correctness.Leftovers` — what a server leaves in shared memory

`cleanup_numa_ipc` unlinks the registry and the region of the *legacy* name, `numa_region_name` with its default version
0. No server creates an object of that name: data regions are versioned from 1 on. The current region is linked from its
creation on and `maybe_gc` unlinks old versions only, so it outlives the process whatever state the run is stopped in
(`Tracked.current`); older regions and failed creations may be left with it. **`shutdown_clean_iff`**: a run leaves
nothing behind exactly when it never got to create its first data region.
-/

namespace Outback

/-! ## Names -/

theorem numaRegionName_ne_legacy (serverName : String) {v : Nat} (hv : v ≠ 0) :
    numaRegionName serverName v ≠ numaRegionName serverName 0 := by
  intro h
  have hlen := congrArg String.length h
  unfold numaRegionName at hlen
  rw [if_neg hv, if_pos rfl, String.length_append, String.length_append, String.length_append,
    show ("_v" : String).length = 2 from rfl] at hlen
  omega

/-- The two families of names differ in their fifteenth character. -/
theorem numaRegionName_ne_meta (serverName : String) (v : Nat) :
    numaRegionName serverName v ≠ numaMetaName serverName := by
  have hfront (s t : String) : "/outback_numa_region_" ++ t ≠ "/outback_numa_meta_" ++ s := by
    intro h
    have hchar := congrArg (fun n => n.toList[14]?) h
    simp only [String.toList_append] at hchar
    rw [List.getElem?_append_left (by decide), List.getElem?_append_left (by decide)] at hchar
    exact absurd hchar (by decide)
  unfold numaRegionName numaMetaName
  split
  · exact hfront _ _
  · rw [String.append_assoc, String.append_assoc]
    exact hfront _ _

namespace ServerRun

variable {H : HashFn} {r r' : ServerRun} {s s' : Server} {env : SetupEnv}

/-- The cleanup unlinks no versioned region. -/
theorem cleanup_region (r : ServerRun) {v : Nat} (hv : v ≠ 0) :
    r.cleanupNumaIpc.linked (.region v) = r.linked (.region v) := by
  unfold cleanupNumaIpc shmUnlink ShmObject.name
  simp [numaRegionName_ne_meta, numaRegionName_ne_legacy _ hv]

/-- It unlinks the registry. -/
theorem cleanup_registry (r : ServerRun) : r.cleanupNumaIpc.linked .registry = false := by
  unfold cleanupNumaIpc shmUnlink ShmObject.name
  simp

/-! ## The run -/

/-- The objects of a running server: the orchestrator's regions are linked and were created by the run. -/
structure Tracked (r : ServerRun) (s : Server) : Prop where
  orch : OrchInv s
  attachable : s.shared.Attachable
  regions : ∀ v, s.shared.linked v = true → r.linked (.region v) = true ∧ r.created (.region v) = true

/-- The current region is there, under a name that the cleanup does not form. -/
theorem Tracked.current (h : Tracked r s) : ¬ r.cleanupNumaIpc.Clean := by
  intro hclean
  obtain ⟨-, hne, hlinked⟩ := h.attachable
  obtain ⟨hlink, hcreated⟩ := h.regions _ hlinked
  have hgone := hclean (.region s.shared.registry.currentVersion) hcreated
  rw [cleanup_region r hne, hlink] at hgone
  cases hgone

theorem Tracked.follow (h : Tracked r s) (horch : OrchInv s') (hatt : s'.shared.Attachable) :
    Tracked (r.follow s s') s' := by
  refine ⟨horch, hatt, fun v hv => ?_⟩
  by_cases hsame : s'.shared.linked v = s.shared.linked v
  · obtain ⟨hlink, hcreated⟩ := h.regions v (hsame ▸ hv)
    simp only [ServerRun.follow, if_pos hsame, hlink, hcreated, Bool.true_or, and_self]
  · have hold : s.shared.linked v = false := by
      rw [← Bool.not_eq_true]
      exact fun hs => hsame (hv.trans hs.symm)
    constructor
    · exact (if_neg hsame).trans hv
    · simp only [ServerRun.follow, hv, hold, Bool.not_false, Bool.and_self, Bool.or_true]

/-- **One step.** -/
theorem Tracked.step (h : Tracked r s) {a : ServerStep} (hok : s.step H a = .ok s') : Tracked (r.follow s s') s' := by
  cases a with
  | tick inp => exact h.follow (h.orch.step (a := .tick inp) hok) (h.attachable.move h.orch (checkState_move hok))
  | clients w =>
      have horch := h.orch.step (H := H) (a := .clients w) hok
      cases hok
      exact h.follow horch h.attachable

/-- A setup that returns true has created region 1; one that returns false has only if it opened it. -/
theorem setup_created (hserver : r.server = none) :
    (r.setup env).2.server = none ∧
    (env.OpensRegion → (r.setup env).2.linked (.region 1) = true ∧ (r.setup env).2.created (.region 1) = true) ∧
    (¬ env.OpensRegion → (r.setup env).1 = false ∧
      ∀ v, (r.setup env).2.created (.region v) = r.created (.region v)) := by
  obtain ⟨stopInKeys, metaOpens, metaMaps, region, stopInLoad⟩ := env
  unfold setup SetupEnv.OpensRegion
  cases stopInKeys with
  | true => simp [hserver]
  | false =>
      cases metaOpens with
      | false => simp [hserver]
      | true =>
          cases metaMaps with
          | false => simp [hserver, shmCreate]
          | true =>
              cases region with
              | shmOpenFailed => simp [hserver, shmCreate]
              | mapFailed => simp [hserver, shmCreate]
              | created => simp [hserver, shmCreate]

/-- Where `main` arrives: at a running server with its first region, or at the cleanup. -/
theorem main_cases (serverName : String) (stale : ShmObject → Bool) (env : SetupEnv) {st : Store}
    (hpos : 0 < st.buckets.numElements) (sSlow sStop : Nat) :
    (env.OpensRegion ∧ (main serverName stale env (st.server sSlow sStop)).server = some (st.server sSlow sStop) ∧
      Tracked (main serverName stale env (st.server sSlow sStop)) (st.server sSlow sStop)) ∨
    ((main serverName stale env (st.server sSlow sStop)).server = none ∧
      (env.OpensRegion → (main serverName stale env (st.server sSlow sStop)).linked (.region 1) = true ∧
        (main serverName stale env (st.server sSlow sStop)).created (.region 1) = true) ∧
      (¬ env.OpensRegion → ∀ v, (main serverName stale env (st.server sSlow sStop)).created (.region v) = false)) := by
  unfold main
  generalize hr : shmUnlink (shmUnlink ⟨serverName, stale, fun _ => false, none⟩ (numaMetaName serverName))
    (numaRegionName serverName 1) = r
  have hnone : r.server = none := by rw [← hr]; rfl
  have hfresh : ∀ o, r.created o = false := fun o => by rw [← hr]; rfl
  obtain ⟨hserver, hopens, hfails⟩ := @setup_created r env hnone
  simp only [hr]
  by_cases hret : (r.setup env).1 = true
  · rw [if_pos hret]
    have henv : env.OpensRegion := by
      by_contra hnot
      rw [(hfails hnot).1] at hret
      cases hret
    refine .inl ⟨henv, rfl, orchInv_start hpos sSlow sStop, ⟨⟨rfl, rfl, rfl⟩, Nat.one_ne_zero, rfl⟩, ?_⟩
    intro v hv
    obtain rfl : v = 1 := of_decide_eq_true hv
    exact hopens henv
  · rw [if_neg hret]
    refine .inr ⟨hserver, hopens, fun hnot v => ?_⟩
    rw [(hfails hnot).2, hfresh]

end ServerRun

/-- **What a server leaves behind.** Whatever earlier runs left linked and however the setup, the creation of regions and
    the run went: after `cleanup_numa_ipc` nothing that the run created is linked any more exactly when `shm_open` never
    gave it its first data region. -/
theorem shutdown_clean_iff {H : HashFn} {cp : ExactLudo} {existKeys : List U64} {memThreads : Nat} {alien : U64 → Bool}
    {regMem : Nat → PackedStruct} {packedStruct : PackedStruct} {st : Store} {sSlow sStop : Nat} {serverName : String}
    {stale : ShmObject → Bool} {env : SetupEnv} {r : ServerRun} (hld : Loaded H cp existKeys)
    (hok : setupLudoTable H cp existKeys memThreads alien regMem packedStruct = .ok st)
    (hrun : Lib.Reaches (ServerRun.step H) Lib.anyStep (.main serverName stale env (st.server sSlow sStop)) r) :
    r.cleanupNumaIpc.Clean ↔ ¬ env.OpensRegion := by
  have hpos : 0 < st.buckets.numElements := by
    have hinv := hld.storeInv hok
    rw [hinv.buckets]
    exact hinv.pos
  -- a running server keeps its objects tracked; without one the run has ended in the setup
  have hreached : (env.OpensRegion ∧ ∃ s, r.server = some s ∧ r.Tracked s) ∨
      r = .main serverName stale env (st.server sSlow sStop) := by
    refine hrun.invariant (P := fun r => (env.OpensRegion ∧ ∃ s, r.server = some s ∧ r.Tracked s) ∨
      r = .main serverName stale env (st.server sSlow sStop)) (.inr rfl) ?_
    rintro r a r' hr - hstep
    have htracked : ∀ s, r.server = some s → r.Tracked s → ∃ s', r'.server = some s' ∧ r'.Tracked s' := by
      intro s hs ht
      unfold ServerRun.step at hstep
      rw [hs] at hstep
      obtain ⟨s', hs', hret⟩ := Lib.bind_eq_ok.mp hstep
      cases hret
      exact ⟨s', rfl, ht.step hs'⟩
    rcases hr with ⟨henv, s, hs, ht⟩ | rfl
    · exact .inl ⟨henv, htracked s hs ht⟩
    · rcases ServerRun.main_cases serverName stale env hpos sSlow sStop with ⟨henv, hs, ht⟩ | ⟨hnone, -⟩
      · exact .inl ⟨henv, htracked _ hs ht⟩
      · unfold ServerRun.step at hstep
        rw [hnone] at hstep
        cases hstep
  have hrunning : ∀ s, r.Tracked s → env.OpensRegion → (r.cleanupNumaIpc.Clean ↔ ¬ env.OpensRegion) :=
    fun s ht henv => iff_of_false ht.current (not_not.mpr henv)
  rcases hreached with ⟨henv, s, -, ht⟩ | rfl
  · exact hrunning s ht henv
  · rcases ServerRun.main_cases serverName stale env hpos sSlow sStop with ⟨henv, -, ht⟩ | ⟨-, hopens, hfails⟩
    · exact hrunning _ ht henv
    · constructor
      · intro hclean henv
        have hgone := hclean (.region 1) (hopens henv).2
        rw [ServerRun.cleanup_region _ Nat.one_ne_zero, (hopens henv).1] at hgone
        cases hgone
      · intro hnot o hcreated
        cases o with
        | registry => exact ServerRun.cleanup_registry _
        | region v =>
            have hsame : (ServerRun.main serverName stale env (st.server sSlow sStop)).created (.region v) = true :=
              hcreated
            rw [hfails hnot v] at hsame
            cases hsame

/-- Nothing interrupts this setup and nothing in it fails. -/
def calmSetup : SetupEnv := ⟨false, true, true, .created, false⟩

/-- The run of the one-key store under a name of its own, on a clean machine. -/
def sevenRun : ServerRun := .main "s" (fun _ => false) calmSetup sevenServer

/-- Stopped at once, in `NORMAL` and without a resize, it leaves its only data region linked. -/
theorem region_left_behind : Lib.Reaches (ServerRun.step fastHasher64) Lib.anyStep sevenRun sevenRun ∧
    sevenRun.cleanupNumaIpc.created (.region 1) = true ∧ sevenRun.cleanupNumaIpc.linked (.region 1) = true ∧
    ¬ sevenRun.cleanupNumaIpc.Clean := by
  have hlinked : sevenRun.cleanupNumaIpc.linked (.region 1) = true := by
    rw [ServerRun.cleanup_region _ Nat.one_ne_zero]
    rfl
  refine ⟨.refl, rfl, hlinked, fun hclean => ?_⟩
  have hgone := hclean (.region 1) rfl
  rw [hlinked] at hgone
  cases hgone

/-- A run whose registry cannot be mapped leaves nothing. -/
theorem shutdown_clean_unmapped :
    (ServerRun.main "s" (fun _ => false) ⟨false, true, false, .created, false⟩ sevenServer).cleanupNumaIpc.Clean := by
  have hsetup := rowStore_setup 423 0 [7]
  refine (shutdown_clean_iff (H := fastHasher64) rowTable_seven hsetup .refl).mpr ?_
  rintro ⟨-, -, hmaps, -⟩
  cases hmaps

end Outback
