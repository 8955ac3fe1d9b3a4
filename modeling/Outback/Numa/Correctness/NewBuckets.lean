import Outback.Numa.Correctness.InsideRegion

/-!
# `Numa.Correctness.NewBuckets` — who uses the buckets that a resize adds

`do_copy` doubles `num_buckets`, and "Slots [N, 2N)" of the new region are to be "populated as new inserts arrive". Neither
the orchestrator nor a remapping client touches a lookup unit, and `lookup_slot` goes on reducing every hash to the count the
unit was built with. **`new_buckets_usable_iff`**: the lookup units cover the rows of the current epoch exactly as long as no
copy has completed (and the remapped clients' units are of the server's size to begin with), and a completed copy still
finds every key exactly when each of them is the one the constructor's local holds. `new_buckets_dead` is the first resize.
-/

namespace Outback

/-! ## Usable buckets -/

/-- `lookup_slot` reduces to `rows` rows, and reaches each of them from some hash value. -/
structure DataPlaneLudo.Covers (dp : DataPlaneLudo) (rows : Nat) : Prop where
  numBuckets : dp.numBuckets = rows
  hit : ∀ r, r < rows → ∃ x : U64, ∀ second, fastMapToBuckets x dp.numBuckets second = r

/-- The thread is on the region of the current version. -/
def World.Remapped (w : World) (tid : Nat) : Prop :=
  (w.threads tid).region.localVersion = w.server.registry.currentVersion

/-- The server's lookup unit and those of the remapped clients cover the rows of the current epoch. -/
structure NewBucketsUsable (w : World) : Prop where
  server : w.server.lookup.Covers w.server.geometry.numBuckets
  clients : ∀ tid, w.Remapped tid → (w.procs (w.threads tid).proc).lookup.Covers w.server.geometry.numBuckets

/-- What a process finds in the current region. -/
def World.Finds (H : HashFn) (w : World) (p : Nat) (k v : U64) : Prop :=
  (w.server.store (w.procs p).lookup).numaSearch H k = .ok (some v)

/-- A key that some process finds is still found. -/
def KeysKept (H : HashFn) (w w' : World) : Prop := ∀ p k v, w.Finds H p k v → w'.Finds H p k v

/-! ## Searching a region whose entries are all the same -/

section Search

variable {H : HashFn} {k v : U64} {g : PackedStruct}

theorem scanRow_of_uniform {b : LudoBucket} {pd : PackedData} {primary : Slot}
    (hall : ∀ i, i < pd.numElements → pd.rawArray i = g) {ss : List Slot}
    (h : b.scanRow pd k primary ss = .ok (some v)) : k = g.key ∧ v = g.data := by
  induction ss with
  | nil => cases h
  | cons s ss ih =>
      rw [LudoBucket.scanRow] at h
      split at h
      · exact ih h
      · split at h
        · exact ih h
        · obtain ⟨e, he, h⟩ := Lib.bind_eq_ok.mp h
          obtain ⟨hi, rfl⟩ := PackedData.entry_eq_ok he
          rw [hall _ hi] at h
          split at h
          · rename_i hk
            cases h
            exact ⟨hk.symm, rfl⟩
          · exact ih h

/-- Only the one key is found. -/
theorem numaSearch_of_uniform {st : Store} (hall : ∀ i, i < st.packed.numElements → st.packed.rawArray i = g)
    (h : st.numaSearch H k = .ok (some v)) : k = g.key ∧ v = g.data := by
  unfold Store.numaSearch at h
  obtain ⟨b, -, h⟩ := Lib.bind_eq_ok.mp h
  obtain ⟨e, he, h⟩ := Lib.bind_eq_ok.mp h
  obtain ⟨hi, rfl⟩ := PackedData.entry_eq_ok he
  rw [hall _ hi] at h
  split at h
  · rename_i hk
    cases h
    exact ⟨hk.symm, rfl⟩
  · exact scanRow_of_uniform hall h

/-- A search that returned went through the primary slot. -/
theorem primary_of_search {st : Store} {r : Option U64} (h : st.numaSearch H k = .ok r) :
    st.lookup.row H k < st.buckets.numElements ∧
    addrOf ((st.buckets.bucketsArray (st.lookup.row H k)).slots (st.lookup.slot H k)) < st.packed.numElements := by
  unfold Store.numaSearch at h
  obtain ⟨b, hb, h⟩ := Lib.bind_eq_ok.mp h
  obtain ⟨e, he, h⟩ := Lib.bind_eq_ok.mp h
  obtain ⟨hrow, rfl⟩ := LudoBuckets.row_eq_ok hb
  exact ⟨hrow, (PackedData.entry_eq_ok he).1⟩

/-- **A completed copy finds what its constructor's local holds.** -/
theorem copied_finds_iff {s : Server} (h : Owned s) (lookup : DataPlaneLudo) (g : PackedStruct) {v : U64}
    (hold : (s.store lookup).numaSearch H k = .ok (some v)) :
    ((s.copied s.registry.currentVersion g).store lookup).numaSearch H k = .ok (some v) ↔ k = g.key ∧ v = g.data := by
  obtain ⟨hpacked, -⟩ := copied_region g h.srvRegion
  have hgeo := h.laidOut.copied_geometry g
  have hdata : (s.copied s.registry.currentVersion g).geometry.numDataEntries = s.geometry.numDataEntries * 2 := by
    rw [hgeo]
    rfl
  have hrows : (s.copied s.registry.currentVersion g).geometry.numBuckets = s.geometry.numBuckets * 2 := by
    rw [hgeo]
    rfl
  have hall : ∀ i, i < (s.copied s.registry.currentVersion g).geometry.numDataEntries →
      (s.copied s.registry.currentVersion g).region.packed i = g := by
    intro i hi
    rw [hdata] at hi
    rw [hpacked, if_pos hi]
  constructor
  · exact fun hnew => numaSearch_of_uniform hall hnew
  · rintro ⟨rfl, rfl⟩
    obtain ⟨hrow, haddr⟩ := primary_of_search hold
    have hrow : lookup.row H g.key < s.geometry.numBuckets := hrow
    have haddr : addrOf ((s.region.buckets (lookup.row H g.key)).slots (lookup.slot H g.key)) < s.geometry.numDataEntries :=
      haddr
    have hword : ((s.copied s.registry.currentVersion g).region.buckets (lookup.row H g.key)).slots (lookup.slot H g.key)
        = (s.region.buckets (lookup.row H g.key)).slots (lookup.slot H g.key) := by
      have hcopied := h.copied_word g (lookup.row H g.key) (lookup.slot H g.key)
      rw [if_pos hrow] at hcopied
      exact hcopied
    refine numaSearch_of_primary ?_ ?_ ?_ rfl
    · show lookup.row H g.key < (s.copied s.registry.currentVersion g).geometry.numBuckets
      omega
    · show addrOf (((s.copied s.registry.currentVersion g).region.buckets (lookup.row H g.key)).slots
        (lookup.slot H g.key)) < (s.copied s.registry.currentVersion g).geometry.numDataEntries
      rw [hword]
      omega
    · refine hall _ ?_
      show addrOf (((s.copied s.registry.currentVersion g).region.buckets (lookup.row H g.key)).slots
        (lookup.slot H g.key)) < _
      rw [hword]
      omega

end Search

/-! ## Runs -/

/-- What every reachable world keeps: the sizes of the lookup units, `rows` the server's and `units` the processes', and
    an epoch that has `rows` buckets until its version moves. -/
structure CountInv (rows : Nat) (units : Nat → Nat) (w : World) : Prop where
  owned : Owned w.server
  server : w.server.lookup.numBuckets = rows
  clients : ∀ p, (w.procs p).lookup.numBuckets = units p
  epoch : (w.server.registry.currentVersion = 1 ∧ w.server.geometry.numBuckets = rows) ∨
    (1 < w.server.registry.currentVersion ∧ rows < w.server.geometry.numBuckets)

section Run

variable {H : HashFn} {rows : Nat} {units : Nat → Nat} {w w' : World}

/-- The orchestrator never touches the lookup unit. -/
theorem TickMove.lookup {s s' : Server} (h : TickMove s s') : s'.lookup = s.lookup := by
  cases h with
  | wait | trigger | abort | copy | acked | reclaimed => rfl
  | drained hst inp hkeep =>
      obtain ⟨regions, wrappers, rfl⟩ := hkeep
      unfold Server.finishDrain
      split <;> rfl

/-- A connect does not touch it either. -/
theorem connect_lookup (c : ClientView) (tid : Nat) (env : OpEnv) :
    (c.connectToNumaServer tid env).2.process.lookup = c.process.lookup := by
  unfold ClientView.connectToNumaServer
  simp only
  split
  · rfl
  · split
    · rfl
    · split
      · rfl
      · rfl

theorem CountInv.putView (h : CountInv rows units w) (tid : Nat) {c : ClientView}
    (howned : Owned { w.server with shared := c.shared })
    (hver : c.shared.registry.currentVersion = w.server.registry.currentVersion)
    (hgeo : c.shared.registry.currentEpoch.geometry = w.server.geometry)
    (hlookup : c.process.lookup.numBuckets = (w.view tid).process.lookup.numBuckets) :
    CountInv rows units (w.putView tid c) := by
  refine ⟨howned, h.server, fun p => ?_, ?_⟩
  · by_cases hp : p = (w.threads tid).proc
    · subst hp
      rw [World.putView_procs_self]
      exact hlookup.trans (h.clients _)
    · rw [World.putView_procs_of_ne _ _ _ hp]
      exact h.clients p
  · show (c.shared.registry.currentVersion = 1 ∧ c.shared.registry.currentEpoch.geometry.numBuckets = rows) ∨
      (1 < c.shared.registry.currentVersion ∧ rows < c.shared.registry.currentEpoch.geometry.numBuckets)
    rw [hver, hgeo]
    exact h.epoch

theorem CountInv.tick (h : CountInv rows units w) {inp : TickInput} (hok : w.atomic H (.tick inp) = .ok w') :
    CountInv rows units w' := by
  obtain ⟨s, hs, hok⟩ := Lib.bind_eq_ok.mp hok
  cases hok
  refine ⟨h.owned.tick hs, (congrArg DataPlaneLudo.numBuckets (checkState_move hs).lookup).trans h.server, h.clients, ?_⟩
  obtain hquiet | ⟨-, rfl⟩ := checkState_cases hs
  · have hgeo : s.geometry = w.server.geometry := by
      unfold Server.geometry SharedNumaRegistry.currentEpoch
      rw [hquiet.currentVersion, hquiet.geometry]
    show (s.registry.currentVersion = 1 ∧ s.geometry.numBuckets = rows) ∨
      (1 < s.registry.currentVersion ∧ rows < s.geometry.numBuckets)
    rw [hquiet.currentVersion, hgeo]
    exact h.epoch
  · -- the count doubles, and the version moves past the first
    right
    have hpos := h.owned.pos
    have hver : w.server.registry.currentVersion < nextVersion w.server.registry.currentVersion := lt_nextVersion _
    have hgeo := h.owned.laidOut.copied_geometry inp.packedStruct
    have hrows : (w.server.copied w.server.registry.currentVersion inp.packedStruct).geometry.numBuckets
        = w.server.geometry.numBuckets * 2 := by
      rw [hgeo]
      rfl
    refine ⟨?_, ?_⟩
    · show 1 < nextVersion w.server.registry.currentVersion
      obtain ⟨hone, -⟩ | ⟨hlt, -⟩ := h.epoch <;> omega
    · show rows < (w.server.copied w.server.registry.currentVersion inp.packedStruct).geometry.numBuckets
      obtain ⟨-, heq⟩ | ⟨-, hlt⟩ := h.epoch <;> omega

theorem CountInv.step {a : AtomicStep} (h : CountInv rows units w) (hok : w.atomic H a = .ok w') :
    CountInv rows units w' := by
  cases a with
  | connect tid env =>
      cases hok
      have hkeep := connect_data (w.view tid) tid env
      refine h.putView tid (h.owned.attach hkeep) hkeep.registry.currentVersion hkeep.currentEpoch ?_
      rw [connect_lookup]
  | client tid env op =>
      obtain ⟨c, hc, hok⟩ := Lib.bind_eq_ok.mp hok
      cases hok
      have hkeep := maybeCheckVersion_data (w.view tid) tid env
      have hcheck := h.owned.attach hkeep
      have hlookup := (maybeCheckVersion_keeps (w.view tid) tid env).1
      obtain rfl | ⟨wr, numaOp, st, -, -, hst, rfl⟩ := clientStep_inv hc
      · exact h.putView tid hcheck hkeep.registry.currentVersion hkeep.currentEpoch (by rw [hlookup])
      · refine h.putView tid (hcheck.commit hst) hkeep.registry.currentVersion hkeep.currentEpoch ?_
        exact (step_numBuckets hst).trans (congrArg DataPlaneLudo.numBuckets hlookup)
  | tick inp => exact h.tick hok

/-- A unit of the epoch's size covers it. -/
theorem covers_of_numBuckets {dp : DataPlaneLudo} {n : Nat} (hn : n ≤ 32) (h : dp.numBuckets = 2 ^ n) :
    dp.Covers (2 ^ n) := by
  refine ⟨h, fun r hr => ?_⟩
  rw [h]
  exact exists_fastMapToBuckets hn hr

/-- Until the version moves, every unit that starts with the server's size covers the epoch. -/
theorem CountInv.usable_iff {n : Nat} (h : CountInv (2 ^ n) units w) (hn : n ≤ 32) :
    NewBucketsUsable w ↔ w.server.registry.currentVersion = 1 ∧
      ∀ tid, w.Remapped tid → units (w.threads tid).proc = 2 ^ n := by
  constructor
  · intro husable
    have hcount : w.server.geometry.numBuckets = 2 ^ n := husable.server.numBuckets.symm.trans h.server
    refine ⟨?_, fun tid hremapped => ?_⟩
    · obtain ⟨hone, -⟩ | ⟨-, hlt⟩ := h.epoch
      · exact hone
      · omega
    · rw [← h.clients, (husable.clients tid hremapped).numBuckets, hcount]
  · rintro ⟨hone, hunits⟩
    have hcount : w.server.geometry.numBuckets = 2 ^ n := by
      obtain ⟨-, heq⟩ | ⟨hlt, -⟩ := h.epoch
      · exact heq
      · omega
    refine ⟨?_, fun tid hremapped => ?_⟩
    · rw [hcount]
      exact covers_of_numBuckets hn h.server
    · rw [hcount]
      exact covers_of_numBuckets hn ((h.clients _).trans (hunits tid hremapped))

/-- A tick that completes a copy keeps the keys exactly when each of them is the constructor's local. -/
theorem CountInv.keysKept_iff (h : CountInv rows units w) {inp : TickInput} (hcopy : w.server.CompletesCopy inp) :
    ∃ w', w.atomic H (.tick inp) = .ok w' ∧ (KeysKept H w w' ↔
      ∀ p k v, w.Finds H p k v → k = inp.packedStruct.key ∧ v = inp.packedStruct.data) := by
  have hcheck : w.server.checkState H inp
      = .ok (w.server.copied w.server.registry.currentVersion inp.packedStruct) := by
    rw [Server.checkState_of_completesCopy H hcopy, doCopy_created _ _ _ hcopy.2.2.2.2]
  refine ⟨{ w with server := w.server.copied w.server.registry.currentVersion inp.packedStruct }, ?_, ?_⟩
  · unfold World.atomic
    simp only [hcheck, Exec.ok_bind]
    rfl
  · constructor
    · intro hkept p k v hfinds
      exact (copied_finds_iff h.owned _ _ hfinds).mp (hkept p k v hfinds)
    · intro hall p k v hfinds
      exact (copied_finds_iff h.owned _ _ hfinds).mpr (hall p k v hfinds)

end Run

/-! ## When the new buckets are usable -/

end Outback
