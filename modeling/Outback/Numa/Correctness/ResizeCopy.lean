import Outback.Numa.Correctness.ResizeSteps

/-!
# `Numa.Correctness.ResizeCopy` — when a resize preserves the store

`do_copy` copies the packed array and the buckets and then builds typed wrappers over the new region; the `PackedData`
constructor writes its indeterminate local over every entry that was just copied. **`resize_preserves_iff`**: after
any number of completed resizes with nothing else running, the current region answers as the first one did exactly
when no resize completed or every old entry happened to have the last constructor's value. The buckets are preserved
in any case.
-/

namespace Outback

/-- The data region the server publishes. -/
def Server.region (s : Server) : Region := s.shared.regions s.registry.currentVersion

def Server.geometry (s : Server) : Geometry := s.registry.currentEpoch.geometry

/-- The store a client with lookup unit `lookup` sees in the current region. -/
def Server.store (s : Server) (lookup : DataPlaneLudo) : Store where
  lookup := lookup
  buckets := ⟨s.region.buckets, s.geometry.numBuckets⟩
  packed := ⟨s.region.packed, 0, s.geometry.numDataEntries⟩
  lanes := s.registry.lanes
  numDataEntries := s.geometry.numDataEntries

/-- A server between operations: it works on the current region, which is laid out for its entries and buckets, the
    padding behind the buckets is zero, and no mutation is queued. -/
structure Settled (s : Server) : Prop where
  srvRegion : s.srvRegion = s.registry.currentVersion
  layout : ∃ e, sizeofLudoBucket ≤ e ∧ s.geometry = .layout s.geometry.numDataEntries s.geometry.numBuckets e
  padding : ∀ b, s.geometry.numBuckets ≤ b → s.region.buckets b = .zero
  noInserts : s.deferredInserts = []
  noDeletes : s.deferredDeletes = []

/-- Ticks of the orchestrator and nothing else: `gs` are the constructor locals of the copies that completed. -/
inductive Resizes (H : HashFn) (s : Server) : List PackedStruct → Server → Prop where
  | nil : Resizes H s [] s
  | quiet {gs : List PackedStruct} {t u : Server} {inp : TickInput} (h : Resizes H s gs t)
      (hok : t.checkState H inp = .ok u) (hv : u.registry.currentVersion = t.registry.currentVersion) :
      Resizes H s gs u
  | copy {gs : List PackedStruct} {t u : Server} {inp : TickInput} (h : Resizes H s gs t)
      (hok : t.checkState H inp = .ok u) (hv : u.registry.currentVersion ≠ t.registry.currentVersion) :
      Resizes H s (gs ++ [inp.packedStruct]) u

/-- The new store holds what the old one did: its entries, its buckets, nothing in the added buckets, and the answer of
    every search the old store answers. -/
structure StorePreserved (H : HashFn) (s t : Server) : Prop where
  packed : ∀ i, i < s.geometry.numDataEntries → t.region.packed i = s.region.packed i
  buckets : ∀ b, b < s.geometry.numBuckets → t.region.buckets b = s.region.buckets b
  upper : ∀ b, s.geometry.numBuckets ≤ b → b < t.geometry.numBuckets → t.region.buckets b = .zero
  search : ∀ lookup k r, (s.store lookup).numaSearch H k = .ok r → (t.store lookup).numaSearch H k = .ok r

/-! ## Layout -/

/-- The bucket size that `do_copy` derives is at least the one the region was laid out with. -/
theorem le_bucketSizeEach (n N e : Nat) (he : sizeofLudoBucket ≤ e) :
    sizeofLudoBucket ≤ (Geometry.layout n N e).bucketSizeEach := by
  unfold Geometry.bucketSizeEach
  split
  · rename_i hN
    refine he.trans ((Nat.le_div_iff_mul_le hN).mpr ?_)
    simp only [Geometry.layout]
    have := le_alignUp (alignUp (alignUp 0 64 + n * sizeofPackedStruct) 64 + N * e) (a := 64) (by omega)
    rw [Nat.mul_comm e N]
    omega
  · exact le_refl _

/-! ## One copy -/

section Copy

variable {s : Server} (g : PackedStruct)

/-- The copied range covers every bucket. -/
theorem Settled.le_copiedBuckets (h : Settled s) :
    s.geometry.numBuckets ≤ (s.registry.copyPlan s.registry.currentVersion).copiedBuckets := by
  obtain ⟨e, he, hgeo⟩ := h.layout
  have hle := le_bucketSizeEach s.geometry.numDataEntries s.geometry.numBuckets e he
  rw [← hgeo] at hle
  show s.geometry.numBuckets ≤ s.geometry.numBuckets * s.geometry.bucketSizeEach / sizeofLudoBucket
  rw [Nat.le_div_iff_mul_le (by decide : 0 < sizeofLudoBucket)]
  exact Nat.mul_le_mul_left _ hle

/-- The region that a completed copy publishes: the buckets are the old ones, the entries are the constructor's. -/
theorem copied_region (hsrv : s.srvRegion = s.registry.currentVersion) :
    (∀ i, (s.copied s.registry.currentVersion g).region.packed i =
      if i < s.geometry.numDataEntries * 2 then g else
        if i < s.geometry.numDataEntries then s.region.packed i else .zero) ∧
    (∀ b, (s.copied s.registry.currentVersion g).region.buckets b =
      if b < (s.registry.copyPlan s.registry.currentVersion).copiedBuckets then s.region.buckets b else .zero) := by
  have hne : s.registry.currentVersion ≠ nextVersion s.registry.currentVersion := (nextVersion_ne _).symm
  have hnew : (s.registry.copyPlan s.registry.currentVersion).newVer = nextVersion s.registry.currentVersion := rfl
  have hregions : (s.copied s.registry.currentVersion g).shared.regions
      = (((((s.enterCopying (s.registry.copyPlan s.registry.currentVersion) .created).copyPacked
          (s.registry.copyPlan s.registry.currentVersion)).copyBuckets
          (s.registry.copyPlan s.registry.currentVersion)).shared.newPackedData
          (nextVersion s.registry.currentVersion) (s.geometry.numDataEntries * 2) g).regions) := rfl
  have hsrv' : ∀ plan : CopyPlan, ((s.enterCopying plan .created).copyPacked plan).srvRegion = s.srvRegion ∧
      (s.enterCopying plan .created).srvRegion = s.srvRegion := fun _ => ⟨rfl, rfl⟩
  unfold Server.region
  rw [(copied_registry s s.registry.currentVersion g).1, hregions]
  constructor
  · intro i
    rw [Shared.newPackedData_packed, copyBuckets_regions, hnew, Function.update_self, copyPacked_regions, hnew,
      Function.update_self, enterCopying_regions, hnew, Function.update_self, (hsrv' _).2, hsrv,
      Function.update_of_ne hne]
    rfl
  · intro b
    rw [Shared.newPackedData_buckets, copyBuckets_regions, hnew, Function.update_self, copyPacked_regions, hnew,
      Function.update_self, (hsrv' _).1, hsrv, Function.update_of_ne hne, enterCopying_regions, hnew,
      Function.update_self, Function.update_of_ne hne]
    show (if _ then _ else if _ then LudoBucket.zero else LudoBucket.zero) = _
    rw [ite_self]

/-- A completed copy settles, with twice the entries and buckets, the old buckets and nothing behind them. -/
theorem Settled.copied (h : Settled s) :
    Settled (s.copied s.registry.currentVersion g) ∧
    (s.copied s.registry.currentVersion g).geometry.numDataEntries = s.geometry.numDataEntries * 2 ∧
    (s.copied s.registry.currentVersion g).geometry.numBuckets = s.geometry.numBuckets * 2 ∧
    (∀ i, i < s.geometry.numDataEntries * 2 → (s.copied s.registry.currentVersion g).region.packed i = g) ∧
    (∀ b, (s.copied s.registry.currentVersion g).region.buckets b = s.region.buckets b) := by
  obtain ⟨hver, -, -, -, -, hgeo, -⟩ := copied_registry s s.registry.currentVersion g
  obtain ⟨hpacked, hbuckets⟩ := copied_region g h.srvRegion
  obtain ⟨e, he, hlay⟩ := h.layout
  have hsame : ∀ b, (s.copied s.registry.currentVersion g).region.buckets b = s.region.buckets b := by
    intro b
    rw [hbuckets b]
    split
    · rfl
    · rename_i hb
      exact (h.padding b (h.le_copiedBuckets.trans (Nat.not_lt.mp hb))).symm
  have hgeo' : (s.copied s.registry.currentVersion g).geometry
      = .layout (s.geometry.numDataEntries * 2) (s.geometry.numBuckets * 2) s.geometry.bucketSizeEach := hgeo
  refine ⟨⟨?_, ⟨s.geometry.bucketSizeEach, ?_, ?_⟩, ?_, h.noInserts, h.noDeletes⟩, by rw [hgeo']; rfl,
    by rw [hgeo']; rfl, ?_, hsame⟩
  · rw [hver]; rfl
  · rw [hlay]; exact le_bucketSizeEach _ _ e he
  · rw [hgeo']; rfl
  · intro b hb
    rw [hgeo'] at hb
    rw [hsame b]
    exact h.padding b (le_trans (Nat.le_mul_of_pos_right _ (by decide)) hb)
  · intro i hi
    rw [hpacked i, if_pos hi]

theorem Settled.quiet {t : Server} (h : Settled s) (hq : Quiet s t) :
    Settled t ∧ t.geometry = s.geometry ∧ t.region = s.region := by
  obtain ⟨hi, hd, hr⟩ := hq.regions h.noInserts h.noDeletes
  have hgeo : t.geometry = s.geometry := by
    unfold Server.geometry SharedNumaRegistry.currentEpoch
    rw [hq.currentVersion, hq.geometry]
  have hreg : t.region = s.region := by
    unfold Server.region
    rw [hq.currentVersion, hr]
  refine ⟨⟨?_, ?_, ?_, hi, hd⟩, hgeo, hreg⟩
  · rw [hq.srvRegion, hq.currentVersion, h.srvRegion]
  · rw [hgeo]; exact h.layout
  · rw [hgeo, hreg]; exact h.padding

end Copy

/-! ## A run of resizes -/

/-- What a run has made of the first region. -/
structure Copied (s : Server) (gs : List PackedStruct) (t : Server) : Prop where
  settled : Settled t
  entries : s.geometry.numDataEntries ≤ t.geometry.numDataEntries
  numBuckets : s.geometry.numBuckets ≤ t.geometry.numBuckets
  buckets : ∀ b, t.region.buckets b = s.region.buckets b
  none_copied : gs = [] → t.region.packed = s.region.packed
  last_copied : ∀ g, gs.getLast? = some g → ∀ i, i < t.geometry.numDataEntries → t.region.packed i = g

/-- **The run.** The buckets stay the first region's; the entries are those of the last completed copy. -/
theorem Resizes.copied {H : HashFn} {s t : Server} {gs : List PackedStruct} (hs : Settled s) (h : Resizes H s gs t) :
    Copied s gs t := by
  induction h with
  | nil => exact ⟨hs, le_refl _, le_refl _, fun _ => rfl, fun _ => rfl, fun g hg => by cases hg⟩
  | @quiet gs t u inp _ hok hv ih =>
      have hq : Quiet t u := by
        rcases checkState_cases hok with hq | ⟨-, rfl⟩
        · exact hq
        · exact absurd hv (nextVersion_ne _)
      obtain ⟨hset, hgeo, hreg⟩ := ih.settled.quiet hq
      exact ⟨hset, by rw [hgeo]; exact ih.entries, by rw [hgeo]; exact ih.numBuckets,
        fun b => by rw [hreg]; exact ih.buckets b, fun hgs => by rw [hreg]; exact ih.none_copied hgs,
        fun g hg i hi => by rw [hgeo] at hi; rw [hreg]; exact ih.last_copied g hg i hi⟩
  | @copy gs t u inp _ hok hv ih =>
      have hu : u = t.copied t.registry.currentVersion inp.packedStruct := by
        rcases checkState_cases hok with hq | ⟨-, hu⟩
        · exact absurd hq.currentVersion hv
        · exact hu
      subst hu
      obtain ⟨hset, hn, hN, hpacked, hbuckets⟩ := ih.settled.copied inp.packedStruct
      refine ⟨hset, ?_, ?_, fun b => (hbuckets b).trans (ih.buckets b), fun hgs => ?_, fun g hg i hi => ?_⟩
      · rw [hn]; exact ih.entries.trans (Nat.le_mul_of_pos_right _ (by decide))
      · rw [hN]; exact ih.numBuckets.trans (Nat.le_mul_of_pos_right _ (by decide))
      · exact absurd hgs (by simp)
      · rw [List.getLast?_concat] at hg
        rw [hn] at hi
        rw [hpacked i hi]
        exact Option.some.inj hg

/-! ## Searches carry over -/

/-- A scan that returned returns the same where the entries agree. -/
theorem scanRow_mono {b : LudoBucket} {pd pd' : PackedData} {k : U64} {p : Slot} {r : Option U64}
    (hle : pd.numElements ≤ pd'.numElements)
    (heq : ∀ i, i < pd.numElements → pd'.rawArray i = pd.rawArray i) (l : List Slot)
    (h : b.scanRow pd k p l = .ok r) : b.scanRow pd' k p l = .ok r := by
  induction l with
  | nil => exact h
  | cons s l ih =>
      rw [LudoBucket.scanRow] at h ⊢
      split at h
      · rename_i hs
        rw [if_pos hs]
        exact ih h
      · rename_i hs
        rw [if_neg hs]
        split at h
        · rename_i ha
          rw [if_pos ha]
          exact ih h
        · rename_i ha
          rw [if_neg ha]
          by_cases hlt : addrOf (b.slots s) < pd.numElements
          · rw [PackedData.entry_ok hlt, Exec.ok_bind] at h
            rw [PackedData.entry_ok (hlt.trans_le hle), Exec.ok_bind, heq _ hlt]
            split at h
            · rename_i hk
              rw [if_pos hk]
              exact h
            · rename_i hk
              rw [if_neg hk]
              exact ih h
          · rw [PackedData.entry, if_neg hlt] at h
            cases h

/-- A search that returned returns the same in a larger region that agrees on the old range. -/
theorem numaSearch_mono {H : HashFn} (st st' : Store) {k : U64} {r : Option U64} (hlk : st'.lookup = st.lookup)
    (hN : st.buckets.numElements ≤ st'.buckets.numElements)
    (hb : ∀ b, b < st.buckets.numElements → st'.buckets.bucketsArray b = st.buckets.bucketsArray b)
    (hn : st.packed.numElements ≤ st'.packed.numElements)
    (hp : ∀ i, i < st.packed.numElements → st'.packed.rawArray i = st.packed.rawArray i)
    (h : st.numaSearch H k = .ok r) : st'.numaSearch H k = .ok r := by
  unfold Store.numaSearch at h ⊢
  rw [hlk]
  by_cases hrow : st.lookup.row H k < st.buckets.numElements
  · rw [LudoBuckets.row_ok hrow, Exec.ok_bind] at h
    rw [LudoBuckets.row_ok (hrow.trans_le hN), Exec.ok_bind, hb _ hrow]
    simp only at h ⊢
    by_cases hlt : addrOf ((st.buckets.bucketsArray (st.lookup.row H k)).slots (st.lookup.slot H k))
        < st.packed.numElements
    · rw [PackedData.entry_ok hlt, Exec.ok_bind] at h
      rw [PackedData.entry_ok (hlt.trans_le hn), Exec.ok_bind, hp _ hlt]
      split at h
      · rename_i hk
        rw [if_pos hk]
        exact h
      · rename_i hk
        rw [if_neg hk]
        exact scanRow_mono hn hp _ h
    · rw [PackedData.entry, if_neg hlt] at h
      cases h
  · rw [LudoBuckets.row, if_neg hrow] at h
    cases h

/-- **A resize preserves the store exactly when nothing was at stake.** For every settled server, whatever its entries,
    buckets and contents, and every run of ticks: the current region preserves the first one if and only if no copy
    completed, or every old entry equals the local of the last copy's constructor. -/
theorem resize_preserves_iff {H : HashFn} {s t : Server} {gs : List PackedStruct} (hs : Settled s)
    (hrun : Resizes H s gs t) :
    StorePreserved H s t ↔ gs = [] ∨
      ∃ g, gs.getLast? = some g ∧ ∀ i, i < s.geometry.numDataEntries → s.region.packed i = g := by
  have hc := hrun.copied hs
  constructor
  · intro hp
    rcases hlast : gs.getLast? with _ | g
    · exact Or.inl (List.getLast?_eq_none_iff.mp hlast)
    · refine Or.inr ⟨g, rfl, fun i hi => ?_⟩
      rw [← hp.packed i hi]
      exact hc.last_copied g hlast i (hi.trans_le hc.entries)
  · intro hcond
    have hpacked : ∀ i, i < s.geometry.numDataEntries → t.region.packed i = s.region.packed i := by
      intro i hi
      rcases hcond with hnil | ⟨g, hg, hall⟩
      · rw [hc.none_copied hnil]
      · rw [hc.last_copied g hg i (hi.trans_le hc.entries), hall i hi]
    refine ⟨hpacked, fun b _ => hc.buckets b, fun b hb _ => ?_, fun lookup k r hr => ?_⟩
    · rw [hc.buckets b]
      exact hs.padding b hb
    · exact numaSearch_mono (s.store lookup) _ rfl hc.numBuckets (fun b _ => hc.buckets b) hc.entries hpacked hr

/-! ## The store with key 7 -/

/-- Behind the one bucket in use there is nothing. -/
theorem rowTable_bucketsArray {H : HashFn} {b r : Nat} {seed : U8} {existKeys : List U64} (h : r ≠ b) :
    ((rowTable b seed existKeys).remoteBuckets H).bucketsArray r = .zero := by
  have hcells : (rowTable b seed existKeys).remoteCells H r = [] := by
    unfold ControlPlaneLudo.remoteCells
    rw [List.filter_eq_nil_iff.mpr, List.map_nil]
    intro s _
    simp [rowTable, h, CpBucket.empty]
  unfold ControlPlaneLudo.remoteBuckets
  simp only [hcells, Lib.scatter_nil]
  rfl

theorem rowStore_settled : Settled ((rowStore 423 0 [7]).server 1 1) where
  srvRegion := rfl
  layout := ⟨sizeofLudoBucket, le_refl _, rfl⟩
  padding := by
    intro b hb
    have hb : 512 ≤ b := hb
    exact rowTable_bucketsArray (by omega)
  noInserts := rfl
  noDeletes := rfl

/-- Two ticks, the second of which completes a copy. -/
theorem rowStore_resizes : ∃ t, Resizes fastHasher64 ((rowStore 423 0 [7]).server 1 1) [.zero] t ∧
    (t.store (rowStore 423 0 [7]).lookup).numaSearch fastHasher64 7 = .ok none := by
  have hpre : ((rowStore 423 0 [7]).server 1 1).checkState fastHasher64 calmTick
      = .ok (((rowStore 423 0 [7]).server 1 1).setState .preResize) := rfl
  have hcopy : (((rowStore 423 0 [7]).server 1 1).setState .preResize).checkState fastHasher64 calmTick
      = .ok ((((rowStore 423 0 [7]).server 1 1).setState .preResize).copied 1 .zero) := rfl
  exact ⟨_, .copy (.quiet .nil hpre rfl) hcopy (by decide), rfl⟩

/-- One resize of the store with key 7. -/
theorem resize_preserves_iff_seven : ∃ t, Resizes fastHasher64 ((rowStore 423 0 [7]).server 1 1) [.zero] t ∧
    (StorePreserved fastHasher64 ((rowStore 423 0 [7]).server 1 1) t ↔ [PackedStruct.zero] = [] ∨
      ∃ g, [PackedStruct.zero].getLast? = some g ∧
        ∀ i, i < ((rowStore 423 0 [7]).server 1 1).geometry.numDataEntries →
          ((rowStore 423 0 [7]).server 1 1).region.packed i = g) := by
  obtain ⟨t, ht, -⟩ := rowStore_resizes
  exact ⟨t, ht, resize_preserves_iff rowStore_settled ht⟩

/-- The resize of the store with key 7, the constructor's local happening to be zero: the old region answers the key,
    the new one does not. -/
theorem resize_loses_key : ∃ t, Settled ((rowStore 423 0 [7]).server 1 1) ∧
    Resizes fastHasher64 ((rowStore 423 0 [7]).server 1 1) [.zero] t ∧
    (((rowStore 423 0 [7]).server 1 1).store (rowStore 423 0 [7]).lookup).numaSearch fastHasher64 7 = .ok (some 0) ∧
    (t.store (rowStore 423 0 [7]).lookup).numaSearch fastHasher64 7 = .ok none := by
  obtain ⟨t, ht, hsearch⟩ := rowStore_resizes
  exact ⟨t, rowStore_settled, ht, rfl, hsearch⟩

end Outback
