import Outback.Numa.Layout
import Outback.Numa.Correctness.AllocInside
import Outback.Numa.Correctness.Ownership

/-!
# `Numa.Correctness.LayoutKept` — the layout of a region after any number of resizes

`do_copy` does not store the size of a bucket: it divides the distance of two rounded offsets by the number of buckets.
With an even number of buckets the bucket array is a multiple of 64 bytes, nothing is rounded, and the quotient is
`sizeof(LudoBucket)` again (`bucketSizeEach_layout`). So every epoch has the layout of its version (`EpochsLaidOut`):
`N * 2^k` buckets of 32 bytes and `n * 2^k` entries, where `k` counts the copies up to that version.

From there: the three arrays of a region are apart, aligned and inside (`arrays_layout`); the copies and clears of the
next `do_copy` stay inside the two regions and leave no bucket and no lock out (`copy_layout`); and the words that the
code computes are these numbers as long as they fit (`afterResizes_geometry`). `layout_kept` is all of it along a run.
-/

namespace Outback

/-! ## One layout -/

/-- The three arrays of a region are pairwise apart, aligned to 64 bytes and inside the region, and the bucket size that
    `do_copy` will derive is that of a bucket. -/
structure ArraysApart (g : Geometry) : Prop where
  packedBuckets : g.packedArray.Apart g.bucketArray
  packedLocks : g.packedArray.Apart g.lockArray
  bucketsLocks : g.bucketArray.Apart g.lockArray
  aligned : g.packedArrayOffset % 64 = 0 ∧ g.ludoBucketsOffset % 64 = 0 ∧ g.lockArrayOffset % 64 = 0
  inside : g.packedArray.Inside g.regionSize ∧ g.bucketArray.Inside g.regionSize ∧ g.lockArray.Inside g.regionSize
  bucketSizeEach : g.bucketSizeEach = sizeofLudoBucket

/-- What `do_copy` reads lies inside the old region, what it writes inside the new one; the old arrays go to the front
    of the new ones, and every byte of a new bucket or lock is written. -/
structure CopyCovers (old new : Geometry) : Prop where
  readsInside : (copyBlocks old new).packedFrom.Inside old.regionSize ∧ (copyBlocks old new).bucketsFrom.Inside old.regionSize
  writesInside : (copyBlocks old new).packedTo.Inside new.regionSize ∧ (copyBlocks old new).bucketsTo.Inside new.regionSize ∧
    (copyBlocks old new).bucketsClear.Inside new.regionSize ∧ (copyBlocks old new).locksClear.Inside new.regionSize
  wholeArrays : (copyBlocks old new).packedFrom = old.packedArray ∧ (copyBlocks old new).bucketsFrom = old.bucketArray
  allBuckets : ∀ x, new.bucketArray.Has x ↔ (copyBlocks old new).bucketsTo.Has x ∨ (copyBlocks old new).bucketsClear.Has x
  allLocks : ∀ x, new.lockArray.Has x ↔ (copyBlocks old new).locksClear.Has x

section Layout

variable {n N : Nat}

/-- **The arrays of a region.** -/
theorem arrays_layout (hpos : 0 < N) (heven : N % 2 = 0) : ArraysApart (.layout n N sizeofLudoBucket) := by
  obtain ⟨hpacked, hludo, hlock, hregion⟩ := Geometry.layout_sums n N sizeofLudoBucket
  have hfront : (Geometry.layout n N sizeofLudoBucket).packedArrayOffset = 0 := rfl
  have hludo64 : (Geometry.layout n N sizeofLudoBucket).ludoBucketsOffset % 64 = 0 := alignUp_mod _ _
  have hlock64 : (Geometry.layout n N sizeofLudoBucket).lockArrayOffset % 64 = 0 := alignUp_mod _ _
  have hsizes : (Geometry.layout n N sizeofLudoBucket).numDataEntries = n ∧
      (Geometry.layout n N sizeofLudoBucket).numBuckets = N := ⟨rfl, rfl⟩
  have heach := bucketSizeEach_layout (n := n) hpos heven
  generalize Geometry.layout n N sizeofLudoBucket = g at *
  obtain ⟨rfl, rfl⟩ := hsizes
  refine ⟨Block.apart_of_le ?_, Block.apart_of_le ?_, Block.apart_of_le ?_, ⟨by rw [hfront], hludo64, hlock64⟩,
    ⟨?_, ?_, ?_⟩, heach⟩ <;> simp only [Block.Inside, Geometry.packedArray, Geometry.bucketArray, Geometry.lockArray] <;>
    omega

/-- **The copy into a region of twice the size.** -/
theorem copy_layout (hpos : 0 < N) (heven : N % 2 = 0) :
    CopyCovers (.layout n N sizeofLudoBucket) (.layout (n * 2) (N * 2) sizeofLudoBucket) := by
  obtain ⟨hpacked, hludo, hlock, hregion⟩ := Geometry.layout_sums n N sizeofLudoBucket
  obtain ⟨hpacked', hludo', hlock', hregion'⟩ := Geometry.layout_sums (n * 2) (N * 2) sizeofLudoBucket
  have hfront : (Geometry.layout n N sizeofLudoBucket).packedArrayOffset = 0 := rfl
  have hfront' : (Geometry.layout (n * 2) (N * 2) sizeofLudoBucket).packedArrayOffset = 0 := rfl
  have hsizes : (Geometry.layout n N sizeofLudoBucket).numDataEntries = n ∧
      (Geometry.layout n N sizeofLudoBucket).numBuckets = N := ⟨rfl, rfl⟩
  have hsizes' : (Geometry.layout (n * 2) (N * 2) sizeofLudoBucket).numDataEntries = n * 2 ∧
      (Geometry.layout (n * 2) (N * 2) sizeofLudoBucket).numBuckets = N * 2 := ⟨rfl, rfl⟩
  have heach := bucketSizeEach_layout (n := n) hpos heven
  generalize Geometry.layout n N sizeofLudoBucket = g at *
  generalize Geometry.layout (n * 2) (N * 2) sizeofLudoBucket = g' at *
  obtain ⟨rfl, rfl⟩ := hsizes
  have hmul : g'.numBuckets * sizeofLudoBucket = g.numBuckets * sizeofLudoBucket + g.numBuckets * sizeofLudoBucket := by
    rw [hsizes'.2, Nat.mul_right_comm, Nat.mul_two]
  have hmul' : g.numDataEntries * 2 * sizeofPackedStruct
      = g.numDataEntries * sizeofPackedStruct + g.numDataEntries * sizeofPackedStruct := by
    rw [Nat.mul_right_comm, Nat.mul_two]
  rw [← hsizes'.2] at hlock' hregion'
  constructor
  all_goals simp only [copyBlocks, Block.Inside, Block.Has, Geometry.packedArray, Geometry.bucketArray,
    Geometry.lockArray, heach]
  · omega
  · omega
  · exact ⟨trivial, trivial⟩
  · intro x
    omega
  · exact fun _ => trivial

end Layout

/-! ## The layout of a version -/

/-- The layout of version `ver`, when version 1 has `n` entries and `N` buckets. -/
def layoutAt (n N ver : Nat) : Geometry := .layout (entriesAt n ver) (entriesAt N ver) sizeofLudoBucket

/-- The current version has an epoch of its own, and every filled epoch the layout of its version. -/
structure EpochsLaidOut (n N : Nat) (reg : SharedNumaRegistry) : Prop where
  slot : reg.currentVersion % kMaxEpochSlots ≠ 0
  current : reg.currentEpoch.version = reg.currentVersion
  geometry : ∀ i, (reg.epoch i).version ≠ 0 → (reg.epoch i).geometry = layoutAt n N (reg.epoch i).version

section Run

variable {n N : Nat} {reg reg' : SharedNumaRegistry} {s s' : Server} {H : HashFn}

theorem EpochsLaidOut.currentGeometry (h : EpochsLaidOut n N reg) :
    reg.currentEpoch.geometry = layoutAt n N reg.currentVersion := by
  have hpos : reg.currentVersion ≠ 0 := fun h0 => h.slot (by rw [h0]; rfl)
  have hgeo := h.geometry (reg.currentVersion % kMaxEpochSlots)
  rw [show (reg.epoch (reg.currentVersion % kMaxEpochSlots)).version = reg.currentVersion from h.current] at hgeo
  exact hgeo hpos

theorem EpochsLaidOut.congr (h : EpochsLaidOut n N reg) (hcur : reg'.currentVersion = reg.currentVersion)
    (hver : ∀ i, (reg'.epoch i).version = (reg.epoch i).version)
    (hgeo : ∀ i, (reg'.epoch i).geometry = (reg.epoch i).geometry) : EpochsLaidOut n N reg' := by
  refine ⟨by rw [hcur]; exact h.slot, ?_, fun i hi => ?_⟩
  · unfold SharedNumaRegistry.currentEpoch SharedNumaRegistry.epochOf
    rw [hver, hcur]
    exact h.current
  · rw [hver] at hi
    rw [hgeo, hver]
    exact h.geometry i hi

/-- Every version has an even number of buckets, and at least one. -/
theorem entriesAt_even (hpos : 0 < N) (heven : N % 2 = 0) (ver : Nat) :
    0 < entriesAt N ver ∧ entriesAt N ver % 2 = 0 := by
  refine ⟨hpos.trans_le (Nat.le_mul_of_pos_right _ (Nat.two_pow_pos _)), ?_⟩
  unfold entriesAt
  rw [Nat.mul_mod, heven, Nat.zero_mul, Nat.zero_mod]

/-- **One copy.** The derived bucket size is that of a bucket, so the plan is the layout of the next version. -/
theorem layoutAt_next (hpos : 0 < N) (heven : N % 2 = 0) {ver : Nat} (hslot : ver % kMaxEpochSlots ≠ 0) :
    Geometry.layout ((layoutAt n N ver).numDataEntries * 2) ((layoutAt n N ver).numBuckets * 2)
      (layoutAt n N ver).bucketSizeEach = layoutAt n N (nextVersion ver) := by
  have heach : (layoutAt n N ver).bucketSizeEach = sizeofLudoBucket :=
    bucketSizeEach_layout (entriesAt_even hpos heven ver).1 (entriesAt_even hpos heven ver).2
  rw [heach]
  unfold layoutAt
  rw [entriesAt_nextVersion n hslot, entriesAt_nextVersion N hslot]
  rfl

/-- The epoch table after a copy: the slot of the next version is filled, the others are as they were. -/
theorem copied_epoch (g : PackedStruct) (i : Nat) :
    (i = nextVersion s.registry.currentVersion % kMaxEpochSlots →
      ((s.copied s.registry.currentVersion g).registry.epoch i).version = nextVersion s.registry.currentVersion ∧
      ((s.copied s.registry.currentVersion g).registry.epoch i).geometry
        = (s.registry.copyPlan s.registry.currentVersion).geometry) ∧
    (i ≠ nextVersion s.registry.currentVersion % kMaxEpochSlots →
      (s.copied s.registry.currentVersion g).registry.epoch i = s.registry.epoch i) := by
  constructor
  · rintro rfl
    exact ⟨(copied_epochs s g).1.2, (copied_registry s s.registry.currentVersion g).2.2.2.2.2.1⟩
  · intro hi
    have hi' : i ≠ (s.registry.copyPlan s.registry.currentVersion).newVer % kMaxEpochSlots := hi
    show Function.update (Function.update s.registry.epoch _ _) _ _ i = _
    rw [Function.update_of_ne hi', Function.update_of_ne hi']

theorem EpochsLaidOut.copied (h : EpochsLaidOut n N s.registry) (hpos : 0 < N) (heven : N % 2 = 0) (g : PackedStruct) :
    EpochsLaidOut n N (s.copied s.registry.currentVersion g).registry := by
  have hver := (copied_registry s s.registry.currentVersion g).1
  have hself := (copied_epoch (s := s) g (nextVersion s.registry.currentVersion % kMaxEpochSlots)).1 rfl
  refine ⟨?_, ?_, fun i hi => ?_⟩
  · rw [hver]
    exact (nextVersion_slot _).1
  · unfold SharedNumaRegistry.currentEpoch SharedNumaRegistry.epochOf
    rw [hver]
    exact hself.1
  · by_cases hnew : i = nextVersion s.registry.currentVersion % kMaxEpochSlots
    · subst hnew
      rw [hself.1, hself.2, ← layoutAt_next hpos heven h.slot, ← h.currentGeometry]
      rfl
    · rw [(copied_epoch g i).2 hnew] at hi ⊢
      exact h.geometry i hi

/-- **One step.** -/
theorem EpochsLaidOut.step (h : EpochsLaidOut n N s.registry) (hpos : 0 < N) (heven : N % 2 = 0) {a : ServerStep}
    (hok : s.step H a = .ok s') : EpochsLaidOut n N s'.registry := by
  cases a with
  | clients w =>
      cases hok
      exact h.congr rfl (fun _ => rfl) (fun _ => rfl)
  | tick inp =>
      rcases checkState_cases hok with hquiet | ⟨-, rfl⟩
      · have hkeeps := (checkState_move hok).keepsEpochs hquiet.currentVersion
        exact h.congr hkeeps.currentVersion hkeeps.version hkeeps.geometry
      · exact h.copied hpos heven inp.packedStruct

/-- The registry of a bulk load. -/
theorem epochsLaidOut_start (st : Store) (sSlow sStop : Nat) :
    EpochsLaidOut st.packed.numElements st.buckets.numElements (st.server sSlow sStop).registry := by
  have hone : ∀ n, entriesAt n 1 = n := fun n => Nat.mul_one n
  refine ⟨(by decide : 1 % kMaxEpochSlots ≠ 0), rfl, fun i hi => ?_⟩
  have hepoch : (st.server sSlow sStop).registry.epoch i = (st.publish sSlow sStop).registry.epoch i := rfl
  by_cases h1 : i = 1
  · subst h1
    unfold layoutAt
    show _ = Geometry.layout (entriesAt st.packed.numElements 1) (entriesAt st.buckets.numElements 1) _
    rw [hone, hone]
    rfl
  · rw [hepoch] at hi
    unfold Store.publish at hi
    simp only [if_neg h1] at hi
    exact absurd rfl hi

end Run

/-! ## The words of a version -/

theorem alignUp_mono {v v' : Nat} (h : v ≤ v') (a : Nat) : alignUp v a ≤ alignUp v' a :=
  Nat.mul_le_mul_right a (Nat.div_le_div_right (by omega))

/-- A layout that fits is preceded by layouts that fit. -/
theorem Geometry.Fits.mono {n N n' N' e : Nat} (h : (Geometry.layout n' N' e).Fits) (hn : n ≤ n') (hN : N ≤ N') :
    (Geometry.layout n N e).Fits := by
  have hentries : n * sizeofPackedStruct ≤ n' * sizeofPackedStruct := Nat.mul_le_mul_right _ hn
  have hbuckets : N * e ≤ N' * e := Nat.mul_le_mul_right e hN
  have hludo : (Geometry.layout n N e).ludoBucketsOffset ≤ (Geometry.layout n' N' e).ludoBucketsOffset :=
    alignUp_mono (Nat.add_le_add_left hentries _) 64
  have hlock : (Geometry.layout n N e).lockArrayOffset ≤ (Geometry.layout n' N' e).lockArrayOffset :=
    alignUp_mono (Nat.add_le_add hludo hbuckets) 64
  have hsizes : (Geometry.layout n N e).numBuckets = N ∧ (Geometry.layout n' N' e).numBuckets = N' := ⟨rfl, rfl⟩
  unfold Geometry.Fits at h ⊢
  omega

/-- The derived bucket size, on words. -/
theorem GeometryWords.bucketSizeEach_toNat {g : GeometryWords}
    (h : g.ludoBucketsOffset.toNat ≤ g.lockArrayOffset.toNat) : g.bucketSizeEach.toNat = g.geometry.bucketSizeEach := by
  have hpos : g.numBuckets > 0 ↔ g.geometry.numBuckets > 0 := BitVec.lt_def
  unfold GeometryWords.bucketSizeEach Geometry.bucketSizeEach
  by_cases hzero : g.numBuckets > 0
  · rw [if_pos hzero, if_pos (hpos.mp hzero), BitVec.toNat_udiv, BitVec.toNat_sub_of_le h]
    rfl
  · rw [if_neg hzero, if_neg (mt hpos.mpr hzero)]
    rfl

/-- The numbers of entries and buckets of a layout that fits are words, and so are their doubles. -/
theorem Geometry.Fits.sizes {n N e : Nat} (h : (Geometry.layout n N e).Fits) : n < 2 ^ 63 ∧ N < 2 ^ 64 := by
  obtain ⟨hpacked, hludo, hlock, -⟩ := Geometry.layout_sums n N e
  have hN : (Geometry.layout n N e).numBuckets = N := rfl
  unfold Geometry.Fits at h
  unfold sizeofPackedStruct at hpacked hludo
  constructor <;> omega

section Words

variable {n N : Nat} {g : GeometryWords}

theorem GeometryWords.bucketSizeEach_eq (hpos : 0 < N) (heven : N % 2 = 0)
    (h : g.geometry = .layout n N sizeofLudoBucket) : g.bucketSizeEach.toNat = sizeofLudoBucket := by
  obtain ⟨-, -, hlock, -⟩ := Geometry.layout_sums n N sizeofLudoBucket
  have hle : g.geometry.ludoBucketsOffset ≤ g.geometry.lockArrayOffset := by
    rw [h]
    omega
  rw [GeometryWords.bucketSizeEach_toNat hle, h]
  exact bucketSizeEach_layout hpos heven

/-- The next epoch, from an epoch that is what it stands for. -/
theorem GeometryWords.doubled_geometry (hpos : 0 < N) (heven : N % 2 = 0)
    (h : g.geometry = .layout n N sizeofLudoBucket) (hfits : (Geometry.layout (n * 2) (N * 2) sizeofLudoBucket).Fits) :
    g.doubled.geometry = .layout (n * 2) (N * 2) sizeofLudoBucket := by
  obtain ⟨hn, hN⟩ := hfits.sizes
  have hentries : g.numDataEntries.toNat = n := congrArg Geometry.numDataEntries h
  have hbuckets : g.numBuckets.toNat = N := congrArg Geometry.numBuckets h
  have htwo : (2 : U64).toNat = 2 := rfl
  have hentries' : (g.numDataEntries * 2).toNat = n * 2 := by
    rw [mul_toNat (by rw [hentries, htwo]; omega), hentries, htwo]
  have hbuckets' : (g.numBuckets * 2).toNat = N * 2 := by
    rw [mul_toNat (by rw [hbuckets, htwo]; omega), hbuckets, htwo]
  have hwords := layoutWords_geometry (n := g.numDataEntries * 2) (N := g.numBuckets * 2) (e := g.bucketSizeEach)
  rw [hentries', hbuckets', GeometryWords.bucketSizeEach_eq hpos heven h] at hwords
  exact hwords hfits

/-- **The words of the code.** Computed resize by resize on `size_t`, the layout is the one it stands for as long as it
    fits 64 bits. -/
theorem afterResizes_geometry (hpos : 0 < N) (heven : N % 2 = 0) (k : Nat)
    (hfits : (Geometry.layout (n * 2 ^ k) (N * 2 ^ k) sizeofLudoBucket).Fits) :
    (GeometryWords.afterResizes (BitVec.ofNat 64 n) (BitVec.ofNat 64 N) k).geometry
      = .layout (n * 2 ^ k) (N * 2 ^ k) sizeofLudoBucket := by
  induction k with
  | zero =>
      rw [Nat.pow_zero, Nat.mul_one, Nat.mul_one] at hfits ⊢
      obtain ⟨hn, hN⟩ := hfits.sizes
      have hwords := layoutWords_geometry (n := BitVec.ofNat 64 n) (N := BitVec.ofNat 64 N)
        (e := BitVec.ofNat 64 sizeofLudoBucket)
      rw [BitVec.toNat_ofNat, BitVec.toNat_ofNat, BitVec.toNat_ofNat, Nat.mod_eq_of_lt (by omega), Nat.mod_eq_of_lt hN,
        Nat.mod_eq_of_lt (by decide)] at hwords
      exact hwords hfits
  | succ k ih =>
      rw [Nat.pow_succ, ← Nat.mul_assoc, ← Nat.mul_assoc] at hfits ⊢
      have hpos' : 0 < N * 2 ^ k := Nat.mul_pos hpos (Nat.two_pow_pos k)
      have heven' : N * 2 ^ k % 2 = 0 := by rw [Nat.mul_mod, heven, Nat.zero_mul, Nat.zero_mod]
      have hold := ih (hfits.mono (Nat.le_mul_of_pos_right _ (by decide)) (Nat.le_mul_of_pos_right _ (by decide)))
      exact GeometryWords.doubled_geometry hpos' heven' hold hfits

end Words

/-! ## Any number of resizes -/

/-- What the words of an epoch are, when its sums fit 64 bits. -/
def WordsAgree (n N ver : Nat) (g : Geometry) : Prop :=
  g.Fits → (GeometryWords.afterResizes (BitVec.ofNat 64 n) (BitVec.ofNat 64 N) (doublings ver)).geometry = g ∧
    (GeometryWords.afterResizes (BitVec.ofNat 64 n) (BitVec.ofNat 64 N) (doublings ver)).bucketSizeEach.toNat
      = sizeofLudoBucket

theorem wordsAgree_layoutAt {n N : Nat} (hpos : 0 < N) (heven : N % 2 = 0) (ver : Nat) :
    WordsAgree n N ver (layoutAt n N ver) := by
  intro hfits
  have hgeo := afterResizes_geometry hpos heven (doublings ver) hfits
  have hsizes := entriesAt_even hpos heven ver
  exact ⟨hgeo, GeometryWords.bucketSizeEach_eq hsizes.1 hsizes.2 hgeo⟩

/-- **The layout survives any number of resizes.** From any number of entries and `64 * 2 ^ j` buckets, after any run:
    in every epoch the three arrays are apart, aligned and inside and the derived bucket size is exact; the copies and
    clears of the next resize stay inside and cover all buckets and locks; and the code's words are these numbers, for
    every epoch whose sums fit 64 bits. -/
theorem layout_kept {H : HashFn} {st : Store} {j sSlow sStop : Nat} {s : Server}
    (hN : st.buckets.numElements = 64 * 2 ^ j)
    (hrun : Lib.Reaches (Server.step H) Lib.anyStep (st.server sSlow sStop) s) :
    (∀ i, (s.registry.epoch i).version ≠ 0 → ArraysApart (s.registry.epoch i).geometry ∧
      WordsAgree st.packed.numElements st.buckets.numElements (s.registry.epoch i).version
        (s.registry.epoch i).geometry) ∧
    CopyCovers s.registry.currentEpoch.geometry (s.registry.copyPlan s.registry.currentVersion).geometry ∧
    ArraysApart (s.registry.copyPlan s.registry.currentVersion).geometry ∧
    WordsAgree st.packed.numElements st.buckets.numElements (s.registry.copyPlan s.registry.currentVersion).newVer
      (s.registry.copyPlan s.registry.currentVersion).geometry := by
  have hpos : 0 < st.buckets.numElements := by
    rw [hN]
    exact Nat.mul_pos (by decide) (Nat.two_pow_pos j)
  have heven : st.buckets.numElements % 2 = 0 := by
    rw [hN, Nat.mul_mod]
    simp
  have hinv : EpochsLaidOut st.packed.numElements st.buckets.numElements s.registry :=
    hrun.invariant (P := fun s => EpochsLaidOut st.packed.numElements st.buckets.numElements s.registry)
      (epochsLaidOut_start st sSlow sStop) (fun _ _ _ h _ hok => h.step hpos heven hok)
  have harrays : ∀ ver, ArraysApart (layoutAt st.packed.numElements st.buckets.numElements ver) := fun ver =>
    arrays_layout (entriesAt_even hpos heven ver).1 (entriesAt_even hpos heven ver).2
  have hplan : (s.registry.copyPlan s.registry.currentVersion).geometry
      = layoutAt st.packed.numElements st.buckets.numElements (nextVersion s.registry.currentVersion) := by
    rw [← layoutAt_next hpos heven hinv.slot, ← hinv.currentGeometry]
    rfl
  refine ⟨fun i hi => ?_, ?_, ?_, ?_⟩
  · rw [hinv.geometry i hi]
    exact ⟨harrays _, wordsAgree_layoutAt hpos heven _⟩
  · have hnext := copy_layout (n := entriesAt st.packed.numElements s.registry.currentVersion)
      (entriesAt_even hpos heven s.registry.currentVersion).1 (entriesAt_even hpos heven s.registry.currentVersion).2
    rw [hplan, hinv.currentGeometry]
    unfold layoutAt
    rw [entriesAt_nextVersion _ hinv.slot, entriesAt_nextVersion _ hinv.slot]
    exact hnext
  · rw [hplan]
    exact harrays _
  · rw [hplan]
    exact wordsAgree_layoutAt hpos heven _

/-- The first resize of a store of one key: two epochs, with 512 and 1024 buckets. -/
theorem layout_kept_seven : ∃ s, Lib.Reaches (Server.step fastHasher64) Lib.anyStep sevenServer s ∧
    (s.registry.epoch 1).geometry.numBuckets = 512 ∧ (s.registry.epoch 2).geometry.numBuckets = 1024 ∧
    (s.registry.epoch 2).geometry.Fits ∧ ArraysApart (s.registry.epoch 2).geometry ∧
    CopyCovers s.registry.currentEpoch.geometry (s.registry.copyPlan s.registry.currentVersion).geometry := by
  have h₁ : sevenServer.step fastHasher64 (.tick calmTick) = .ok (sevenServer.setState .preResize) := rfl
  have h₂ : (sevenServer.setState .preResize).step fastHasher64 (.tick calmTick)
      = .ok ((sevenServer.setState .preResize).copied 1 .zero) := rfl
  have hrun : Lib.Reaches (Server.step fastHasher64) Lib.anyStep sevenServer _ :=
    (Lib.Reaches.snoc .refl trivial h₁).snoc trivial h₂
  obtain ⟨hepochs, hcopy, -⟩ := layout_kept (j := 3) rfl hrun
  exact ⟨_, hrun, rfl, rfl, by decide, (hepochs 2 (by decide)).1, hcopy⟩

end Outback
