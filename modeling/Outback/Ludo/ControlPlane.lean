import Outback.Ludo.DataPlane
import Outback.Lib.Scatter

/-!
# `Ludo.ControlPlane` — the control-plane table and the data plane built from it (`ludo_cp_dp.h`)

The control plane keeps the keys and the values: four slots a bucket, an occupancy mask, a seed. It is generic in
the value type and in the Othello locator. In an `ExactLudo` the locator is an exact updatable map from the
registered keys to one bit; a data-plane lookup of a key that was never registered reads *some* fixed bit, the
parameter `alien`.

`dataPlane` and `remoteBuckets` are the two halves of the constructor `DataPlaneLudo(cp, pd)`: the seeds the
client computes slots with, and the slot words the server is addressed by. `Inv` is what the control plane
keeps between operations, and `remoteBuckets_word` is the perfect-hash property the rest of the development
rests on: an occupied control-plane slot is found again at the slot its bucket's seed hashes the key to, and
no other slot word is set.
-/

namespace Outback

/-- A `std::vector`: its size and its elements. -/
structure Vec (α : Type) where
  size : Nat
  get : Nat → α

/-- `vector::resize(n, x)`: elements beyond the old size are `x`. -/
def Vec.resize {α : Type} (v : Vec α) (n : Nat) (x : α) : Vec α where
  size := n
  get := fun i => if i < v.size then v.get i else x

/-- `v[i] = x`. -/
def Vec.set {α : Type} (v : Vec α) (i : Nat) (x : α) : Vec α where
  size := v.size
  get := Function.update v.get i x

/-- A `std::vector` whose storage other code still points into: how many elements were allocated, and how
    often it was allocated. -/
structure Buffer (α : Type) extends Vec α where
  allocated : Nat
  storage : Nat

/-- Copy assignment. It reuses the storage where the elements fit, and what lies beyond the new size stays in
    memory; otherwise it allocates anew and every pointer into the old storage dangles. -/
def Buffer.assign {α : Type} (b : Buffer α) (v : Vec α) : Buffer α :=
  if v.size ≤ b.allocated then
    { b with size := v.size, get := fun i => if i < v.size then v.get i else b.get i }
  else ⟨v, v.size, b.storage + 1⟩

/-- `ControlPlaneLudo::Bucket`. -/
structure CpBucket (V : Type) where
  seed : U8
  occupiedMask : Slot → Bool
  keys : Slot → U64
  values : Slot → V

def CpBucket.empty {V : Type} [Inhabited V] : CpBucket V := ⟨0, fun _ => false, fun _ => 0, fun _ => default⟩

/-- `V` are the values, `L` the Othello locator. -/
structure ControlPlaneLudo (V L : Type) where
  numBuckets : Nat
  hSeed : U64
  nKeys : Nat
  capacity : Nat
  buckets : Vec (CpBucket V)
  oldBuckets : Buffer (CpBucket V)
  integrity : Bool
  locator : L

/-- The control plane of the servers' 64-bit values, over an exact locator: the bit of every registered key. -/
abbrev ExactLudo := ControlPlaneLudo U64 (U64 → Option Bool)

/-- The default row-hash seed of `LudoCommon::h`. -/
def defaultHSeed : U64 := 0xe2211e2211

/-- `FindInBucket`. -/
def CpBucket.findInBucket {V : Type} (bucket : CpBucket V) (k : U64) : Option V :=
  ((List.finRange 4).find? fun s => bucket.occupiedMask s && bucket.keys s == k).map bucket.values

namespace ControlPlaneLudo

variable (H : HashFn)

/-- `lookUp(k, out)`: the two candidate buckets in turn. -/
def lookUp (cp : ExactLudo) (k : U64) : Option U64 :=
  ((cp.buckets.get (fastMapToBuckets (H cp.hSeed k) cp.buckets.size false)).findInBucket k).or
    ((cp.buckets.get (fastMapToBuckets (H cp.hSeed k) cp.buckets.size true)).findInBucket k)

/-- Slot `s` of bucket `b` is in use. -/
def Stored (cp : ExactLudo) (b : Nat) (s : Slot) : Prop :=
  b < cp.numBuckets ∧ (cp.buckets.get b).occupiedMask s = true

instance (cp : ExactLudo) (b : Nat) (s : Slot) : Decidable (cp.Stored b s) := inferInstanceAs (Decidable (_ ∧ _))

/-- What the control plane keeps between operations: the table size, every stored key in the candidate
    bucket that its locator bit selects, and in each bucket a seed that separates its keys. -/
structure Inv (cp : ExactLudo) : Prop where
  pow : ∃ j, cp.numBuckets = 64 * 2 ^ j
  size : cp.buckets.size = cp.numBuckets
  located : ∀ b s, cp.Stored b s → ∃ bit, cp.locator ((cp.buckets.get b).keys s) = some bit ∧
    fastMapToBuckets (H cp.hSeed ((cp.buckets.get b).keys s)) cp.numBuckets bit = b
  separated : ∀ b s t, cp.Stored b s → cp.Stored b t →
    seedSlot H (cp.buckets.get b).seed ((cp.buckets.get b).keys s)
      = seedSlot H (cp.buckets.get b).seed ((cp.buckets.get b).keys t) → s = t

/-- The seed of every bucket sends the keys of its slots in use to different slots. -/
def SeedsSeparate (cp : ExactLudo) : Prop :=
  ∀ b s t, cp.Stored b s → cp.Stored b t →
    seedSlot H (cp.buckets.get b).seed ((cp.buckets.get b).keys s)
      = seedSlot H (cp.buckets.get b).seed ((cp.buckets.get b).keys t) → s = t

theorem Inv.numBuckets_pos {cp : ExactLudo} (h : cp.Inv H) : 0 < cp.numBuckets := by
  obtain ⟨j, hj⟩ := h.pow
  have := Nat.two_pow_pos j
  omega

/-- The seeds, the row hash and the locator of `DataPlaneLudo(cp)`. -/
def dataPlane (cp : ExactLudo) (alien : U64 → Bool) : DataPlaneLudo where
  numBuckets := cp.numBuckets
  hSeed := cp.hSeed
  locator := fun k => (cp.locator k).getD (alien k)
  seeds := fun b => (cp.buckets.get b).seed

/-- The cells `DataPlaneLudo(cp, pd)` writes into bucket `b` of `pd`, in control-plane slot order. -/
def remoteCells (cp : ExactLudo) (b : Nat) : List (Slot × U64) :=
  ((List.finRange 4).filter ((cp.buckets.get b).occupiedMask ·)).map fun s =>
    (seedSlot H (cp.buckets.get b).seed ((cp.buckets.get b).keys s), bulkWord ((cp.buckets.get b).values s))

/-- The `LudoBuckets` of `DataPlaneLudo(cp, pd)`. -/
def remoteBuckets (cp : ExactLudo) : LudoBuckets where
  bucketsArray := fun b => ⟨Lib.scatter (fun _ => 0) (cp.remoteCells H b)⟩
  numElements := cp.numBuckets

variable {H} {cp : ExactLudo}

/-- The row a stored key is looked up in is the bucket that stores it. -/
theorem Inv.dataPlane_row (h : cp.Inv H) (alien : U64 → Bool) {b : Nat} {s : Slot} (hs : cp.Stored b s) :
    (cp.dataPlane alien).row H ((cp.buckets.get b).keys s) = b := by
  obtain ⟨bit, hbit, hb⟩ := h.located b s hs
  simp only [DataPlaneLudo.row, dataPlane, hbit, Option.getD_some]
  exact hb

theorem mem_remoteCells {b : Nat} {c : Slot × U64} : c ∈ cp.remoteCells H b ↔
    ∃ s, (cp.buckets.get b).occupiedMask s = true ∧
      c = (seedSlot H (cp.buckets.get b).seed ((cp.buckets.get b).keys s),
        bulkWord ((cp.buckets.get b).values s)) := by
  unfold remoteCells
  rw [List.mem_map]
  constructor
  · rintro ⟨s, hs, rfl⟩
    exact ⟨s, (List.mem_filter.mp hs).2, rfl⟩
  · rintro ⟨s, hs, rfl⟩
    exact ⟨s, List.mem_filter.mpr ⟨List.mem_finRange s, hs⟩, rfl⟩

theorem SeedsSeparate.remoteCells_nodup (h : cp.SeedsSeparate H) {b : Nat} (hb : b < cp.numBuckets) :
    ((cp.remoteCells H b).map Prod.fst).Nodup := by
  unfold remoteCells
  rw [List.map_map]
  refine List.Nodup.map_on ?_ ((List.nodup_finRange 4).filter _)
  intro s hs t ht hst
  exact h b s t ⟨hb, by simpa using hs⟩ ⟨hb, by simpa using ht⟩ hst

/-- **The remote table is a perfect hash.** A slot word of the table that the bulk loader builds is either
    zero, or it is the word of exactly the control-plane slot whose key hashes there. -/
theorem SeedsSeparate.remoteBuckets_word (h : cp.SeedsSeparate H) {b : Nat} (hb : b < cp.numBuckets) (t : Slot) :
    (cp.remoteBuckets H).word b t = 0 ∨
      ∃ s, cp.Stored b s ∧ seedSlot H (cp.buckets.get b).seed ((cp.buckets.get b).keys s) = t ∧
        (cp.remoteBuckets H).word b t = bulkWord ((cp.buckets.get b).values s) := by
  by_cases ht : t ∈ (cp.remoteCells H b).map Prod.fst
  · obtain ⟨c, hc, hct⟩ := List.mem_map.mp ht
    obtain ⟨s, hs, rfl⟩ := mem_remoteCells.mp hc
    have hw := Lib.scatter_of_mem (f := fun _ => 0) (h.remoteCells_nodup hb) hc
    exact Or.inr ⟨s, ⟨hb, hs⟩, hct, hct ▸ hw⟩
  · exact Or.inl (Lib.scatter_of_not_mem ht)

/-- The converse direction: a stored key's word is at the slot its bucket's seed selects. -/
theorem SeedsSeparate.remoteBuckets_stored (h : cp.SeedsSeparate H) {b : Nat} {s : Slot} (hs : cp.Stored b s) :
    (cp.remoteBuckets H).word b (seedSlot H (cp.buckets.get b).seed ((cp.buckets.get b).keys s))
      = bulkWord ((cp.buckets.get b).values s) :=
  Lib.scatter_of_mem (h.remoteCells_nodup hs.1) (mem_remoteCells.mpr ⟨s, hs.2, rfl⟩)

theorem Inv.seedsSeparate (h : cp.Inv H) : cp.SeedsSeparate H := h.separated

theorem findInBucket_eq_some {bucket : CpBucket U64} {k v : U64} (h : bucket.findInBucket k = some v) :
    ∃ s, bucket.occupiedMask s = true ∧ bucket.keys s = k ∧ bucket.values s = v := by
  obtain ⟨s, hs, rfl⟩ := Option.map_eq_some_iff.mp h
  have := List.find?_some hs
  simp only [Bool.and_eq_true, beq_iff_eq] at this
  exact ⟨s, this.1, this.2, rfl⟩

theorem findInBucket_isSome {bucket : CpBucket U64} {s : Slot} (hs : bucket.occupiedMask s = true) :
    (bucket.findInBucket (bucket.keys s)).isSome := by
  unfold CpBucket.findInBucket
  rw [Option.isSome_map, List.find?_isSome]
  exact ⟨s, List.mem_finRange s, by simp [hs]⟩

/-- A key is stored in one slot only. -/
theorem Inv.stored_unique (h : cp.Inv H) {b b' : Nat} {s s' : Slot} (hs : cp.Stored b s) (hs' : cp.Stored b' s')
    (hk : (cp.buckets.get b).keys s = (cp.buckets.get b').keys s') : b = b' ∧ s = s' := by
  obtain ⟨bit, hbit, hb⟩ := h.located b s hs
  obtain ⟨bit', hbit', hb'⟩ := h.located b' s' hs'
  rw [← hk] at hbit' hb'
  obtain rfl : bit = bit' := Option.some.inj (hbit.symm.trans hbit')
  obtain rfl : b = b' := hb.symm.trans hb'
  exact ⟨rfl, h.separated b s s' hs hs' (by rw [hk])⟩

/-- **`lookUp` answers exactly the stored pairs.** -/
theorem Inv.lookUp_eq_some_iff (h : cp.Inv H) {k v : U64} : cp.lookUp H k = some v ↔
    ∃ b s, cp.Stored b s ∧ (cp.buckets.get b).keys s = k ∧ (cp.buckets.get b).values s = v := by
  have hlt : ∀ second, fastMapToBuckets (H cp.hSeed k) cp.buckets.size second < cp.numBuckets := fun second => by
    rw [h.size]
    exact fastMapToBuckets_lt _ h.numBuckets_pos second
  constructor
  · intro hv
    rcases Option.or_eq_some_iff.mp hv with hv | ⟨-, hv⟩
    · obtain ⟨s, hs, hk, hval⟩ := findInBucket_eq_some hv
      exact ⟨_, s, ⟨hlt false, hs⟩, hk, hval⟩
    · obtain ⟨s, hs, hk, hval⟩ := findInBucket_eq_some hv
      exact ⟨_, s, ⟨hlt true, hs⟩, hk, hval⟩
  · rintro ⟨b, s, hs, rfl, rfl⟩
    -- one of the two candidates is the bucket that stores the key
    have hsome : (cp.lookUp H ((cp.buckets.get b).keys s)).isSome := by
      obtain ⟨bit, -, hb⟩ := h.located b s hs
      have hfound := findInBucket_isSome hs.2
      unfold lookUp
      rw [Option.isSome_or, h.size]
      cases bit with
      | false => rw [hb, hfound, Bool.true_or]
      | true => rw [hb, hfound, Bool.or_true]
    obtain ⟨w, hw⟩ := Option.isSome_iff_exists.mp hsome
    rw [hw]
    rcases Option.or_eq_some_iff.mp hw with hv | ⟨-, hv⟩
    · obtain ⟨s', hs', hk, hval⟩ := findInBucket_eq_some hv
      obtain ⟨hbb, rfl⟩ := h.stored_unique ⟨hlt false, hs'⟩ hs hk
      rw [← hval, hbb]
    · obtain ⟨s', hs', hk, hval⟩ := findInBucket_eq_some hv
      obtain ⟨hbb, rfl⟩ := h.stored_unique ⟨hlt true, hs'⟩ hs hk
      rw [← hval, hbb]

end ControlPlaneLudo

end Outback
