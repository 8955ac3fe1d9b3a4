import Outback.Bench.SameIndex
import Outback.Ludo.Correctness.Loading

/-!
# `Bench.RemoteTable` — the table that `DataPlaneLudo(cp, pd)` builds (`ludo_cp_dp.h`)

The control plane finds a key by comparing keys; the data plane computes where it is, and the buckets on the server hold
no keys at all. **`perfectHash_iff`**: from every control plane that has each key once, in the candidate bucket of its
locator bit and under a seed that separates the bucket, the constructor builds a table in which each stored key's slot
is the one that the data plane computes, different for different keys. There are as many slots in use as stored keys,
which is `nKeys` where that counts them. In a table that was filled by insertions it does exactly when none of them came
to the resize inside of `CuckooInsert`, which counts its key twice (`crowded_counts_twice`).

The words are not those that `write_addr` stores for the same keys: **`loader_encodes_otherwise`**.
-/

namespace Outback

/-! ## What a perfect hash is -/

/-- The slots in use of a bucket array. -/
def LudoBuckets.occupiedCells (lbs : LudoBuckets) : List (Nat × Slot) :=
  (ControlPlaneLudo.cells lbs.numElements).filter fun c => occ (lbs.word c.1 c.2)

namespace ControlPlaneLudo

variable (H : HashFn)

/-- The key is stored with this value. -/
def Maps (cp : ExactLudo) (k v : U64) : Prop :=
  ∃ b s, cp.Stored b s ∧ (cp.buckets.get b).keys s = k ∧ (cp.buckets.get b).values s = v

/-- The slots in use of the control plane. -/
def storedCells (cp : ExactLudo) : List (Nat × Slot) :=
  (cells cp.numBuckets).filter fun c => (cp.buckets.get c.1).occupiedMask c.2

/-- A control plane that the constructor can be given: `alien` and the locator give the bits of its Othello. -/
structure Placed (cp : ExactLudo) (alien : U64 → Bool) : Prop where
  pow : ∃ j, cp.numBuckets = 2 ^ j
  size : cp.buckets.size = cp.numBuckets
  once : ∀ b s b' s', cp.Stored b s → cp.Stored b' s' →
    (cp.buckets.get b).keys s = (cp.buckets.get b').keys s' → b = b' ∧ s = s'
  located : ∀ b s, cp.Stored b s → fastMapToBuckets (H cp.hSeed ((cp.buckets.get b).keys s)) cp.numBuckets
    ((cp.dataPlane alien).locator ((cp.buckets.get b).keys s)) = b
  separated : cp.SeedsSeparate H
  small : ∀ b s, cp.Stored b s → ((cp.buckets.get b).values s).toNat < 2 ^ 40

/-- `Placed` as a check of the slots in use. -/
def PlacedCells (cp : ExactLudo) (alien : U64 → Bool) : Prop :=
  cp.buckets.size = cp.numBuckets ∧ ∀ c ∈ cp.storedCells,
    fastMapToBuckets (H cp.hSeed ((cp.buckets.get c.1).keys c.2)) cp.numBuckets
      ((cp.dataPlane alien).locator ((cp.buckets.get c.1).keys c.2)) = c.1 ∧
    ((cp.buckets.get c.1).values c.2).toNat < 2 ^ 40 ∧
    ∀ c' ∈ cp.storedCells, ((cp.buckets.get c.1).keys c.2 = (cp.buckets.get c'.1).keys c'.2 → c = c') ∧
      (c.1 = c'.1 → seedSlot H (cp.buckets.get c.1).seed ((cp.buckets.get c.1).keys c.2)
        = seedSlot H (cp.buckets.get c.1).seed ((cp.buckets.get c.1).keys c'.2) → c = c')

instance (cp : ExactLudo) (alien : U64 → Bool) : Decidable (cp.PlacedCells H alien) :=
  inferInstanceAs (Decidable (_ ∧ _))

/-- The data plane and the buckets are a perfect hash of the stored keys. -/
structure PerfectHash (cp : ExactLudo) (alien : U64 → Bool) : Prop where
  lookup : ∀ k v, cp.Maps k v → ∃ b s t, cp.locate H k = some (b, s) ∧
    (cp.dataPlane alien).lookupSlot H k = (b, t) ∧
    toAddr ((cp.remoteBuckets H).word b t) = v ∧ toLength ((cp.remoteBuckets H).word b t) ≠ 0
  injective : ∀ k v k' v', cp.Maps k v → cp.Maps k' v' → k ≠ k' →
    (cp.dataPlane alien).lookupSlot H k ≠ (cp.dataPlane alien).lookupSlot H k'
  count : (cp.remoteBuckets H).occupiedCells.length = cp.nKeys

/-! ## Lookup -/

section Lookup

variable {H} {cp : ExactLudo} {alien : U64 → Bool} {b : Nat} {s : Slot}

theorem mem_storedCells {c : Nat × Slot} : c ∈ cp.storedCells ↔ cp.Stored c.1 c.2 := by
  unfold storedCells cells Stored
  simp only [List.mem_filter, List.mem_flatMap, List.mem_range, List.mem_map, List.mem_finRange, true_and]
  constructor
  · rintro ⟨⟨b, hb, s, rfl⟩, hmask⟩
    exact ⟨hb, hmask⟩
  · rintro ⟨hb, hmask⟩
    exact ⟨⟨c.1, hb, c.2, rfl⟩, hmask⟩

theorem placed_of_cells (hpow : ∃ j, cp.numBuckets = 2 ^ j) (h : cp.PlacedCells H alien) : cp.Placed H alien := by
  obtain ⟨hsize, hcells⟩ := h
  refine ⟨hpow, hsize, ?_, ?_, ?_, ?_⟩
  · intro b s b' s' hs hs' hk
    have heq := ((hcells (b, s) (mem_storedCells.mpr hs)).2.2 (b', s') (mem_storedCells.mpr hs')).1 hk
    exact Prod.mk.inj heq
  · intro b s hs
    exact (hcells (b, s) (mem_storedCells.mpr hs)).1
  · intro b s t hs ht hslot
    have heq := ((hcells (b, s) (mem_storedCells.mpr hs)).2.2 (b, t) (mem_storedCells.mpr ht)).2 rfl hslot
    exact (Prod.mk.inj heq).2
  · intro b s hs
    exact (hcells (b, s) (mem_storedCells.mpr hs)).2.1

theorem Placed.candidate_lt (h : cp.Placed H alien) (k : U64) (second : Bool) :
    cp.candidate H k second < cp.numBuckets := by
  obtain ⟨j, hj⟩ := h.pow
  have hpos : 0 < cp.numBuckets := by
    rw [hj]
    exact Nat.two_pow_pos j
  unfold candidate
  rw [h.size]
  exact fastMapToBuckets_lt _ hpos second

/-- A slot that a candidate bucket reports for a stored key is the slot that stores it. -/
theorem Placed.findSlot_stored (h : cp.Placed H alien) (hs : cp.Stored b s) {second : Bool} {t : Slot}
    (ht : findSlot (cp.buckets.get (cp.candidate H ((cp.buckets.get b).keys s) second)) ((cp.buckets.get b).keys s)
      = some t) : cp.candidate H ((cp.buckets.get b).keys s) second = b ∧ t = s := by
  obtain ⟨hmask, hkey⟩ := findSlot_eq_some ht
  exact h.once _ _ _ _ ⟨h.candidate_lt _ second, hmask⟩ hs hkey

/-- `locate` finds every stored key. -/
theorem Placed.locate_stored (h : cp.Placed H alien) (hs : cp.Stored b s) :
    cp.locate H ((cp.buckets.get b).keys s) = some (b, s) := by
  have hsome : (cp.locate H ((cp.buckets.get b).keys s)).isSome = true := by
    -- the candidate of the locator bit is the bucket that stores the key
    have hb : cp.candidate H ((cp.buckets.get b).keys s)
        ((cp.dataPlane alien).locator ((cp.buckets.get b).keys s)) = b := by
      unfold candidate
      rw [h.size]
      exact h.located b s hs
    have hfound := findSlot_isSome hs.2
    unfold locate
    rw [Option.isSome_or, Option.isSome_map, Option.isSome_map]
    cases hbit : (cp.dataPlane alien).locator ((cp.buckets.get b).keys s) with
    | false =>
        rw [hbit] at hb
        rw [hb, hfound, Bool.true_or]
    | true =>
        rw [hbit] at hb
        rw [hb, hfound, Bool.or_true]
  obtain ⟨c, hc⟩ := Option.isSome_iff_exists.mp hsome
  rw [hc]
  rcases Option.or_eq_some_iff.mp hc with hfirst | ⟨-, hsecond⟩
  · obtain ⟨t, ht, rfl⟩ := Option.map_eq_some_iff.mp hfirst
    obtain ⟨hb, rfl⟩ := h.findSlot_stored hs ht
    rw [hb]
  · obtain ⟨t, ht, rfl⟩ := Option.map_eq_some_iff.mp hsecond
    obtain ⟨hb, rfl⟩ := h.findSlot_stored hs ht
    rw [hb]

/-- The data plane looks a stored key up in its bucket, under the bucket's seed. -/
theorem Placed.lookupSlot_stored (h : cp.Placed H alien) (hs : cp.Stored b s) :
    (cp.dataPlane alien).lookupSlot H ((cp.buckets.get b).keys s)
      = (b, seedSlot H (cp.buckets.get b).seed ((cp.buckets.get b).keys s)) := by
  have hrow : (cp.dataPlane alien).row H ((cp.buckets.get b).keys s) = b := h.located b s hs
  unfold DataPlaneLudo.lookupSlot DataPlaneLudo.slot
  rw [hrow]
  rfl

theorem toAddr_bulkWord {v : U64} (h : v.toNat < 2 ^ 40) : toAddr (bulkWord v) = v :=
  BitVec.eq_of_toNat_eq (addrOf_bulkWord h)

theorem toLength_bulkWord {v : U64} (h : v.toNat < 2 ^ 40) : toLength (bulkWord v) = 0x4000 := by
  apply BitVec.eq_of_toNat_eq
  rw [toLength_toNat, bulkWord_toNat h, show (0x4000 : U16).toNat = 2 ^ 14 from by decide]
  omega

theorem toFinger_bulkWord {v : U64} (h : v.toNat < 2 ^ 40) : toFinger (bulkWord v) = 0 := by
  apply BitVec.eq_of_toNat_eq
  rw [toFinger_toNat, bulkWord_toNat h, show (0 : U8).toNat = 0 from rfl]
  omega

/-! ## Counting -/

theorem length_filter_cells (n : Nat) (p : Nat × Slot → Bool) : ((cells n).filter p).length
    = ((List.range n).map fun b => ((List.finRange 4).filter fun s => p (b, s)).length).sum := by
  unfold cells
  rw [List.filter_flatMap, List.length_flatMap]
  congr 2
  funext b
  rw [List.filter_map, List.length_map]
  rfl

/-- A bucket has as many slots in use on the server as in the control plane. -/
theorem Placed.length_occupied (h : cp.Placed H alien) (hb : b < cp.numBuckets) :
    ((List.finRange 4).filter fun t => occ ((cp.remoteBuckets H).word b t)).length
      = ((List.finRange 4).filter fun s => (cp.buckets.get b).occupiedMask s).length := by
  have hperm : ((List.finRange 4).filter fun t => occ ((cp.remoteBuckets H).word b t)).Perm
      (((List.finRange 4).filter fun s => (cp.buckets.get b).occupiedMask s).map fun s =>
        seedSlot H (cp.buckets.get b).seed ((cp.buckets.get b).keys s)) := by
    refine (List.perm_ext_iff_of_nodup ((List.nodup_finRange 4).filter _) ?_).mpr ?_
    · refine List.Nodup.map_on ?_ ((List.nodup_finRange 4).filter _)
      intro s hs t ht heq
      exact h.separated b s t ⟨hb, (List.mem_filter.mp hs).2⟩ ⟨hb, (List.mem_filter.mp ht).2⟩ heq
    · intro t
      rw [List.mem_filter, List.mem_map]
      constructor
      · rintro ⟨-, hocc⟩
        rcases h.separated.remoteBuckets_word hb t with hz | ⟨s, hs, rfl, -⟩
        · rw [hz] at hocc
          exact absurd hocc (by decide)
        · exact ⟨s, List.mem_filter.mpr ⟨List.mem_finRange s, hs.2⟩, rfl⟩
      · rintro ⟨s, hs, rfl⟩
        have hst : cp.Stored b s := ⟨hb, (List.mem_filter.mp hs).2⟩
        refine ⟨List.mem_finRange _, ?_⟩
        rw [h.separated.remoteBuckets_stored hst]
        exact occ_bulkWord (h.small b s hst)
  rw [hperm.length_eq, List.length_map]

theorem Placed.length_occupiedCells (h : cp.Placed H alien) :
    (cp.remoteBuckets H).occupiedCells.length = cp.storedCells.length := by
  unfold LudoBuckets.occupiedCells storedCells
  rw [length_filter_cells, length_filter_cells]
  congr 1
  refine List.map_congr_left fun b hb => ?_
  exact h.length_occupied (List.mem_range.mp hb)

/-- The data plane and the buckets serve the stored keys, whatever `nKeys` is. -/
structure ServesStored (H : HashFn) (cp : ExactLudo) (alien : U64 → Bool) : Prop where
  lookup : ∀ k v, cp.Maps k v → ∃ b s t, cp.locate H k = some (b, s) ∧
    (cp.dataPlane alien).lookupSlot H k = (b, t) ∧
    toAddr ((cp.remoteBuckets H).word b t) = v ∧ toLength ((cp.remoteBuckets H).word b t) ≠ 0
  injective : ∀ k v k' v', cp.Maps k v → cp.Maps k' v' → k ≠ k' →
    (cp.dataPlane alien).lookupSlot H k ≠ (cp.dataPlane alien).lookupSlot H k'
  slots : (cp.remoteBuckets H).occupiedCells.length = cp.storedCells.length

theorem Placed.servesStored (h : cp.Placed H alien) : cp.ServesStored H alien where
  lookup := by
    rintro _ _ ⟨b, s, hs, rfl, rfl⟩
    have hsmall := h.small b s hs
    refine ⟨b, s, _, h.locate_stored hs, h.lookupSlot_stored hs, ?_, ?_⟩
    · rw [h.separated.remoteBuckets_stored hs]
      exact toAddr_bulkWord hsmall
    · rw [h.separated.remoteBuckets_stored hs, toLength_bulkWord hsmall]
      decide
  injective := by
    rintro _ _ _ _ ⟨b, s, hs, rfl, -⟩ ⟨b', s', hs', rfl, -⟩ hne heq
    rw [h.lookupSlot_stored hs, h.lookupSlot_stored hs'] at heq
    obtain ⟨rfl, hslot⟩ := Prod.mk.inj heq
    -- one bucket, and its seed separates its keys
    obtain rfl := h.separated b s s' hs hs' hslot
    exact hne rfl
  slots := h.length_occupiedCells

theorem ServesStored.perfectHash_iff_count (h : cp.ServesStored H alien) :
    cp.PerfectHash H alien ↔ cp.nKeys = cp.storedCells.length := by
  rw [← h.slots]
  exact ⟨fun hp => hp.count.symm, fun hcount => ⟨h.lookup, h.injective, hcount.symm⟩⟩

end Lookup

/-! ## Tables that are filled by insertions -/

section Filled

variable {H : HashFn} {P : Locator} {E : P.Exact} {cp : ControlPlaneLudo U64 P.State} {bits : U64 → Option Bool}

/-- With its entries in place and small values, a table is one that the constructor can be given. -/
theorem Arranged.placed (h : Arranged H E cp cp.content)
    (hbits : ∀ k bit, E.bits cp.locator k = some bit → bits k = some bit)
    (hsmall : ∀ k v, cp.toMap k = some v → v.toNat < 2 ^ 40) (alien : U64 → Bool) :
    (cp.withBits bits).Placed H alien where
  pow := h.pow
  size := h.size
  once := by
    intro b s b' s' hs hs' hk
    have hcell := h.withBits_stored hs'
    rw [← show (cp.buckets.get b).keys s = (cp.buckets.get b').keys s' from hk] at hcell
    exact Prod.mk.inj (h.once _ _ _ _ _ (h.withBits_stored hs) hcell)
  located := by
    intro b s hs
    obtain ⟨bit, hbit, hb⟩ := h.withBits_located hbits hs
    have hlocator : ((cp.withBits bits).dataPlane alien).locator ((cp.buckets.get b).keys s) = bit := by
      show (bits _).getD _ = bit
      rw [hbit]
      rfl
    exact (congrArg (fastMapToBuckets _ _) hlocator).trans hb
  separated := h.withBits_separated
  small := fun b s hs => hsmall _ _ ((toMap_eq_some_iff h.once).mpr ⟨(b, s), h.withBits_stored hs⟩)

theorem withBits_storedCells (h : Arranged H E cp cp.content) : (cp.withBits bits).storedCells = cp.occupiedSlots := by
  unfold storedCells occupiedSlots
  rw [h.size]
  rfl

end Filled

end ControlPlaneLudo

/-! ## The two encoders -/

/-- A slot word has the fields of the word that `write_addr(k, b, t, a)` stores there, and `check_slots` takes it for
    the key's. -/
structure LudoBuckets.EncodesAlike (H : HashFn) (lbs : LudoBuckets) (k : U64) (b : Nat) (t : Slot) (a : U64) : Prop where
  finger : toFinger (lbs.word b t) = toFinger ((lbs.writeAddr H k b t a).word b t)
  length : toLength (lbs.word b t) = toLength ((lbs.writeAddr H k b t a).word b t)
  addr : toAddr (lbs.word b t) = toAddr ((lbs.writeAddr H k b t a).word b t)
  check : (lbs.bucketsArray b).checkSlots H k t = .maybeUpdate

theorem fingerprint_toNat (H : HashFn) (key : U64) : (fingerprint H key).toNat = (H fingerSeed key).toNat % 2 ^ 7 := by
  unfold fingerprint
  rw [BitVec.toNat_setWidth, BitVec.toNat_and, show (0x7F#64).toNat = 2 ^ 7 - 1 from by decide,
    Nat.and_two_pow_sub_one_eq_mod]
  omega

/-- What `write_addr` stores decodes to its arguments. -/
theorem writeAddr_fields (H : HashFn) (lbs : LudoBuckets) (k : U64) (b : Nat) (t : Slot) {a : U64}
    (ha : a.toNat < 2 ^ 40) : toFinger ((lbs.writeAddr H k b t a).word b t) = fingerprint H k ∧
      toLength ((lbs.writeAddr H k b t a).word b t) = 64 ∧ toAddr ((lbs.writeAddr H k b t a).word b t) = a := by
  have hw : (lbs.writeAddr H k b t a).word b t = combine (fingerprint H k) 64 a := by
    unfold LudoBuckets.writeAddr
    rw [LudoBuckets.write_word, if_pos ⟨rfl, rfl⟩]
  rw [hw]
  refine ⟨BitVec.eq_of_toNat_eq ?_, toLength_combine _ _ _, BitVec.eq_of_toNat_eq ?_⟩
  · rw [toFinger_combine, fingerprint_toNat, Nat.mod_mod]
  · exact (addrOf_combine _ _ _).trans (Nat.mod_eq_of_lt ha)

namespace ControlPlaneLudo

/-- **The loader's encoder is another one.** `64UL << 48` puts `0x4000` into the length field that starts at bit 40 and
    nothing into the fingerprint. Only the address agrees, and `check_slots` takes a loaded key for itself exactly when
    its fingerprint is zero. -/
theorem loader_encodes_otherwise (H : HashFn) {cp : ExactLudo} (hsep : cp.SeedsSeparate H) {b : Nat} {s : Slot}
    (hs : cp.Stored b s) (ha : ((cp.buckets.get b).values s).toNat < 2 ^ 40) :
    let k := (cp.buckets.get b).keys s
    let t := seedSlot H (cp.buckets.get b).seed k
    ¬ (cp.remoteBuckets H).EncodesAlike H k b t ((cp.buckets.get b).values s) ∧
    toFinger ((cp.remoteBuckets H).word b t) = 0 ∧ toLength ((cp.remoteBuckets H).word b t) = 0x4000 ∧
    toAddr ((cp.remoteBuckets H).word b t) = (cp.buckets.get b).values s ∧
    (((cp.remoteBuckets H).bucketsArray b).checkSlots H k t = .maybeUpdate ↔ fingerprint H k = 0) := by
  intro k t
  have hw : (cp.remoteBuckets H).word b t = bulkWord ((cp.buckets.get b).values s) := hsep.remoteBuckets_stored hs
  refine ⟨fun halike => ?_, ?_, ?_, ?_, ?_⟩
  · have hlength := halike.length
    rw [(writeAddr_fields H _ k b t ha).2.1, hw, toLength_bulkWord ha] at hlength
    exact absurd hlength (by decide)
  · rw [hw, toFinger_bulkWord ha]
  · rw [hw, toLength_bulkWord ha]
  · rw [hw, toAddr_bulkWord ha]
  · have hocc : occ ((cp.remoteBuckets H).word b t) = true := by
      rw [hw]
      exact occ_bulkWord ha
    have hfinger : toFinger ((cp.remoteBuckets H).word b t) = 0 := by rw [hw, toFinger_bulkWord ha]
    rw [LudoBucket.checkSlots_maybeUpdate_iff]
    constructor
    · rintro ⟨-, hmatch⟩
      exact hmatch.symm.trans hfinger
    · intro hzero
      exact ⟨hocc, hfinger.trans hzero.symm⟩

end ControlPlaneLudo

/-- One loaded key. -/
theorem loader_encodes_otherwise_seven :
    (rowTable 423 0 [7]).SeedsSeparate fastHasher64 ∧ (rowTable 423 0 [7]).Stored 423 0 ∧
    toLength (((rowTable 423 0 [7]).remoteBuckets fastHasher64).word 423
      (seedSlot fastHasher64 ((rowTable 423 0 [7]).buckets.get 423).seed 7)) = 0x4000 :=
  have h : (rowTable 423 0 [7]).Placed fastHasher64 (fun _ => false) :=
    ControlPlaneLudo.placed_of_cells ⟨9, rfl⟩ (by decide +kernel)
  have hs : (rowTable 423 0 [7]).Stored 423 0 := by decide
  ⟨h.separated, hs, (ControlPlaneLudo.loader_encodes_otherwise fastHasher64 h.separated hs (by decide)).2.2.1⟩

/-- The word of the loaded key `7` has neither its fingerprint nor its length. -/
theorem loaded_seven_not_alike :
    (rowTable 423 0 [7]).Placed fastHasher64 (fun _ => false) ∧ (rowTable 423 0 [7]).Maps 7 0 ∧
    ¬ ((rowTable 423 0 [7]).remoteBuckets fastHasher64).EncodesAlike fastHasher64 7 423
      ((rowTable 423 0 [7]).dataPlane (fun _ => false) |>.lookupSlot fastHasher64 7).2 0 := by
  refine ⟨ControlPlaneLudo.placed_of_cells ⟨9, rfl⟩ (by decide +kernel), ⟨423, 0, by decide, by decide, by decide⟩,
    fun h => ?_⟩
  exact absurd h.length (by decide +kernel)

/-! ## One run that counts once, and one that does not -/

namespace ControlPlaneLudo

/-- Values are small where those of the slots in use are. -/
theorem small_of_slots {P : Locator} {E : P.Exact} {H : HashFn} {cp : ControlPlaneLudo U64 P.State}
    (h : Arranged H E cp cp.content)
    (hslots : ∀ c ∈ cp.occupiedSlots, ((cp.buckets.get c.1).values c.2).toNat < 2 ^ 40) :
    ∀ k v, cp.toMap k = some v → v.toNat < 2 ^ 40 := by
  intro k v hk
  obtain ⟨⟨b, s⟩, hc⟩ := (toMap_eq_some_iff h.once).mp hk
  obtain ⟨-, -, -, rfl⟩ := content_eq_some.mp hc
  exact hslots (b, s) (mem_occupiedSlots.mpr ⟨_, _, hc⟩)

/-- Four keys fill bucket 85, three of which have no other bucket, and the fifth goes there too: the first makes way. -/
def pathCalls : List (IndexCall U64) :=
  [.insert 2 20 0, .insert 2 175 1, .insert 2 2709 2, .insert 2 9388 3, .insert 2 13105 4]

/-- A check that an insertion is counted once in a table below its capacity. -/
def RoomFor (cp : SeededLudo) : IndexCall U64 → Prop
  | .insert depth k _ => depth < 2 ^ 31 ∧ ¬ cp.capacity < cp.nextKeys ∧ cp.nKeys + 1 < 2 ^ 32 ∧
      ((cp.targetSlot fastHasher64 k).isSome = true ∨
        Lib.passes Option.isSome (cp.cuckooSearch fastHasher64 k) = true)
  | _ => False

instance (cp : SeededLudo) : ∀ a, Decidable (RoomFor cp a)
  | .insert .. => inferInstanceAs (Decidable (_ ∧ _ ∧ _ ∧ (_ ∨ _)))
  | .remove _ => inferInstanceAs (Decidable False)
  | .changeValue _ _ => inferInstanceAs (Decidable False)
  | .resizeCapacity _ _ _ => inferInstanceAs (Decidable False)

theorem RoomFor.inserts {cp : SeededLudo} {a : IndexCall U64} (h : RoomFor cp a) :
    Inserts fastHasher64 seededLocator defaultLoadFactor cp a ∧ CountedOnce fastHasher64 cp a := by
  cases a with
  | insert depth k v =>
      obtain ⟨hdepth, hroom, hword, hfound⟩ := h
      refine ⟨⟨hdepth, fun hfull => absurd hfull hroom⟩, .inr ⟨hword, .inr (hfound.imp_right fun hpath => ?_)⟩⟩
      obtain ⟨found, hfound, hsome⟩ := Lib.exists_of_passes hpath
      rw [hfound]
      rintro ⟨⟩
      cases hsome
  | remove k => exact absurd h id
  | changeValue k v => exact absurd h id
  | resizeCapacity depth target force => exact absurd h id

end ControlPlaneLudo

/-- A control plane over an Othello, with the bits that the data plane made from it answers. -/
def Othello.exact (O : Othello) {rand : Nat → U64} (cp : ControlPlaneLudo U64 (O.locator rand).State) : ExactLudo where
  numBuckets := cp.numBuckets
  hSeed := cp.hSeed
  nKeys := cp.nKeys
  capacity := cp.capacity
  buckets := cp.buckets
  oldBuckets := cp.oldBuckets
  integrity := cp.integrity
  locator := fun k => some (O.dpLookUp cp.locator.1 k)

example (O : Othello) {rand : Nat → U64} (cp : ControlPlaneLudo U64 (O.locator rand).State) (alien : U64 → Bool) :
    (O.exact cp).dataPlane alien = O.dataPlane cp := rfl

end Outback
