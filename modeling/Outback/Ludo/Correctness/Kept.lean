import Outback.Ludo.Correctness.Calls

/-!
# `Ludo.Correctness.Kept` — the index invariant without a rebuild

`remove` and `changeValue` keep `IndexInv` and change the map at their key only. So does an insertion that never calls
`build`, by whichever way the key comes into the table, but for the count: when `CuckooInsert` finds no path and the
table can grow in place, the insertion that starts over counts the key, and the one it started in counts it again.
**`index_kept_iff`**: the invariant holds afterwards exactly when the key is stored, or is counted once in 32 bits.

Without a rebuild an insertion grows the table at most once: `nKeys` has not changed, and the size that `resizeCapacity`
chooses depends on nothing else (`resize_once`).
-/

namespace Outback

namespace ControlPlaneLudo

variable {V : Type} {H : HashFn}

section Statements

variable (H) {L : Type}

/-- The insertion of `k` returns without a call of `build`. -/
def Unrebuilt [Inhabited V] (P : Locator) (lf : LoadFactor) (cp : ControlPlaneLudo V P.State) (k : U64) (v : V) : Prop :=
  ∃ depth cq, insert H P.withoutSeeds lf depth cp (.value k) v = .ok cq

/-- `k` is stored, or there is a next key in 32 bits and room for it: a table that is resized before the key is placed,
    a free slot in one of its buckets, or a cuckoo path. -/
def CountsOnce (cp : ControlPlaneLudo V L) (k : U64) : Prop :=
  cp.isMember H k = true ∨ (cp.nKeys + 1 < 2 ^ 32 ∧
    (cp.capacity < cp.nKeys + 1 ∨ (cp.targetSlot H k).isSome = true ∨ cp.cuckooSearch H k ≠ .ok none))

/-- One key more in the table and in `nKeys`. -/
structure OneMore (cp cq : ControlPlaneLudo V L) : Prop where
  keys : cq.nKeys = cp.nextKeys
  slots : cq.occupiedSlots.length = cp.occupiedSlots.length + 1
  size : cp.numBuckets ≤ cq.numBuckets

/-- What an insertion of `k` that never calls `build` does to the sizes. -/
inductive Counts (k : U64) (cp cq : ControlPlaneLudo V L) : Prop
  /-- the key was there -/
  | member (hmem : cp.isMember H k = true) (hkeys : cq.nKeys = cp.nKeys)
      (hslots : cq.occupiedSlots.length = cp.occupiedSlots.length) (hsize : cq.numBuckets = cp.numBuckets)
  /-- it was counted -/
  | once (hmem : cp.isMember H k = false)
      (hroom : cp.capacity < cp.nextKeys ∨ (cp.targetSlot H k).isSome = true ∨ cp.cuckooSearch H k ≠ .ok none)
      (hmore : OneMore cp cq)
  /-- it was counted, and counted again -/
  | twice (hmem : cp.isMember H k = false)
      (hroom : ¬ cp.capacity < cp.nextKeys ∧ cp.targetSlot H k = none ∧ cp.cuckooSearch H k = .ok none)
      (hkeys : cq.nKeys = (cp.nextKeys + 1) % 2 ^ 32) (hslots : cq.occupiedSlots.length = cp.occupiedSlots.length + 1)
      (hsize : 2 * cp.numBuckets ≤ cq.numBuckets)

instance {L : Type} (cp : ControlPlaneLudo V L) (k : U64) : Decidable (CountsOnce H cp k) :=
  have hpath : cp.cuckooSearch H k ≠ .ok none ↔ ¬ Lib.passes Option.isNone (cp.cuckooSearch H k) = true := by
    refine not_congr ⟨fun h => by rw [h]; rfl, fun h => ?_⟩
    obtain ⟨found, hfound, hnone⟩ := Lib.exists_of_passes h
    rw [hfound, Option.isNone_iff_eq_none.mp hnone]
  have : Decidable (cp.cuckooSearch H k ≠ .ok none) := decidable_of_iff _ hpath.symm
  inferInstanceAs (Decidable (_ ∨ _ ∧ (_ ∨ _ ∨ _)))

/-- The search of `CuckooInsert` for `k` ends, inside `queue_` and `visited_`, and the parents of a path that it finds are
    in `visited_`. -/
structure SearchFitsIn (cp : ControlPlaneLudo V L) (k : U64) : Prop where
  fits : SearchFits (cp.candidate H) (fun b => (cp.buckets.get b).occupiedMask) (fun b => (cp.buckets.get b).keys)
    searchTurns [⟨cp.candidate H k false, 1, none⟩, ⟨cp.candidate H k true, 1, none⟩] []
  ends : ∃ found, cp.cuckooSearch H k = .ok found
  parents : ∀ e s vis, cp.cuckooSearch H k = .ok (some (e, s, vis)) → ∀ x ∈ e :: vis, ∀ p ps, x.parent = some (p, ps) →
    p < vis.length

/-- The tables in which an insertion of `k` that never calls `build` may search: the one it starts in, and the one that
    grows from it. -/
def SearchTable [Inhabited V] (P : Locator) (lf : LoadFactor) (cp g : ControlPlaneLudo V P.State) : Prop :=
  g = cp ∨ ∃ depth, resizeCapacity H P.withoutSeeds lf depth cp cp.nextKeys true = .ok g

end Statements

/-! ## Counting -/

section Counting

variable {P : Locator} {E : P.Exact} {cp cq q : ControlPlaneLudo V P.State}

/-- The same map has as many slots in use. -/
theorem occupiedSlots_congr (h : Lib.Once cp.content) (h' : Lib.Once cq.content)
    (hkeys : ∀ k, (cq.toMap k).isSome = (cp.toMap k).isSome) : cq.occupiedSlots.length = cp.occupiedSlots.length := by
  have hlen := length_occupiedSlots_add h h' List.nodup_nil (fun k hk => absurd hk List.not_mem_nil) fun k => by
    rw [hkeys k]
    simp
  rw [hlen, List.length_nil, Nat.zero_add]

theorem counted_nKeys (q : ControlPlaneLudo V P.State) : q.counted.nKeys = q.nextKeys := rfl

theorem counted_occupiedSlots (q : ControlPlaneLudo V P.State) : q.counted.occupiedSlots = q.occupiedSlots := rfl

theorem Arranged.counted (h : Arranged H E q q.content) : Arranged H E q.counted q.counted.content :=
  ⟨h.pow, h.size, h.once, h.located, h.separated⟩

theorem nextKeys_eq (cp : ControlPlaneLudo V P.State) : cp.nextKeys = (cp.nKeys + 1) % 2 ^ 32 := rfl

/-- A key that is added, and counted where it was added, is one more. -/
theorem Arranged.added_once {k : U64} {v : V} {q : ControlPlaneLudo V P.State} (h : Arranged H E cp cp.content)
    (hmem : cp.isMember H k = false) (hadded : Added H E k v cp q) : OneMore cp q.counted where
  keys := by rw [counted_nKeys, nextKeys_eq, nextKeys_eq, hadded.frame.nKeys]
  slots := hadded.count h.once (h.toMap_eq_none hmem)
  size := hadded.frame.numBuckets.ge

/-! ## `changeValue` and `remove` -/

/-- The value of a stored key changes. -/
theorem Arranged.changeValue_member {k : U64} (h : Arranged H E cp cp.content) (hmem : cp.isMember H k = true) (v : V) :
    Added H E k v cp (cp.changeValue H k v) := by
  obtain ⟨w, ⟨b, s⟩, hw⟩ := h.isMember_iff.mp hmem
  obtain ⟨hframe, hcontent, harranged⟩ := h.changeValue_spec hw v
  refine ⟨hframe, harranged, toMap_put h.once harranged.once fun x u => ?_⟩
  rw [hcontent, h.once.holds_set hw]

/-- The slots in use stay. -/
theorem Arranged.changeValue_slots {k : U64} (h : Arranged H E cp cp.content) (hmem : cp.isMember H k = true) (v : V) :
    (cp.changeValue H k v).occupiedSlots.length = cp.occupiedSlots.length := by
  have hadded := h.changeValue_member hmem v
  refine occupiedSlots_congr h.once hadded.arranged.once fun x => ?_
  rw [hadded.toMap]
  by_cases hx : x = k
  · subst hx
    rw [Function.update_self, ← h.isMember_eq, hmem]
    rfl
  · rw [Function.update_of_ne hx]

theorem IndexInv.changeValue_member {k : U64} (h : IndexInv H E cp) (hmem : cp.isMember H k = true) (v : V) :
    IndexInv H E (cp.changeValue H k v) ∧ (cp.changeValue H k v).toMap = Function.update cp.toMap k (some v) := by
  have ha := h.toArranged
  obtain ⟨hframe, harranged, hmap⟩ := ha.changeValue_member hmem v
  refine ⟨⟨harranged, ?_, ?_⟩, hmap⟩
  · rw [hframe.nKeys, h.count, ha.changeValue_slots hmem v]
  · rw [hframe.nKeys]
    exact h.word

/-- **`changeValue`** keeps the invariant, and changes the map at a stored key only. -/
theorem IndexInv.changeValue_spec (h : IndexInv H E cp) (k : U64) (v : V) : IndexInv H E (cp.changeValue H k v) ∧
    (cp.changeValue H k v).toMap
      = if cp.isMember H k = true then Function.update cp.toMap k (some v) else cp.toMap := by
  by_cases hmem : cp.isMember H k = true
  · rw [if_pos hmem]
    exact h.changeValue_member hmem v
  · rw [if_neg hmem, changeValue_absent (by simpa using hmem)]
    exact ⟨h, rfl⟩

end Counting

section Remove

variable {P : RemovableLocator} {E : P.Exact} {cp : ControlPlaneLudo V P.State}

/-- **`remove`** keeps the invariant, and takes its key out of the map. -/
theorem IndexInv.remove_spec (h : IndexInv H E.toExact cp) (k : U64) :
    Lib.Returns (fun cq => IndexInv H E.toExact cq ∧ cq.toMap = Function.update cp.toMap k none) (cp.remove H P k) := by
  have ha := h.toArranged
  by_cases hmem : cp.isMember H k = true
  · obtain ⟨w, ⟨b, s⟩, hw⟩ := ha.isMember_iff.mp hmem
    intro cq hcq
    obtain ⟨hkeys, hcontent, harranged⟩ := ha.remove_spec hw cq hcq
    have hholds : ∀ x u, Lib.Holds cq.content x u ↔ x ≠ k ∧ Lib.Holds cp.content x u := by
      intro x u
      rw [hcontent]
      exact ha.once.holds_erase hw
    have hmap : cq.toMap = Function.update cp.toMap k none := by
      funext x
      by_cases hx : x = k
      · subst hx
        rw [Function.update_self, Option.eq_none_iff_forall_ne_some]
        intro u hu
        exact ((hholds x u).mp ((toMap_eq_some_iff harranged.once).mp hu)).1 rfl
      · rw [Function.update_of_ne hx]
        refine toMap_congr ha.once harranged.once fun u => ?_
        rw [hholds]
        exact and_iff_right hx
    -- the old table has one key more
    have hslots : cp.occupiedSlots.length = [k].length + cq.occupiedSlots.length := by
      refine length_occupiedSlots_add harranged.once ha.once (List.nodup_singleton k) ?_ ?_
      · intro x hx
        rw [List.mem_singleton.mp hx, hmap, Function.update_self]
      · intro x
        rw [hmap, List.mem_singleton]
        by_cases hx : x = k
        · subst hx
          rw [← ha.isMember_eq, hmem]
          simp
        · simp [hx]
    have hcount := h.count
    have hword := h.word
    rw [List.length_singleton] at hslots
    have hprev : cq.nKeys = cp.nKeys - 1 := by
      rw [hkeys]
      exact if_neg (by omega)
    exact ⟨⟨harranged, by omega, by omega⟩, hmap⟩
  · have hmem' : cp.isMember H k = false := by simpa using hmem
    rw [remove_absent hmem']
    refine Lib.Returns.ok ⟨h, ?_⟩
    rw [← ha.toMap_eq_none hmem', Function.update_eq_self]

end Remove

section CountOnce

variable {L : Type} {cp cq : ControlPlaneLudo V L} {k : U64}

/-- A new key that finds room is counted once as long as there is a next number. -/
theorem countsOnce_iff_lt (hmem : cp.isMember H k = false)
    (hroom : cp.capacity < cp.nextKeys ∨ (cp.targetSlot H k).isSome = true ∨ cp.cuckooSearch H k ≠ .ok none) :
    CountsOnce H cp k ↔ cp.nKeys + 1 < 2 ^ 32 := by
  constructor
  · rintro (hmem' | ⟨hlt, -⟩)
    · rw [hmem] at hmem'
      cases hmem'
    · exact hlt
  · intro hlt
    rw [show cp.nextKeys = (cp.nKeys + 1) % 2 ^ 32 from rfl, Nat.mod_eq_of_lt hlt] at hroom
    exact .inr ⟨hlt, hroom⟩

/-- One that finds none is not. -/
theorem not_countsOnce (hmem : cp.isMember H k = false)
    (hroom : ¬ cp.capacity < cp.nextKeys ∧ cp.targetSlot H k = none ∧ cp.cuckooSearch H k = .ok none) :
    ¬ CountsOnce H cp k := by
  obtain ⟨hfull, htarget, hsearch⟩ := hroom
  rintro (hmem' | ⟨hlt, hcap | hfree | hpath⟩)
  · rw [hmem] at hmem'
    cases hmem'
  · rw [show cp.nextKeys = (cp.nKeys + 1) % 2 ^ 32 from rfl, Nat.mod_eq_of_lt hlt] at hfull
    exact hfull hcap
  · rw [htarget] at hfree
    cases hfree
  · exact hpath hsearch

/-- From an exact count the count is exact afterwards exactly when the key is counted once. -/
theorem Counts.exact_iff (h : Counts H k cp cq) (hcount : cp.nKeys = cp.occupiedSlots.length)
    (hword : cp.nKeys < 2 ^ 32) :
    (cq.nKeys = cq.occupiedSlots.length ∧ cq.nKeys < 2 ^ 32) ↔ CountsOnce H cp k := by
  have hnext : cp.nextKeys = (cp.nKeys + 1) % 2 ^ 32 := rfl
  cases h with
  | member hmem hkeys hslots _ =>
      refine iff_of_true ⟨?_, ?_⟩ (.inl hmem)
      · rw [hkeys, hslots, hcount]
      · rw [hkeys]
        exact hword
  | once hmem hroom hmore =>
      rw [countsOnce_iff_lt hmem hroom, hmore.keys, hmore.slots, hnext, ← hcount]
      constructor
      · rintro ⟨heq, -⟩
        omega
      · intro hlt
        rw [Nat.mod_eq_of_lt hlt]
        exact ⟨rfl, hlt⟩
  | twice hmem hroom hkeys hslots _ =>
      refine iff_of_false ?_ (not_countsOnce hmem hroom)
      rw [hkeys, hslots, hnext, ← hcount]
      rintro ⟨heq, -⟩
      omega

end CountOnce

section Seedless

variable [Inhabited V] {P : Locator} {E : P.Exact} {lf : LoadFactor} {cp cq g g' q : ControlPlaneLudo V P.State}
  {n m target : Nat} {k : U64} {v : V}

/-! ## Growing once -/

variable (hns : ∀ s r, P.rowSeed s ≠ .ok r)

include hns

/-- Without seeds to draw a forced resize that returns has grown the table in place. -/
theorem seedless_resize (h : Arranged H E cp cp.content) (hg : resizeCapacity H P lf n cp target true = .ok g) :
    ∃ next, lf.nextNbuckets 58 (max cp.nKeys (max target 256)) = .ok next ∧ cp.numBuckets < next ∧
      Grown H E next cp g := by
  obtain ⟨m, next, -, hnext, hcase⟩ := resizeCapacity_cases hg
  cases hcase with
  | grown hlt _ hsize => exact ⟨next, hnext, hlt, h.powerSize_spec (LoadFactor.nextNbuckets_eq next hnext) hlt g hsize⟩
  | rebuilt _ _ _ hseed => exact absurd hseed (hns _ _)

/-- The table that has grown does not grow again. -/
theorem resize_once (h : Arranged H E cp cp.content) (hg : resizeCapacity H P lf n cp cp.nextKeys true = .ok g)
    (hg' : resizeCapacity H P lf m g g.nextKeys true = .ok g') : False := by
  obtain ⟨next, hnext, -, hgrown⟩ := seedless_resize hns h hg
  obtain ⟨next', hnext', hlt, -⟩ := seedless_resize hns hgrown.arranged hg'
  have hkeys : g.nextKeys = cp.nextKeys := by rw [nextKeys_eq, nextKeys_eq, hgrown.nKeys]
  rw [hgrown.nKeys, hkeys] at hnext'
  obtain rfl : next = next' := Except.ok.inj (hnext.symm.trans hnext')
  rw [hgrown.numBuckets] at hlt
  exact absurd hlt (lt_irrefl next)

omit hns [Inhabited V] in
/-- The path that a search found leads the key into the table. -/
theorem Arranged.moved_spec (h : Arranged H E cp cp.content) (hmem : cp.isMember H k = false)
    (htarget : cp.targetSlot H k = none) {e : CuckooPathEntry} {s : Slot} {vis : List CuckooPathEntry}
    (hsearch : cp.cuckooSearch H k = .ok (some (e, s, vis))) (hmove : cp.cuckooMove H P k v e s vis = .ok q) :
    Added H E k v cp q := by
  obtain ⟨-, hnone | ⟨e', s', vis', hsome, htrace, hfree⟩⟩ := h.cuckooSearch_spec htarget
  · rw [hsearch] at hnone
    cases hnone
  · rw [hsearch] at hsome
    cases hsome
    exact h.cuckooMove_spec hmem htarget htrace hfree v q hmove

omit hns in
/-- An insertion of a new key into a table that is not resized. -/
theorem insert_settled {ref : KeyRef} (href : ref.read cp = .ok k) (h : Arranged H E cp cp.content)
    (hmem : cp.isMember H k = false) (hstuck : ∀ m g, resizeCapacity H P lf m cp cp.nextKeys true ≠ .ok g)
    (hok : insert H P lf n cp ref v = .ok cq) : ∃ q, Added H E k v cp q ∧ cq = q.counted := by
  cases n with
  | zero =>
      unfold ControlPlaneLudo.insert at hok
      cases hok
  | succ n =>
      obtain ⟨k', hk', hcase⟩ := insert_cases hok
      obtain rfl : k = k' := Except.ok.inj (href.symm.trans hk')
      cases hcase with
      | member hmem' =>
          rw [hmem] at hmem'
          cases hmem'
      | resized _ _ hg => exact absurd hg (hstuck _ _)
      | placed _ _ htarget hput hcq => exact ⟨_, h.place hmem htarget v _ hput, hcq⟩
      | moved _ _ htarget hsearch hmove hcq => exact ⟨_, h.moved_spec hmem htarget hsearch hmove, hcq⟩
      | crowded _ _ _ _ _ hg => exact absurd hg (hstuck _ _)

/-- And into one that has to grow first. -/
theorem insert_grown (h : Arranged H E cp cp.content) (hmem : cp.isMember H k = false)
    (hg : resizeCapacity H P lf m cp cp.nextKeys true = .ok g) (hok : insert H P lf n g (.value k) v = .ok cq) :
    ∃ q, q.nKeys = cp.nKeys ∧ Arranged H E q q.content ∧ q.toMap = Function.update cp.toMap k (some v) ∧
      q.occupiedSlots.length = cp.occupiedSlots.length + 1 ∧
      (∃ next, (∃ m, next = 2 ^ m) ∧ cp.numBuckets < next ∧ q.numBuckets = next) ∧ cq = q.counted := by
  obtain ⟨next, hnext, hlt, hgrown⟩ := seedless_resize hns h hg
  have hmem' : g.isMember H k = false := by
    rw [hgrown.arranged.isMember_eq, hgrown.toMap, ← h.isMember_eq, hmem]
  obtain ⟨q, hadded, hcq⟩ := insert_settled rfl hgrown.arranged hmem' (fun _ _ hg' => resize_once hns h hg hg') hok
  refine ⟨q, hadded.frame.nKeys.trans hgrown.nKeys, hadded.arranged, by rw [hadded.toMap, hgrown.toMap], ?_,
    ⟨next, LoadFactor.nextNbuckets_eq next hnext, hlt, hadded.frame.numBuckets.trans hgrown.numBuckets⟩, hcq⟩
  rw [hadded.count hgrown.arranged.once (hgrown.arranged.toMap_eq_none hmem'),
    occupiedSlots_congr h.once hgrown.arranged.once fun x => by rw [hgrown.toMap]]

omit hns [Inhabited V] in
/-- The smallest growth doubles the table. -/
theorem Arranged.double_le (h : Arranged H E cp cp.content) {next : Nat} (hnext : ∃ m, next = 2 ^ m)
    (hlt : cp.numBuckets < next) : 2 * cp.numBuckets ≤ next := by
  obtain ⟨j, hj⟩ := h.pow
  obtain ⟨m, rfl⟩ := hnext
  rw [hj] at hlt ⊢
  have hjm : j + 1 ≤ m := (Nat.pow_lt_pow_iff_right (by decide)).mp hlt
  rw [← pow_succ']
  exact Nat.pow_le_pow_right (by decide) hjm

/-- **An insertion that draws no row seed.** The entries stay in place, the map changes at the key, and so do the sizes. -/
theorem seedless_insert (h : Arranged H E cp cp.content) (hok : insert H P lf n cp (.value k) v = .ok cq) :
    Arranged H E cq cq.content ∧ cq.toMap = Function.update cp.toMap k (some v) ∧ Counts H k cp cq := by
  cases n with
  | zero =>
      unfold ControlPlaneLudo.insert at hok
      cases hok
  | succ n =>
      obtain ⟨k', hk', hcase⟩ := insert_cases hok
      cases hk'
      cases hcase with
      | member hmem hcq =>
          subst hcq
          have hadded := h.changeValue_member hmem v
          refine ⟨hadded.arranged, hadded.toMap, .member hmem hadded.frame.nKeys ?_ hadded.frame.numBuckets⟩
          exact h.changeValue_slots hmem v
      | resized hmem hfull hg hq =>
          obtain ⟨q, hkeys, harranged, hmap, hslots, ⟨next, hpow, hlt, hsize⟩, rfl⟩ := insert_grown hns h hmem hg hq
          refine ⟨harranged.counted, hmap, .once hmem (.inl hfull) ⟨?_, hslots, hlt.le.trans hsize.ge⟩⟩
          rw [counted_nKeys, nextKeys_eq, nextKeys_eq, hkeys]
      | @placed b s q hmem hroom htarget hput hcq =>
          have hadded := h.place hmem htarget v _ hput
          subst hcq
          refine ⟨hadded.arranged.counted, hadded.toMap, .once hmem (.inr (.inl ?_)) (h.added_once hmem hadded)⟩
          rw [htarget]
          rfl
      | @moved e s vis q hmem hroom htarget hsearch hmove hcq =>
          have hadded := h.moved_spec hmem htarget hsearch hmove
          subst hcq
          refine ⟨hadded.arranged.counted, hadded.toMap, .once hmem (.inr (.inr ?_)) (h.added_once hmem hadded)⟩
          rw [hsearch]
          simp
      | @crowded m g q hn hmem hroom htarget hsearch hg hq hcq =>
          obtain ⟨q', hkeys, harranged, hmap, hslots, ⟨next, hpow, hlt, hsize⟩, rfl⟩ := insert_grown hns h hmem hg hq
          subst hcq
          refine ⟨harranged.counted.counted, hmap, .twice hmem ⟨hroom, htarget, hsearch⟩ ?_ hslots ?_⟩
          · rw [counted_nKeys, nextKeys_eq, counted_nKeys, nextKeys_eq, nextKeys_eq, hkeys]
          · exact (h.double_le hpow hlt).trans hsize.ge

end Seedless

/-! ## The invariant -/

/-- No key is out of place in an empty table. -/
theorem arranged_of_empty {P : Locator} {E : P.Exact} {cp : ControlPlaneLudo V P.State} (hpow : ∃ j, cp.numBuckets = 2 ^ j)
    (hsize : cp.buckets.size = cp.numBuckets) (hempty : ∀ c, cp.content c = none) : Arranged H E cp cp.content := by
  refine ⟨hpow, hsize, ?_, ?_, ?_⟩
  · intro c c' k v v' hc
    rw [hempty] at hc
    cases hc
  · intro b s k v hc
    rw [hempty] at hc
    cases hc
  · intro b s t k v k' v' hc
    rw [hempty] at hc
    cases hc

/-- The constructor's table keeps the invariant, whatever its locator holds. -/
theorem construct_spec [Inhabited V] {P : Locator} {E : P.Exact} {lf : LoadFactor} (locator : P.State) (capacity : Nat) :
    Lib.Returns (IndexInv H E) (construct (V := V) P lf locator capacity) := by
  refine Lib.Returns.bind LoadFactor.nextNbuckets_eq ?_
  intro n hpow
  refine Lib.Returns.bind (E.resizeCapacity locator 0) ?_
  intro l _
  apply Lib.Returns.ok
  generalize hcp : ControlPlaneLudo.mk (V := V) n defaultHSeed 0 (lf.capacity n) _ _ true l = cp
  have hempty : ∀ c, cp.content c = none := by
    rintro ⟨b, s⟩
    rw [content_eq_none]
    intro _
    rw [← hcp]
    rfl
  have hslots : cp.occupiedSlots = [] := by
    rw [List.eq_nil_iff_forall_not_mem]
    rintro ⟨b, s⟩ hmem
    obtain ⟨k, v, hc⟩ := mem_occupiedSlots.mp hmem
    rw [hempty] at hc
    cases hc
  have hcount : cp.nKeys = 0 := by
    rw [← hcp]
  refine ⟨arranged_of_empty ?_ ?_ hempty, ?_, ?_⟩
  · rw [← hcp]
    exact hpow
  · rw [← hcp]
  · rw [hslots, hcount, List.length_nil]
  · rw [hcount]
    exact Nat.two_pow_pos 32

section Main

variable [Inhabited V] {P : RemovableLocator} {E : P.Exact} {lf : LoadFactor} {cp cq g : ControlPlaneLudo V P.State}
  {n : Nat} {k : U64} {v : V}

omit [Inhabited V] in
/-- The bits are the same without seeds to draw. -/
theorem Arranged.withoutSeeds {P : Locator} {E : P.Exact} {cp : ControlPlaneLudo V P.State}
    {T : Nat × Slot → Option (U64 × V)} : @Arranged V H P.withoutSeeds E.withoutSeeds cp T ↔ Arranged H E cp T :=
  ⟨fun h => ⟨h.pow, h.size, h.once, h.located, h.separated⟩, fun h => ⟨h.pow, h.size, h.once, h.located, h.separated⟩⟩

omit [Inhabited V] in
theorem Arranged.searchFitsIn (h : Arranged H E.toExact cp cp.content) (htarget : cp.targetSlot H k = none) :
    SearchFitsIn H cp k := by
  obtain ⟨hfits, hend⟩ := h.cuckooSearch_spec htarget
  refine ⟨hfits, ?_, ?_⟩
  · rcases hend with hnone | ⟨e, s, vis, hsome, -⟩
    · exact ⟨_, hnone⟩
    · exact ⟨_, hsome⟩
  · intro e s vis hsearch x hx p ps hparent
    rcases hend with hnone | ⟨e', s', vis', hsome, htrace, -⟩
    · rw [hsearch] at hnone
      cases hnone
    · rw [hsearch] at hsome
      cases hsome
      have horigin : ∃ first, Origin (cp.candidate H) (fun b => (cp.buckets.get b).keys) (cp.candidate H k false)
          (cp.candidate H k true) vis first x := by
        rcases List.mem_cons.mp hx with rfl | hx
        · exact ⟨_, (htrace.queued x List.mem_cons_self).2⟩
        · obtain ⟨i, hi⟩ := List.mem_iff_getElem?.mp hx
          exact ⟨_, htrace.entries i x hi⟩
      obtain ⟨first, ho⟩ := horigin
      cases ho with
      | root he =>
          rw [he] at hparent
          cases hparent
      | linked hl =>
          rw [hl.parent] at hparent
          cases hparent
          exact (List.getElem?_eq_some_iff.mp hl.index).1

/-- Every table in which the insertion may search has its entries in place. -/
theorem Arranged.searchTable (h : Arranged H E.toExact cp cp.content) (hg : SearchTable H P.toLocator lf cp g) :
    Arranged H E.toExact g g.content := by
  rcases hg with rfl | ⟨depth, hg⟩
  · exact h
  · have hns : ∀ s r, P.withoutSeeds.rowSeed s ≠ .ok r := fun _ _ hr => by cases hr
    obtain ⟨next, -, -, hgrown⟩ := seedless_resize hns (Arranged.withoutSeeds.mpr h) hg
    exact Arranged.withoutSeeds.mp hgrown.arranged

/-- An insertion without a rebuild does to the table what it does without seeds to draw. -/
theorem Unrebuilt.counts {P : Locator} {E : P.Exact} {cp cq : ControlPlaneLudo V P.State} (hrun : Unrebuilt H P lf cp k v)
    (h : Arranged H E cp cp.content) (hok : insert H P lf n cp (.value k) v = .ok cq) :
    Arranged H E cq cq.content ∧ cq.toMap = Function.update cp.toMap k (some v) ∧ Counts H k cp cq := by
  obtain ⟨depth, cq', hseedless⟩ := hrun
  obtain rfl : cq' = cq := insert_withoutSeeds depth n cp (.value k) v cq' cq hseedless hok
  have hns : ∀ s r, P.withoutSeeds.rowSeed s ≠ .ok r := fun _ _ hr => by cases hr
  obtain ⟨harranged, hmap, hcounts⟩ := seedless_insert hns (Arranged.withoutSeeds.mpr h) hseedless
  exact ⟨Arranged.withoutSeeds.mp harranged, hmap, hcounts⟩

/-- **The control-plane invariant without a rebuild.** From every state that keeps it: after an insertion that returns
    without a call of `build` it holds, with the map changed at the key only and all searches inside their arrays,
    exactly when the key is stored or is counted once. The map and the searches are right in any case, and `remove` and
    `changeValue` keep all of it. -/
theorem index_kept_iff (h : IndexInv H E.toExact cp) (hok : insert H P.toLocator lf n cp (.value k) v = .ok cq)
    (hrun : Unrebuilt H P.toLocator lf cp k v) :
    ((IndexInv H E.toExact cq ∧ (∀ x, x ≠ k → cq.toMap x = cp.toMap x) ∧
        ∀ g, SearchTable H P.toLocator lf cp g → g.targetSlot H k = none → SearchFitsIn H g k) ↔ CountsOnce H cp k) ∧
      cq.toMap = Function.update cp.toMap k (some v) ∧
      (∀ g, SearchTable H P.toLocator lf cp g → g.targetSlot H k = none → SearchFitsIn H g k) ∧
      (∀ x cr, cp.remove H P x = .ok cr → IndexInv H E.toExact cr ∧ cr.toMap = Function.update cp.toMap x none) ∧
      ∀ x w, IndexInv H E.toExact (cp.changeValue H x w) ∧ (cp.changeValue H x w).toMap
        = if cp.isMember H x = true then Function.update cp.toMap x (some w) else cp.toMap := by
  obtain ⟨harranged, hmap, hcounts⟩ := hrun.counts h.toArranged hok
  have hcount := hcounts.exact_iff h.count h.word
  have hsearch : ∀ g, SearchTable H P.toLocator lf cp g → g.targetSlot H k = none → SearchFitsIn H g k :=
    fun g hg htarget => (h.toArranged.searchTable hg).searchFitsIn htarget
  have honly : ∀ x, x ≠ k → cq.toMap x = cp.toMap x := by
    intro x hx
    rw [hmap, Function.update_of_ne hx]
  refine ⟨?_, hmap, hsearch, fun x cr hcr => h.remove_spec x cr hcr, fun x w => h.changeValue_spec x w⟩
  rw [← hcount]
  constructor
  · rintro ⟨hcq, -⟩
    exact ⟨hcq.count, hcq.word⟩
  · rintro ⟨hkeys, hword⟩
    exact ⟨⟨harranged, hkeys, hword⟩, honly, hsearch⟩

end Main

/-! ## The 64 buckets of `ControlPlaneLudo(100)` -/

/-- The exact map, with `rand()` always zero. -/
abbrev plainLocator : RemovableLocator := mapLocator fun _ => 0

/-- A control plane of 64-bit values over it. -/
abbrev PlainLudo := ControlPlaneLudo U64 plainLocator.State

/-- Four keys that fill bucket 50 of 64. The first has another bucket, the others have not. -/
def movableKeys : List U64 := [27, 347, 1377, 2662]

/-- The fifth key finds bucket 50 full. It comes in along a path: the first key makes way, and `nKeys` is 5. -/
theorem index_kept_five : ∃ empty cp cq : PlainLudo,
    construct plainLocator.toLocator defaultLoadFactor (fun _ => none, 0) 100 = .ok empty ∧
    insertAll fastHasher64 plainLocator.toLocator defaultLoadFactor 2 empty movableKeys (BitVec.ofNat 64) 4 = .ok cp ∧
    cp.targetSlot fastHasher64 2782 = none ∧
    insert fastHasher64 plainLocator.toLocator defaultLoadFactor 2 cp (.value 2782) 4 = .ok cq ∧ cq.nKeys = 5 ∧
    IndexInv fastHasher64 (mapLocator_exact _).toExact cq ∧ cq.toMap = Function.update cp.toMap 2782 (some 4) := by
  obtain ⟨empty, hempty, hload⟩ := Lib.exists_of_passes
    (x := construct plainLocator.toLocator defaultLoadFactor (fun _ => none, 0) 100)
    (p := fun empty : PlainLudo => Lib.passes (fun cp : PlainLudo =>
        decide ((cp.numBuckets = 2 ^ 6 ∧ cp.ArrangedSlots fastHasher64 (mapLocator_exact _).toExact) ∧
          (cp.nKeys = cp.occupiedSlots.length ∧ cp.nKeys < 2 ^ 32) ∧
          cp.targetSlot fastHasher64 2782 = none ∧ CountsOnce fastHasher64 cp 2782) &&
        (Lib.passes (fun _ => true)
          (insert fastHasher64 plainLocator.withoutSeeds defaultLoadFactor 2 cp (.value 2782) 4) &&
        Lib.passes (fun cq : PlainLudo => decide (cq.nKeys = 5))
          (insert fastHasher64 plainLocator.toLocator defaultLoadFactor 2 cp (.value 2782) 4)))
      (insertAll fastHasher64 plainLocator.toLocator defaultLoadFactor 2 empty movableKeys (BitVec.ofNat 64) 4))
    (by decide +kernel)
  obtain ⟨cp, hcp, htest⟩ := Lib.exists_of_passes hload
  rw [Bool.and_eq_true, Bool.and_eq_true, decide_eq_true_eq] at htest
  obtain ⟨⟨⟨hpow, hslots⟩, ⟨hcount, hword⟩, htarget, honce⟩, hseedless, hrun⟩ := htest
  obtain ⟨cr, hcr, -⟩ := Lib.exists_of_passes hseedless
  obtain ⟨cq, hcq, hkeys⟩ := Lib.exists_of_passes hrun
  have hinv : IndexInv fastHasher64 (mapLocator_exact _).toExact cp := ⟨arranged_of_slots ⟨6, hpow⟩ hslots, hcount, hword⟩
  obtain ⟨hiff, hmap, -⟩ := index_kept_iff hinv hcq ⟨2, cr, hcr⟩
  exact ⟨empty, cp, cq, hempty, hcp, htarget, hcq, of_decide_eq_true hkeys, (hiff.mpr honce).1, hmap⟩

/-- Five keys whose two candidate buckets are bucket 50 of 64. -/
def crowdedKeys : List U64 := [347, 1377, 2662, 2782, 3528]

/-- **A growth in place counts its key twice.** Four keys fill bucket 50; the fifth finds no path, the table grows to 128
    buckets, and `nKeys` is 6 for five slots in use. -/
theorem growth_counts_twice : ∃ empty cp cq : PlainLudo,
    construct plainLocator.toLocator defaultLoadFactor (fun _ => none, 0) 100 = .ok empty ∧
    insertAll fastHasher64 plainLocator.toLocator defaultLoadFactor 3 empty crowdedKeys (BitVec.ofNat 64) 4 = .ok cp ∧
    IndexInv fastHasher64 (mapLocator_exact _).toExact cp ∧
    insert fastHasher64 plainLocator.toLocator defaultLoadFactor 3 cp (.value 3528) 4 = .ok cq ∧
    Unrebuilt fastHasher64 plainLocator.toLocator defaultLoadFactor cp 3528 4 ∧
    cq.nKeys = 6 ∧ cq.occupiedSlots.length = 5 ∧ ¬ IndexInv fastHasher64 (mapLocator_exact _).toExact cq := by
  obtain ⟨empty, hempty, hload⟩ := Lib.exists_of_passes
    (x := construct plainLocator.toLocator defaultLoadFactor (fun _ => none, 0) 100)
    (p := fun empty : PlainLudo => Lib.passes (fun cp : PlainLudo =>
        decide ((cp.numBuckets = 2 ^ 6 ∧ cp.ArrangedSlots fastHasher64 (mapLocator_exact _).toExact) ∧
          cp.nKeys = cp.occupiedSlots.length ∧ cp.nKeys < 2 ^ 32) &&
        (Lib.passes (fun _ => true)
          (insert fastHasher64 plainLocator.withoutSeeds defaultLoadFactor 3 cp (.value 3528) 4) &&
        Lib.passes (fun cq : PlainLudo => decide (cq.nKeys = 6 ∧ cq.occupiedSlots.length = 5))
          (insert fastHasher64 plainLocator.toLocator defaultLoadFactor 3 cp (.value 3528) 4)))
      (insertAll fastHasher64 plainLocator.toLocator defaultLoadFactor 3 empty crowdedKeys (BitVec.ofNat 64) 4))
    (by decide +kernel)
  obtain ⟨cp, hcp, htest⟩ := Lib.exists_of_passes hload
  rw [Bool.and_eq_true, Bool.and_eq_true, decide_eq_true_eq] at htest
  obtain ⟨⟨⟨hpow, hslots⟩, hcount, hword⟩, hseedless, hrun⟩ := htest
  obtain ⟨cr, hcr, -⟩ := Lib.exists_of_passes hseedless
  obtain ⟨cq, hcq, hkeys⟩ := Lib.exists_of_passes hrun
  rw [decide_eq_true_eq] at hkeys
  refine ⟨empty, cp, cq, hempty, hcp, ⟨arranged_of_slots ⟨6, hpow⟩ hslots, hcount, hword⟩, hcq, ⟨3, cr, hcr⟩, hkeys.1,
    hkeys.2, ?_⟩
  intro hinv
  have htwice := hinv.count
  rw [hkeys.1, hkeys.2] at htwice
  exact absurd htwice (by decide)

end ControlPlaneLudo

end Outback
