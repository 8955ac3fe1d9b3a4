import Outback.Ludo.Correctness.CuckooPath

/-!
# `Ludo.Correctness.Placing` — a new key comes into the table

Without a rebuild a key that is not stored comes into a free slot of one of its buckets (`Arranged.place`), or into the
slot that a cuckoo path frees (`Arranged.cuckooMove_spec`). Either way the entries are in place afterwards and the map
has this key more: `Added`.
-/

namespace Outback

namespace ControlPlaneLudo

variable {V : Type} {H : HashFn} {P : Locator} {E : P.Exact} {cp cq : ControlPlaneLudo V P.State} {b : Nat} {s : Slot}
  {k : U64} {v : V}

/-- The key has come into the table, with this value. -/
structure Added (H : HashFn) {P : Locator} (E : P.Exact) (k : U64) (v : V) (cp cq : ControlPlaneLudo V P.State) :
    Prop where
  frame : Frame cp cq
  arranged : Arranged H E cq cq.content
  toMap : cq.toMap = Function.update cp.toMap k (some v)

/-- The map after a key was put, where the slots hold it and what they held. -/
theorem toMap_put (h : Lib.Once cp.content) (h' : Lib.Once cq.content)
    (hholds : ∀ x u, Lib.Holds cq.content x u ↔ (x = k ∧ u = v) ∨ (x ≠ k ∧ Lib.Holds cp.content x u)) :
    cq.toMap = Function.update cp.toMap k (some v) := by
  funext x
  by_cases hx : x = k
  · subst hx
    rw [Function.update_self, toMap_eq_some_iff h', hholds]
    exact .inl ⟨rfl, rfl⟩
  · rw [Function.update_of_ne hx]
    refine toMap_congr h h' fun u => ?_
    rw [hholds]
    constructor
    · rintro (⟨heq, -⟩ | ⟨-, hu⟩)
      · exact absurd heq hx
      · exact hu
    · exact fun hu => .inr ⟨hx, hu⟩

theorem Added.holds_iff (h : Added H E k v cp cq) (hcp : Lib.Once cp.content) (x : U64) (u : V) :
    Lib.Holds cq.content x u ↔ (x = k ∧ u = v) ∨ (x ≠ k ∧ Lib.Holds cp.content x u) := by
  rw [← toMap_eq_some_iff h.arranged.once, h.toMap, ← toMap_eq_some_iff hcp]
  by_cases hx : x = k
  · subst hx
    rw [Function.update_self, Option.some.injEq]
    simp [eq_comm]
  · rw [Function.update_of_ne hx]
    simp [hx]

/-- One key more is one slot more in use. -/
theorem Added.count (h : Added H E k v cp cq) (hcp : Lib.Once cp.content) (hfresh : cp.toMap k = none) :
    cq.occupiedSlots.length = cp.occupiedSlots.length + 1 := by
  rw [length_occupiedSlots_add hcp h.arranged.once (List.nodup_singleton k) ?_ ?_, List.length_singleton, Nat.add_comm]
  · intro x hx
    rw [List.mem_singleton.mp hx, hfresh]
  · intro x
    rw [h.toMap, List.mem_singleton]
    by_cases hx : x = k
    · subst hx
      simp
    · simp [hx]

/-- A key that is not in the map is in no slot. -/
theorem Arranged.not_holds (h : Arranged H E cp cp.content) (hmem : cp.isMember H k = false) (w : V) :
    ¬ Lib.Holds cp.content k w := by
  intro hw
  rw [h.isMember_iff.mpr ⟨w, hw⟩] at hmem
  cases hmem

theorem Arranged.toMap_eq_none (h : Arranged H E cp cp.content) (hmem : cp.isMember H k = false) : cp.toMap k = none := by
  rw [h.isMember_eq] at hmem
  simpa using hmem

/-! ## Free slots -/

/-- The slot that `insert` takes is free, and the flag tells which bucket of the key it is in. -/
theorem targetSlot_eq_some (h : cp.targetSlot H k = some (b, s)) :
    (cp.buckets.get b).occupiedMask s = false ∧ cp.candidate H k (!(b == cp.candidate H k false)) = b := by
  rcases Option.or_eq_some_iff.mp h with hfirst | ⟨hnone, hsecond⟩
  · obtain ⟨t, ht, heq⟩ := Option.map_eq_some_iff.mp hfirst
    obtain ⟨rfl, rfl⟩ := Prod.mk.inj heq
    exact ⟨findFreeSlot_eq_some ht, by rw [beq_self_eq_true]; rfl⟩
  · obtain ⟨t, ht, heq⟩ := Option.map_eq_some_iff.mp hsecond
    obtain ⟨rfl, rfl⟩ := Prod.mk.inj heq
    refine ⟨findFreeSlot_eq_some ht, ?_⟩
    -- the first bucket is full, so the second is another one
    have hne : (cp.candidate H k true == cp.candidate H k false) = false := by
      rw [beq_eq_false_iff_ne]
      intro heq
      rw [heq, Option.map_eq_none_iff.mp hnone] at ht
      cases ht
    rw [hne]
    rfl

theorem targetSlot_eq_none (h : cp.targetSlot H k = none) (second : Bool) :
    findFreeSlot (cp.buckets.get (cp.candidate H k second)).occupiedMask = none := by
  obtain ⟨hfirst, hsecond⟩ := Option.or_eq_none_iff.mp h
  cases second with
  | false => exact Option.map_eq_none_iff.mp hfirst
  | true => exact Option.map_eq_none_iff.mp hsecond

/-- **Direct placement.** -/
theorem Arranged.place (h : Arranged H E cp cp.content) (hmem : cp.isMember H k = false)
    (htarget : cp.targetSlot H k = some (b, s)) (v : V) :
    Lib.Returns (Added H E k v cp) (cp.putItem H P k v b s (b == cp.candidate H k false)) := by
  obtain ⟨hmask, hflag⟩ := targetSlot_eq_some htarget
  have hb : b < cp.buckets.size := by
    rw [← hflag]
    exact h.candidate_lt k _
  have hfree : cp.content (b, s) = none := content_eq_none.mpr fun _ => hmask
  have hsame : Function.update cp.content (b, s) none = cp.content := by
    rw [← hfree, Function.update_eq_self]
  have hnew : ∀ w, ¬ Lib.Holds (Function.update cp.content (b, s) none) k w := by
    rw [hsame]
    exact h.not_holds hmem
  have hhole : Arranged H E cp (Function.update cp.content (b, s) none) := by
    rw [hsame]
    exact h
  intro cq hcq
  obtain ⟨hframe, hcontent, harranged⟩ := hhole.putItem hb hnew hflag cq hcq
  refine ⟨hframe, harranged, toMap_put h.once harranged.once fun x u => ?_⟩
  rw [hcontent, Lib.holds_put hfree]
  refine or_congr_right ⟨fun hu => ⟨?_, hu⟩, And.right⟩
  rintro rfl
  exact h.not_holds hmem u hu

/-! ## The cuckoo path -/

/-- Every key is in one of its two buckets. -/
theorem Arranged.inPlace (h : Arranged H E cp cp.content) : InPlace (cp.candidate H)
    (fun b => (cp.buckets.get b).occupiedMask) (fun b => (cp.buckets.get b).keys) cp.buckets.size where
  lt := h.candidate_lt
  own := by
    intro b s hb hmask
    obtain ⟨bit, -, hcand⟩ := h.located b s _ _ (content_eq_some.mpr ⟨hb, hmask, rfl, rfl⟩)
    exact ⟨bit, hcand⟩

/-- A seed, a bit or a key that has not changed. -/
theorem Arranged.of_frame {T : Nat × Slot → Option (U64 × V)} (h : Arranged H E cp T) (hframe : Frame cp cq)
    (hlocator : cq.locator = cp.locator) (hseeds : ∀ b, (cq.buckets.get b).seed = (cp.buckets.get b).seed) :
    Arranged H E cq T := by
  refine ⟨?_, ?_, h.once, ?_, ?_⟩
  · rw [hframe.numBuckets]
    exact h.pow
  · rw [hframe.size, hframe.numBuckets]
    exact h.size
  · intro b s k v hc
    rw [hlocator]
    simp only [hframe.candidate]
    exact h.located b s k v hc
  · intro b s t k v k' v' hs ht hslot
    rw [hseeds b] at hslot
    exact h.separated b s t k v k' v' hs ht hslot

theorem mark_seed (cp : ControlPlaneLudo V P.State) (b : Nat) (s : Slot) (o : Bool) (b' : Nat) :
    ((cp.mark b s o).buckets.get b').seed = (cp.buckets.get b').seed := by
  by_cases hb' : b' = b
  · subst hb'
    unfold mark
    rw [setBucket_get_self]
  · rw [mark_get_of_ne cp s o hb']

/-- The search of `CuckooInsert` fits its arrays and ends, without a path or with one. -/
theorem Arranged.cuckooSearch_spec (h : Arranged H E cp cp.content) (htarget : cp.targetSlot H k = none) :
    SearchFits (cp.candidate H) (fun b => (cp.buckets.get b).occupiedMask) (fun b => (cp.buckets.get b).keys) searchTurns
        [⟨cp.candidate H k false, 1, none⟩, ⟨cp.candidate H k true, 1, none⟩] [] ∧
      (cp.cuckooSearch H k = .ok none ∨ ∃ e s vis, cp.cuckooSearch H k = .ok (some (e, s, vis)) ∧
        Trace (cp.candidate H) (fun b => (cp.buckets.get b).occupiedMask) (fun b => (cp.buckets.get b).keys)
          (cp.candidate H k false) (cp.candidate H k true) [e] vis ∧
        findFreeSlot (cp.buckets.get e.bucket).occupiedMask = some s) :=
  searchPath_roots h.inPlace (h.candidate_lt k false) (h.candidate_lt k true) (targetSlot_eq_none htarget false)

/-- **Along a cuckoo path**, of whatever length and wherever it leads. -/
theorem Arranged.cuckooMove_spec (h : Arranged H E cp cp.content) (hmem : cp.isMember H k = false)
    (htarget : cp.targetSlot H k = none) {e : CuckooPathEntry} {vis : List CuckooPathEntry}
    (htrace : Trace (cp.candidate H) (fun b => (cp.buckets.get b).occupiedMask) (fun b => (cp.buckets.get b).keys)
      (cp.candidate H k false) (cp.candidate H k true) [e] vis)
    (hfree : findFreeSlot (cp.buckets.get e.bucket).occupiedMask = some s) (v : V) :
    Lib.Returns (Added H E k v cp) (cp.cuckooMove H P k v e s vis) := by
  obtain ⟨hdepth, horigin⟩ := htrace.queued e List.mem_cons_self
  obtain ⟨cs, hchain⟩ := htrace.chain horigin s
  obtain ⟨tail, rfl⟩ := hchain.head
  have htail : ∀ c ∈ tail, findFreeSlot (cp.buckets.get c.1).occupiedMask = none :=
    @Chain.tail_full _ _ _ _ _ (fun b => (cp.buckets.get b).occupiedMask) _ _ _ htrace.full hchain
  have hlt : ∀ x ∈ vis, x.bucket < cp.buckets.size := by
    intro x hx
    obtain ⟨i, hi⟩ := List.mem_iff_getElem?.mp hx
    exact (htrace.entries i x hi).bucket_lt h.inPlace (h.candidate_lt k false) (h.candidate_lt k true)
  have hb : e.bucket < cp.buckets.size := horigin.bucket_lt h.inPlace (h.candidate_lt k false) (h.candidate_lt k true)
  have hfeeds : Feeds H cp ((e.bucket, s) :: tail) := feeds_of_chain rfl hchain htrace.full hlt
  have hlen : tail.length ≤ 4 := by
    have heq := hchain.length_eq
    unfold kMaxBFSPathLen at hdepth
    rw [List.length_cons] at heq
    omega
  have hapart := apart_of_feeds h hfeeds hlen (by rw [hfree]; rfl) htail
  -- the free slot is marked: a hole
  obtain ⟨hhole, hwithout⟩ := content_mark cp hb s
  have hempty : cp.content (e.bucket, s) = none := content_eq_none.mpr fun _ => findFreeSlot_eq_some hfree
  have hsame : Function.update (cp.mark e.bucket s true).content (e.bucket, s) none = cp.content := by
    rw [hwithout, ← hempty, Function.update_eq_self]
  have hframe : Frame cp (cp.mark e.bucket s true) := Frame.setBucket _ _ _
  have hmarked : Arranged H E (cp.mark e.bucket s true)
      (Function.update (cp.mark e.bucket s true).content (e.bucket, s) none) := by
    rw [hsame]
    exact h.of_frame hframe rfl (mark_seed cp e.bucket s true)
  have hfeeds' : Feeds H (cp.mark e.bucket s true) ((e.bucket, s) :: tail) := by
    refine hfeeds.congr hframe fun d hd => content_mark_of_ne cp e.bucket s true ?_
    rintro rfl
    rw [htail _ hd] at hfree
    cases hfree
  have hroot : e.parent = none → (cp.mark e.bucket s true).candidate H k (!false) = e.bucket := by
    -- both roots are full
    intro hnone
    exfalso
    cases horigin with
    | root he =>
        have hfull := targetSlot_eq_none htarget true
        subst he
        exact absurd (hfree.symm.trans hfull) (by simp)
    | linked hl =>
        rw [hl.parent] at hnone
        cases hnone
  unfold ControlPlaneLudo.cuckooMove
  refine Lib.Returns.bind (followPath_spec hchain (le_refl e.depth) hmarked hhole hfeeds' hapart hroot rfl rfl) ?_
  rintro ⟨cp₁, e₁, s₁, flag⟩ ⟨hframe₁, hhole₁, hflag, harranged₁, hholds₁⟩ cq hcq
  dsimp only at hframe₁ hhole₁ hflag harranged₁ hholds₁ hcq
  rw [hsame] at hholds₁
  obtain ⟨⟨y, w⟩, hstale⟩ := Option.isSome_iff_exists.mp hhole₁
  have hnew : ∀ w, ¬ Lib.Holds (Function.update cp₁.content (e₁.bucket, s₁) none) k w := fun w hw =>
    h.not_holds hmem w ((hholds₁ k w).mp hw)
  obtain ⟨hframe₂, hcontent, harranged⟩ := harranged₁.putItem (content_eq_some.mp hstale).1 hnew hflag cq hcq
  refine ⟨(hframe.trans hframe₁).trans hframe₂, harranged, toMap_put h.once harranged.once fun x u => ?_⟩
  have hput : cq.content = Function.update (Function.update cp₁.content (e₁.bucket, s₁) none) (e₁.bucket, s₁)
      (some (k, v)) := by
    rw [hcontent, Function.update_idem]
  rw [hput, Lib.holds_put (Function.update_self ..), hholds₁]
  refine or_congr_right ⟨fun hu => ⟨?_, hu⟩, And.right⟩
  rintro rfl
  exact h.not_holds hmem u hu

end ControlPlaneLudo

end Outback
