import Outback.Ludo.KeyMap

/-!
# `Ludo.Correctness.Buckets` — one bucket at a time

What the operations on single buckets do to `content`, and that they keep the entries in place. While an entry is on
its way into a slot that is marked already, the slot holds something stale: it is a *hole*, and the entries that are in
place are `content` without it. `putItem` fills the hole with a new entry (`Arranged.putItem`), `moveItem` with the
entry of another slot, which becomes the hole (`Arranged.moveItem`).

Every operation reseeds the bucket that it writes to, and the seed it finds separates all keys there; the other buckets
keep their seeds. `Arranged.reseed` is that argument, once for all of them.
-/

namespace Outback

namespace ControlPlaneLudo

variable {V L : Type}

/-! ## What a change of the buckets leaves -/

/-- Everything but the buckets and the locator is as before. -/
structure Frame (cp cq : ControlPlaneLudo V L) : Prop where
  numBuckets : cq.numBuckets = cp.numBuckets
  hSeed : cq.hSeed = cp.hSeed
  nKeys : cq.nKeys = cp.nKeys
  capacity : cq.capacity = cp.capacity
  size : cq.buckets.size = cp.buckets.size
  oldBuckets : cq.oldBuckets = cp.oldBuckets
  integrity : cq.integrity = cp.integrity

section Content

variable {cp cq cr : ControlPlaneLudo V L} {b : Nat} {s : Slot} {k : U64} {v : V} {H : HashFn}

theorem Frame.refl (cp : ControlPlaneLudo V L) : Frame cp cp := ⟨rfl, rfl, rfl, rfl, rfl, rfl, rfl⟩

theorem Frame.trans (h : Frame cp cq) (h' : Frame cq cr) : Frame cp cr :=
  ⟨h'.numBuckets.trans h.numBuckets, h'.hSeed.trans h.hSeed, h'.nKeys.trans h.nKeys, h'.capacity.trans h.capacity,
    h'.size.trans h.size, h'.oldBuckets.trans h.oldBuckets, h'.integrity.trans h.integrity⟩

theorem Frame.candidate (h : Frame cp cq) (k : U64) (second : Bool) : cq.candidate H k second = cp.candidate H k second := by
  unfold ControlPlaneLudo.candidate
  rw [h.hSeed, h.size]

theorem Frame.setBucket (cp : ControlPlaneLudo V L) (b : Nat) (bucket : CpBucket V) : Frame cp (cp.setBucket b bucket) :=
  ⟨rfl, rfl, rfl, rfl, rfl, rfl, rfl⟩

theorem Frame.locator (cp : ControlPlaneLudo V L) (locator : L) : Frame cp { cp with locator := locator } :=
  ⟨rfl, rfl, rfl, rfl, rfl, rfl, rfl⟩

@[simp] theorem setBucket_get_self (cp : ControlPlaneLudo V L) (b : Nat) (bucket : CpBucket V) :
    (cp.setBucket b bucket).buckets.get b = bucket := by
  simp [ControlPlaneLudo.setBucket, Vec.set]

/-! ## The content of a changed bucket -/

theorem setBucket_get_of_ne (cp : ControlPlaneLudo V L) {b b' : Nat} (bucket : CpBucket V) (h : b' ≠ b) :
    (cp.setBucket b bucket).buckets.get b' = cp.buckets.get b' := by
  simp [ControlPlaneLudo.setBucket, Vec.set, h]

/-- Buckets that agree on a slot, in tables of one size. -/
theorem content_congr {c : Nat × Slot} (hsize : cq.buckets.size = cp.buckets.size)
    (hmask : (cq.buckets.get c.1).occupiedMask c.2 = (cp.buckets.get c.1).occupiedMask c.2)
    (hkey : (cq.buckets.get c.1).keys c.2 = (cp.buckets.get c.1).keys c.2)
    (hval : (cq.buckets.get c.1).values c.2 = (cp.buckets.get c.1).values c.2) : cq.content c = cp.content c := by
  unfold content
  rw [hsize, hmask, hkey, hval]

theorem content_setBucket_of_ne (cp : ControlPlaneLudo V L) {b : Nat} (bucket : CpBucket V) {c : Nat × Slot}
    (h : c.1 ≠ b) : (cp.setBucket b bucket).content c = cp.content c := by
  have hget := setBucket_get_of_ne cp bucket h
  exact content_congr rfl (by rw [hget]) (by rw [hget]) (by rw [hget])

theorem content_setBucket_self {bucket : CpBucket V} {t : Slot}
    (hmask : bucket.occupiedMask t = (cp.buckets.get b).occupiedMask t) (hkey : bucket.keys t = (cp.buckets.get b).keys t)
    (hval : bucket.values t = (cp.buckets.get b).values t) : (cp.setBucket b bucket).content (b, t) = cp.content (b, t) := by
  refine content_congr rfl ?_ ?_ ?_
  · rw [setBucket_get_self, hmask]
  · rw [setBucket_get_self, hkey]
  · rw [setBucket_get_self, hval]

/-- The bucket is replaced by one that differs in one slot, which then holds this entry. -/
theorem content_setBucket {bucket : CpBucket V} (hb : b < cp.buckets.size) (hmask : bucket.occupiedMask s = true)
    (hkey : bucket.keys s = k) (hval : bucket.values s = v)
    (hmasks : ∀ t, t ≠ s → bucket.occupiedMask t = (cp.buckets.get b).occupiedMask t)
    (hkeys : ∀ t, t ≠ s → bucket.keys t = (cp.buckets.get b).keys t)
    (hvals : ∀ t, t ≠ s → bucket.values t = (cp.buckets.get b).values t) :
    (cp.setBucket b bucket).content = Function.update cp.content (b, s) (some (k, v)) := by
  funext c
  obtain ⟨b', t⟩ := c
  by_cases hbb : b' = b
  · subst hbb
    by_cases hts : t = s
    · subst hts
      rw [Function.update_self, content_eq_some, setBucket_get_self]
      exact ⟨hb, hmask, hkey, hval⟩
    · have hne : (b', t) ≠ (b', s) := fun h => hts (Prod.mk.inj h).2
      rw [Function.update_of_ne hne]
      exact content_setBucket_self (hmasks t hts) (hkeys t hts) (hvals t hts)
  · have hne : (b', t) ≠ (b, s) := fun h => hbb (Prod.mk.inj h).1
    rw [Function.update_of_ne hne, content_setBucket_of_ne cp bucket hbb]

theorem content_fill (hb : b < cp.buckets.size) (s : Slot) (k : U64) (v : V) :
    (cp.fill b s k v).content = Function.update cp.content (b, s) (some (k, v)) := by
  unfold fill
  apply content_setBucket hb
  · exact Function.update_self ..
  · exact Function.update_self ..
  · exact Function.update_self ..
  · exact fun t ht => Function.update_of_ne ht ..
  · exact fun t ht => Function.update_of_ne ht ..
  · exact fun t ht => Function.update_of_ne ht ..

/-! ## Marking a slot -/

theorem mark_get_of_ne (cp : ControlPlaneLudo V L) {b b' : Nat} (s : Slot) (o : Bool) (h : b' ≠ b) :
    (cp.mark b s o).buckets.get b' = cp.buckets.get b' := setBucket_get_of_ne cp _ h

theorem content_mark_of_ne (cp : ControlPlaneLudo V L) (b : Nat) (s : Slot) (o : Bool) {c : Nat × Slot}
    (h : c ≠ (b, s)) : (cp.mark b s o).content c = cp.content c := by
  obtain ⟨b', t⟩ := c
  by_cases hbb : b' = b
  · subst hbb
    have hts : t ≠ s := fun hts => h (by rw [hts])
    exact content_setBucket_self (Function.update_of_ne hts ..) rfl rfl
  · exact content_setBucket_of_ne cp _ hbb

/-- A slot out of use holds nothing. -/
theorem content_unmark (cp : ControlPlaneLudo V L) (b : Nat) (s : Slot) :
    (cp.mark b s false).content = Function.update cp.content (b, s) none := by
  funext c
  by_cases hc : c = (b, s)
  · subst hc
    rw [Function.update_self, content_eq_none]
    intro _
    unfold mark
    rw [setBucket_get_self]
    exact Function.update_self ..
  · rw [Function.update_of_ne hc, content_mark_of_ne cp b s false hc]

/-- A slot marked for use is a hole. -/
theorem content_mark (cp : ControlPlaneLudo V L) (hb : b < cp.buckets.size) (s : Slot) :
    ((cp.mark b s true).content (b, s)).isSome = true ∧
      Function.update (cp.mark b s true).content (b, s) none = Function.update cp.content (b, s) none := by
  constructor
  · rw [Option.isSome_iff_exists]
    refine ⟨((cp.buckets.get b).keys s, (cp.buckets.get b).values s), ?_⟩
    unfold mark
    rw [content_eq_some, setBucket_get_self]
    exact ⟨hb, Function.update_self .., rfl, rfl⟩
  · funext c
    by_cases hc : c = (b, s)
    · subst hc
      rw [Function.update_self, Function.update_self]
    · rw [Function.update_of_ne hc, Function.update_of_ne hc, content_mark_of_ne cp b s true hc]

/-! ## Overwriting a slot -/

/-- The write of `moveItem` into a slot that is in use. -/
def overwrite (cp : ControlPlaneLudo V L) (b : Nat) (s : Slot) (k : U64) (v : V) : ControlPlaneLudo V L :=
  cp.setBucket b
    { cp.buckets.get b with
      keys := Function.update (cp.buckets.get b).keys s k
      values := Function.update (cp.buckets.get b).values s v }

theorem content_overwrite (hb : b < cp.buckets.size) (hmask : (cp.buckets.get b).occupiedMask s = true) (k : U64) (v : V) :
    (cp.overwrite b s k v).content = Function.update cp.content (b, s) (some (k, v)) := by
  unfold overwrite
  apply content_setBucket hb
  · exact hmask
  · exact Function.update_self ..
  · exact Function.update_self ..
  · exact fun t _ => rfl
  · exact fun t ht => Function.update_of_ne ht ..
  · exact fun t ht => Function.update_of_ne ht ..

/-! ## A new seed -/

/-- What `updateSeed` changes: the seed of one bucket, to one that separates all its keys. -/
structure Reseeded (H : HashFn) (b : Nat) (cp cq : ControlPlaneLudo V L) : Prop where
  frame : Frame cp cq
  locator : cq.locator = cp.locator
  content : cq.content = cp.content
  others : ∀ b', b' ≠ b → (cq.buckets.get b').seed = (cp.buckets.get b').seed
  separated : ∀ s t k v k' v', cp.content (b, s) = some (k, v) → cp.content (b, t) = some (k', v') →
    seedSlot H (cq.buckets.get b).seed k = seedSlot H (cq.buckets.get b).seed k' → s = t

theorem updateSeed_spec (cp : ControlPlaneLudo V L) (b : Nat) : Lib.Returns (Reseeded H b cp) (cp.updateSeed H b) := by
  unfold updateSeed
  dsimp only
  split
  · rename_i seed hseed
    apply Lib.Returns.ok
    refine ⟨Frame.setBucket _ _ _, rfl, ?_, ?_, ?_⟩
    · funext c
      obtain ⟨b', t⟩ := c
      by_cases hb' : b' = b
      · subst hb'
        exact content_setBucket_self rfl rfl rfl
      · exact content_setBucket_of_ne cp _ hb'
    · intro b' hb'
      rw [setBucket_get_of_ne cp _ hb']
    · intro s t k v k' v' hs ht hslot
      obtain ⟨-, hms, rfl, -⟩ := content_eq_some.mp hs
      obtain ⟨-, hmt, rfl, -⟩ := content_eq_some.mp ht
      rw [setBucket_get_self] at hslot
      have hnodup := forceSeed_nodup hseed
      rw [List.map_map] at hnodup
      exact List.inj_on_of_nodup_map hnodup (List.mem_filter.mpr ⟨List.mem_finRange s, hms⟩)
        (List.mem_filter.mpr ⟨List.mem_finRange t, hmt⟩) hslot
  · exact Lib.Returns.error _

end Content

/-! ## The entries stay in place -/

section Arranged

variable {H : HashFn} {P : Locator} {E : P.Exact} {cp cq cr : ControlPlaneLudo V P.State}
  {T T' : Nat × Slot → Option (U64 × V)} {b : Nat} {s : Slot} {k : U64} {v : V}

theorem Arranged.size_pos (h : Arranged H E cp T) : 0 < cp.buckets.size := by
  obtain ⟨j, hj⟩ := h.pow
  rw [h.size, hj]
  exact Nat.two_pow_pos j

theorem Arranged.candidate_lt (h : Arranged H E cp T) (k : U64) (second : Bool) :
    cp.candidate H k second < cp.buckets.size :=
  fastMapToBuckets_lt _ h.size_pos second

theorem moveItem_eq {sBkt : Nat} {sSlot : Slot} (hkey : (cp.buckets.get sBkt).keys sSlot = k)
    (hval : (cp.buckets.get sBkt).values sSlot = v) : cp.moveItem H P sBkt sSlot b s
      = P.toggleInOthello cp.locator k >>= fun locator => { cp.overwrite b s k v with locator := locator }.updateSeed H b := by
  unfold ControlPlaneLudo.moveItem
  dsimp only
  rw [hkey, hval]
  rfl

/-- The entries `T'` after a step that wrote to bucket `b` and reseeded it. -/
theorem Arranged.reseed (h : Arranged H E cp T) (hframe : Frame cp cq)
    (hseeds : ∀ b', b' ≠ b → (cq.buckets.get b').seed = (cp.buckets.get b').seed) (hr : Reseeded H b cq cr)
    (honce : Lib.Once T') (hnew : ∀ c e, c.1 = b → T' c = some e → cq.content c = some e)
    (hold : ∀ c e, c.1 ≠ b → T' c = some e → T c = some e)
    (hlocated : ∀ b s k v, T' (b, s) = some (k, v) →
      ∃ bit, E.bits cq.locator k = some bit ∧ cp.candidate H k bit = b) : Arranged H E cr T' := by
  have hframe' := hframe.trans hr.frame
  refine ⟨?_, ?_, honce, ?_, ?_⟩
  · rw [hframe'.numBuckets]
    exact h.pow
  · rw [hframe'.size, hframe'.numBuckets]
    exact h.size
  · intro b s k v hc
    rw [hr.locator]
    simp only [hframe'.candidate]
    exact hlocated b s k v hc
  · intro b' s t k v k' v' hs ht hslot
    by_cases hb : b' = b
    · subst hb
      exact hr.separated s t k v k' v' (hnew _ _ rfl hs) (hnew _ _ rfl ht) hslot
    · rw [hr.others b' hb, hseeds b' hb] at hslot
      exact h.separated b' s t k v k' v' (hold _ _ hb hs) (hold _ _ hb ht) hslot

/-! ## Filling a slot -/

/-- **`putItem` fills a hole** with a key that is not stored, in the bucket that the bit it registers selects. -/
theorem Arranged.putItem (h : Arranged H E cp (Function.update cp.content (b, s) none)) (hb : b < cp.buckets.size)
    (hfresh : ∀ w, ¬ Lib.Holds (Function.update cp.content (b, s) none) k w) {toFirstBucket : Bool}
    (hbit : cp.candidate H k (!toFirstBucket) = b) :
    Lib.Returns (fun cq => Frame cp cq ∧ cq.content = Function.update cp.content (b, s) (some (k, v)) ∧
      Arranged H E cq cq.content) (cp.putItem H P k v b s toFirstBucket) := by
  unfold ControlPlaneLudo.putItem
  refine Lib.Returns.bind (E.registerKey cp.locator k _) ?_
  intro locator hlocator cq hseed
  have hr := updateSeed_spec _ b cq hseed
  have hcontent : cq.content = Function.update cp.content (b, s) (some (k, v)) := by
    rw [hr.content]
    exact (content_fill hb s k v : ({ cp with locator := locator }.fill b s k v).content = _)
  have hput : cq.content = Function.update (Function.update cp.content (b, s) none) (b, s) (some (k, v)) := by
    rw [hcontent, Function.update_idem]
  have hframe : Frame cp ({ cp with locator := locator }.fill b s k v) :=
    (Frame.locator cp locator).trans (Frame.setBucket _ _ _)
  refine ⟨hframe.trans hr.frame, hcontent, h.reseed hframe ?_ hr ?_ ?_ ?_ ?_⟩
  · intro b' hb'
    exact congrArg CpBucket.seed (setBucket_get_of_ne { cp with locator := locator } _ hb')
  · rw [hput]
    exact h.once.put hfresh
  · intro c e _ he
    rwa [hr.content] at he
  · intro c e hc he
    have hne : c ≠ (b, s) := fun heq => hc (congrArg Prod.fst heq)
    rwa [hput, Function.update_of_ne hne] at he
  · intro b' t k' v' he
    rw [hput] at he
    show ∃ bit, E.bits locator k' = some bit ∧ _
    rw [hlocator]
    by_cases hc : (b', t) = (b, s)
    · rw [hc, Function.update_self] at he
      cases he
      exact ⟨_, Function.update_self .., hbit.trans (Prod.mk.inj hc).1.symm⟩
    · rw [Function.update_of_ne hc] at he
      have hk : k' ≠ k := by
        rintro rfl
        exact hfresh v' ⟨_, he⟩
      rw [Function.update_of_ne hk]
      exact h.located b' t k' v' he

/-- **`moveItem` fills a hole** with an entry whose other bucket the hole is in, and leaves a hole where that was. -/
theorem Arranged.moveItem {sBkt : Nat} {sSlot : Slot} (h : Arranged H E cp (Function.update cp.content (b, s) none))
    (hhole : (cp.content (b, s)).isSome = true) (hsrc : cp.content (sBkt, sSlot) = some (k, v)) (hne : b ≠ sBkt)
    {second : Bool} (hother : cp.candidate H k second = b) :
    Lib.Returns (fun cq => Frame cp cq ∧ cq.content = Function.update cp.content (b, s) (some (k, v)) ∧
      Arranged H E cq (Function.update cq.content (sBkt, sSlot) none) ∧
      ∀ x u, Lib.Holds (Function.update cq.content (sBkt, sSlot) none) x u
        ↔ Lib.Holds (Function.update cp.content (b, s) none) x u) (cp.moveItem H P sBkt sSlot b s) := by
  have hcell : (sBkt, sSlot) ≠ (b, s) := fun heq => hne (Prod.mk.inj heq).1.symm
  have hin : Function.update cp.content (b, s) none (sBkt, sSlot) = some (k, v) := by
    rw [Function.update_of_ne hcell, hsrc]
  obtain ⟨-, -, hkey, hval⟩ := content_eq_some.mp hsrc
  obtain ⟨⟨x, w⟩, hstale⟩ := Option.isSome_iff_exists.mp hhole
  obtain ⟨hb, hmask, -⟩ := content_eq_some.mp hstale
  obtain ⟨bit, hbits, hloc⟩ := h.located sBkt sSlot k v hin
  -- the hole is in the bucket of the other bit
  have hflip : second = !bit := by
    by_contra hsame
    have : second = bit := by
      revert hsame
      cases second <;> cases bit <;> simp
    rw [this, hloc] at hother
    exact hne hother.symm
  rw [moveItem_eq hkey hval]
  refine Lib.Returns.bind (E.toggleInOthello cp.locator k bit hbits) ?_
  intro locator hlocator cq hseed
  have hr := updateSeed_spec _ b cq hseed
  have hcontent : cq.content = Function.update cp.content (b, s) (some (k, v)) := by
    rw [hr.content, ← content_overwrite hb hmask]
    rfl
  -- the entries in place move, and the slot they leave is the hole
  have hmove : Lib.move (Function.update cp.content (b, s) none) (sBkt, sSlot) (b, s)
      = Function.update cq.content (sBkt, sSlot) none := by
    unfold Lib.move
    rw [hin, Function.update_idem, hcontent]
  have hentry : ∀ c e, Function.update cq.content (sBkt, sSlot) none c = some e →
      c ≠ (sBkt, sSlot) ∧ cq.content c = some e := by
    intro c e he
    have hc : c ≠ (sBkt, sSlot) := by
      rintro rfl
      simp at he
    exact ⟨hc, by rwa [Function.update_of_ne hc] at he⟩
  have hframe : Frame cp { cp.overwrite b s k v with locator := locator } :=
    (Frame.setBucket _ _ _).trans (Frame.locator _ locator)
  refine ⟨hframe.trans hr.frame, hcontent, h.reseed hframe ?_ hr ?_ ?_ ?_ ?_, ?_⟩
  · intro b' hb'
    exact congrArg CpBucket.seed (setBucket_get_of_ne cp _ hb')
  · rw [← hmove]
    exact h.once.move hcell
  · intro c e _ he
    rw [← hr.content]
    exact (hentry c e he).2
  · intro c e hc he
    have hne' : c ≠ (b, s) := fun heq => hc (congrArg Prod.fst heq)
    have hin' := (hentry c e he).2
    rw [hcontent, Function.update_of_ne hne'] at hin'
    rw [Function.update_of_ne hne', hin']
  · intro b' t k' v' he
    obtain ⟨hne', hin'⟩ := hentry _ _ he
    show ∃ bit, E.bits locator k' = some bit ∧ _
    rw [hlocator]
    by_cases hc : (b', t) = (b, s)
    · rw [hcontent, hc, Function.update_self] at hin'
      cases hin'
      exact ⟨second, by rw [hflip, Function.update_self], hother.trans (Prod.mk.inj hc).1.symm⟩
    · rw [hcontent, Function.update_of_ne hc] at hin'
      have hold : Function.update cp.content (b, s) none (b', t) = some (k', v') := by
        rw [Function.update_of_ne hc, hin']
      have hk : k' ≠ k := by
        rintro rfl
        exact hne' (h.once _ _ _ _ _ hold hin)
      rw [Function.update_of_ne hk]
      exact h.located b' t k' v' hold
  · intro x u
    rw [← hmove]
    exact h.once.holds_move (Function.update_self ..) hcell

end Arranged

end ControlPlaneLudo

end Outback
