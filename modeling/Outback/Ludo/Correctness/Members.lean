import Outback.Ludo.Correctness.Buckets

/-!
# `Ludo.Correctness.Members` — finding, changing and removing a key

Where the entries are in place, `locate` finds exactly the keys of `toMap` (`Arranged.locate_eq_some_iff`). `changeValue`
and `remove` write to the slot that `locate` finds, and to nothing where it finds none; so they keep the entries in place
and change the map at their key only.
-/

namespace Outback

namespace ControlPlaneLudo

variable {V : Type} {H : HashFn}

section Locate

variable {P : Locator} {E : P.Exact} {cp : ControlPlaneLudo V P.State} {b : Nat} {s : Slot} {k : U64} {v w : V}

/-- What `locate` finds is the slot that holds the key. -/
theorem Arranged.locate_eq_some_iff (h : Arranged H E cp cp.content) :
    cp.locate H k = some (b, s) ↔ ∃ v, cp.content (b, s) = some (k, v) := by
  have hslot : ∀ {b s}, cp.locate H k = some (b, s) → ∃ v, cp.content (b, s) = some (k, v) := by
    intro b s hloc
    obtain ⟨second, hcand, hmask, hkey⟩ := locate_eq_some hloc
    refine ⟨_, content_eq_some.mpr ⟨?_, hmask, hkey, rfl⟩⟩
    rw [← hcand]
    exact h.candidate_lt k second
  constructor
  · exact hslot
  · rintro ⟨v, hv⟩
    obtain ⟨bit, -, hcand⟩ := h.located b s k v hv
    obtain ⟨-, hmask, hkey, -⟩ := content_eq_some.mp hv
    have hsome : (cp.locate H k).isSome = true := locate_isSome (by rw [hcand]; exact hmask) (by rw [hcand]; exact hkey)
    obtain ⟨⟨b', s'⟩, hloc⟩ := Option.isSome_iff_exists.mp hsome
    obtain ⟨v', hv'⟩ := hslot hloc
    rw [hloc, h.once _ _ _ _ _ hv' hv]

theorem Arranged.isMember_iff (h : Arranged H E cp cp.content) : cp.isMember H k = true ↔ ∃ v, Lib.Holds cp.content k v := by
  rw [isMember_eq_locate, Option.isSome_iff_exists]
  constructor
  · rintro ⟨⟨b, s⟩, hloc⟩
    obtain ⟨v, hv⟩ := h.locate_eq_some_iff.mp hloc
    exact ⟨v, _, hv⟩
  · rintro ⟨v, ⟨b, s⟩, hv⟩
    exact ⟨(b, s), h.locate_eq_some_iff.mpr ⟨v, hv⟩⟩

/-- `isMember` tells the keys of the map. -/
theorem Arranged.isMember_eq (h : Arranged H E cp cp.content) (k : U64) : cp.isMember H k = (cp.toMap k).isSome := by
  rw [Bool.eq_iff_iff, h.isMember_iff, Option.isSome_iff_exists]
  simp only [toMap_eq_some_iff h.once]

/-! ## `changeValue` -/

theorem changeValue_eq (cp : ControlPlaneLudo V P.State) (k : U64) (v : V) : cp.changeValue H k v =
    match cp.locate H k with
    | some (b, s) => cp.setBucket b { cp.buckets.get b with values := Function.update (cp.buckets.get b).values s v }
    | none => cp := by
  unfold ControlPlaneLudo.changeValue locate
  cases findSlot (cp.buckets.get (cp.candidate H k false)) k with
  | some s => rfl
  | none =>
      cases findSlot (cp.buckets.get (cp.candidate H k true)) k with
      | some s => rfl
      | none => rfl

/-- Of a key that is not stored. -/
theorem changeValue_absent (hmem : cp.isMember H k = false) (v : V) : cp.changeValue H k v = cp := by
  rw [isMember_eq_locate, Option.isSome_eq_false_iff, Option.isNone_iff_eq_none] at hmem
  rw [changeValue_eq, hmem]

/-- Of a key that is stored: its entry changes, and nothing else. -/
theorem Arranged.changeValue_spec (h : Arranged H E cp cp.content) (hc : cp.content (b, s) = some (k, w)) (v : V) :
    Frame cp (cp.changeValue H k v) ∧
      (cp.changeValue H k v).content = Function.update cp.content (b, s) (some (k, v)) ∧
      Arranged H E (cp.changeValue H k v) (cp.changeValue H k v).content := by
  obtain ⟨hb, hmask, hkey, -⟩ := content_eq_some.mp hc
  rw [changeValue_eq, h.locate_eq_some_iff.mpr ⟨w, hc⟩]
  dsimp only
  generalize hbucket : ({ cp.buckets.get b with values := Function.update (cp.buckets.get b).values s v } : CpBucket V)
    = bucket
  have hcontent : (cp.setBucket b bucket).content = Function.update cp.content (b, s) (some (k, v)) := by
    subst hbucket
    apply content_setBucket hb
    · exact hmask
    · exact hkey
    · exact Function.update_self ..
    · exact fun t _ => rfl
    · exact fun t _ => rfl
    · exact fun t ht => Function.update_of_ne ht ..
  have hseed : ∀ b', ((cp.setBucket b bucket).buckets.get b').seed = (cp.buckets.get b').seed := by
    intro b'
    by_cases hb' : b' = b
    · subst hb'
      rw [setBucket_get_self, ← hbucket]
    · rw [setBucket_get_of_ne cp bucket hb']
  -- an entry is where it was, with the key that it had
  have hold : ∀ c x u, Function.update cp.content (b, s) (some (k, v)) c = some (x, u) →
      ∃ u', cp.content c = some (x, u') := by
    intro c x u he
    by_cases hne : c = (b, s)
    · subst hne
      rw [Function.update_self] at he
      cases he
      exact ⟨w, hc⟩
    · rw [Function.update_of_ne hne] at he
      exact ⟨u, he⟩
  refine ⟨Frame.setBucket cp b bucket, hcontent, h.pow, h.size, ?_, ?_, ?_⟩
  · rw [hcontent]
    exact h.once.set hc
  · intro b' t x u he
    rw [hcontent] at he
    obtain ⟨u', he'⟩ := hold _ x u he
    exact h.located b' t x u' he'
  · intro b' t t' x u x' u' he he' hslot
    rw [hcontent] at he he'
    rw [hseed b'] at hslot
    obtain ⟨y, hy⟩ := hold _ x u he
    obtain ⟨y', hy'⟩ := hold _ x' u' he'
    exact h.separated b' t t' x y x' y' hy hy' hslot

end Locate

/-! ## `remove` -/

section Remove

variable {P : RemovableLocator} {E : P.Exact} {cp : ControlPlaneLudo V P.State} {b : Nat} {s : Slot} {k : U64} {w : V}

theorem remove_eq (cp : ControlPlaneLudo V P.State) (k : U64) : cp.remove H P k =
    match cp.locate H k with
    | some (b, s) => cp.removeInBucket P k b s
    | none => .ok cp := by
  unfold ControlPlaneLudo.remove locate
  cases findSlot (cp.buckets.get (cp.candidate H k false)) k with
  | some s => rfl
  | none =>
      cases findSlot (cp.buckets.get (cp.candidate H k true)) k with
      | some s => rfl
      | none => rfl

theorem remove_absent (hmem : cp.isMember H k = false) : cp.remove H P k = .ok cp := by
  rw [isMember_eq_locate, Option.isSome_eq_false_iff, Option.isNone_iff_eq_none] at hmem
  rw [remove_eq, hmem]

/-- A key that is stored is removed with its slot and its bit, and `nKeys` is one less. -/
theorem Arranged.remove_spec (h : Arranged H E.toExact cp cp.content) (hc : cp.content (b, s) = some (k, w)) :
    Lib.Returns (fun cq => cq.nKeys = cp.prevKeys ∧
      cq.content = Function.update cp.content (b, s) none ∧ Arranged H E.toExact cq cq.content) (cp.remove H P k) := by
  rw [remove_eq, h.locate_eq_some_iff.mpr ⟨w, hc⟩]
  dsimp only
  unfold removeInBucket
  generalize cp.prevKeys = n
  refine Lib.Returns.bind (E.remove cp.locator k) ?_
  intro locator hlocator
  apply Lib.Returns.ok
  generalize hcq : ({ cp.mark b s false with locator := locator, nKeys := n } : ControlPlaneLudo V P.State) = cq
  have hcontent : cq.content = Function.update cp.content (b, s) none := by
    rw [← content_unmark, ← hcq]
    funext c
    exact content_congr rfl rfl rfl rfl
  have hold : ∀ c e, cq.content c = some e → cp.content c = some e := by
    intro c e he
    rw [hcontent] at he
    by_cases hne : c = (b, s)
    · subst hne
      simp at he
    · rwa [Function.update_of_ne hne] at he
  have hseed : ∀ b', (cq.buckets.get b').seed = (cp.buckets.get b').seed := by
    intro b'
    rw [← hcq]
    by_cases hb' : b' = b
    · subst hb'
      show ((cp.mark b' s false).buckets.get b').seed = _
      unfold mark
      rw [setBucket_get_self]
    · exact congrArg CpBucket.seed (mark_get_of_ne cp s false hb')
  refine ⟨by rw [← hcq], hcontent, ?_, ?_, ?_, ?_, ?_⟩
  · rw [← hcq]
    exact h.pow
  · rw [← hcq]
    exact h.size
  · rw [hcontent]
    exact h.once.erase (b, s)
  · intro b' t x u he
    have hne : x ≠ k := by
      rintro rfl
      have hcell := h.once _ _ _ _ _ (hold _ _ he) hc
      rw [hcell, hcontent, Function.update_self] at he
      cases he
    obtain ⟨bit, hbit, hcand⟩ := h.located b' t x u (hold _ _ he)
    refine ⟨bit, ?_, ?_⟩
    · rw [← hcq]
      show E.bits locator x = some bit
      rw [hlocator, Function.update_of_ne hne, hbit]
    · rw [← hcq]
      exact hcand
  · intro b' t t' x u x' u' he he' hslot
    rw [hseed b'] at hslot
    exact h.separated b' t t' x u x' u' (hold _ _ he) (hold _ _ he') hslot

end Remove

end ControlPlaneLudo

end Outback
