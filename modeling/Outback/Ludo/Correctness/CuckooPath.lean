import Outback.Ludo.Correctness.Members
import Outback.Ludo.Correctness.Search

/-!
# `Ludo.Correctness.CuckooPath` — moving keys back along a path

`CuckooInsert` follows the path that it found from the free slot back to a root: the key of each cell moves to the cell
before it, where a hole waits for it, and leaves the next hole behind. Each move needs that the key which is *now* in a
cell has its other bucket at the cell before (`Feeds`). The search saw this of the keys that were there then. A path may
come back to a cell it has been to; then the cell holds a key that came from the cell between, and that one's other
bucket is still the right one as long as the two places on the path are two moves apart.

Farther apart they are never (`Apart`): a path has five cells at most, its first bucket has a free slot and the others
are full, and if the second and the last were one cell, then the first and the fourth bucket would be the other bucket
of one key (`apart_of_feeds`).
-/

namespace Outback

section Chain

variable (candidate : U64 → Bool → Nat) (keys : Nat → Slot → U64) (r₀ r₁ : Nat) (visited : List CuckooPathEntry)

/-- The cells from a slot of an entry back to a root. -/
inductive Chain : CuckooPathEntry → Slot → List (Nat × Slot) → Prop where
  | root (first : Bool) (s : Slot) : Chain ⟨if first then r₀ else r₁, 1, none⟩ s [(if first then r₀ else r₁, s)]
  | link {e : CuckooPathEntry} {s : Slot} {p : Nat} {ps : Slot} {pe : CuckooPathEntry} {cs : List (Nat × Slot)}
      (h : Linked candidate keys visited e p ps pe)
      (hroot : pe.parent = none → pe.bucket = if p == 0 then r₀ else r₁) (rest : Chain pe ps cs) :
      Chain e s ((e.bucket, s) :: cs)

variable {candidate keys r₀ r₁ visited} {occupied : Nat → Slot → Bool} {e : CuckooPathEntry} {s : Slot}
  {cs : List (Nat × Slot)} {queue : List CuckooPathEntry} {first : Bool}

/-- Every entry has such a path, by induction on its depth. -/
theorem Trace.chain (h : Trace candidate occupied keys r₀ r₁ queue visited)
    (ho : Origin candidate keys r₀ r₁ visited first e) (s : Slot) : ∃ cs, Chain candidate keys r₀ r₁ visited e s cs := by
  generalize hd : e.depth = d
  induction d generalizing e first s with
  | zero =>
      cases ho with
      | root he =>
          subst he
          cases hd
      | linked hl => exact absurd (hl.depth.symm.trans hd) (Nat.succ_ne_zero _)
  | succ d ih =>
      cases ho with
      | root he =>
          subst he
          exact ⟨_, .root first s⟩
      | @linked p ps pe hl =>
          have hpe := h.entries p pe hl.index
          obtain ⟨cs, hcs⟩ := ih hpe ps (Nat.succ.inj (hl.depth.symm.trans hd))
          refine ⟨_, .link hl (fun hnone => ?_) hcs⟩
          cases hpe with
          | root he => rw [he]
          | linked hl' =>
              rw [hl'.parent] at hnone
              cases hnone

theorem Chain.length_eq (h : Chain candidate keys r₀ r₁ visited e s cs) : cs.length = e.depth := by
  induction h with
  | root first s => rfl
  | link hl _ _ ih => rw [List.length_cons, ih, hl.depth]

/-- Its first cell is the slot, and all others are in full buckets. -/
theorem Chain.head (h : Chain candidate keys r₀ r₁ visited e s cs) : ∃ tail, cs = (e.bucket, s) :: tail := by
  cases h with
  | root first s => exact ⟨[], rfl⟩
  | link => exact ⟨_, rfl⟩

theorem Chain.tail_full (hfull : ∀ e ∈ visited, findFreeSlot (occupied e.bucket) = none)
    (h : Chain candidate keys r₀ r₁ visited e s cs) : ∀ c ∈ cs.tail, findFreeSlot (occupied c.1) = none := by
  induction h with
  | root first s => exact fun c hc => absurd hc List.not_mem_nil
  | @link e s p ps pe cs hl _ hrest ih =>
      obtain ⟨tail, rfl⟩ := hrest.head
      intro c hc
      rcases List.mem_cons.mp hc with rfl | hc
      · exact hfull pe (List.mem_of_getElem? hl.index)
      · exact ih c hc

/-- An entry without a parent is at depth one. -/
theorem Chain.depth_of_root (h : Chain candidate keys r₀ r₁ visited e s cs) (hroot : e.parent = none) : e.depth = 1 := by
  cases h with
  | root first s => rfl
  | link hl =>
      rw [hl.parent] at hroot
      cases hroot

end Chain

namespace ControlPlaneLudo

variable {V : Type}

/-- The key in each cell has its other bucket at the cell before it. -/
def Feeds {L : Type} (H : HashFn) (cp : ControlPlaneLudo V L) : List (Nat × Slot) → Prop
  | c :: c' :: cs =>
      (c.1 ≠ c'.1 ∧ ∃ k v second, cp.content c' = some (k, v) ∧ cp.candidate H k second = c.1) ∧ Feeds H cp (c' :: cs)
  | _ => True

/-- A cell is met again only two moves on. -/
def Apart : List (Nat × Slot) → Prop
  | c :: c₁ :: c₂ :: cs => c ∉ cs ∧ Apart (c₁ :: c₂ :: cs)
  | _ => True

section Path

variable {H : HashFn} {P : Locator} {E : P.Exact} {cp cq : ControlPlaneLudo V P.State} {c c' : Nat × Slot}
  {cs : List (Nat × Slot)} {e pe : CuckooPathEntry} {s ps : Slot} {p : Nat} {visited : List CuckooPathEntry}

theorem Apart.tail (h : Apart (c :: cs)) : Apart cs := by
  match cs, h with
  | [], _ => trivial
  | [_], _ => trivial
  | _ :: _ :: _, h => exact h.2

/-- Cells behind the first one hold what they held. -/
theorem Feeds.congr (h : Feeds H cp (c :: cs)) (hframe : Frame cp cq) (hsame : ∀ d ∈ cs, cq.content d = cp.content d) :
    Feeds H cq (c :: cs) := by
  induction cs generalizing c with
  | nil => trivial
  | cons d cs ih =>
      obtain ⟨⟨hne, k, v, second, hd, hcand⟩, hrest⟩ := h
      refine ⟨⟨hne, k, v, second, ?_, ?_⟩, ih hrest fun d' hd' => hsame d' (List.mem_cons_of_mem d hd')⟩
      · rw [hsame d List.mem_cons_self, hd]
      · rw [hframe.candidate, hcand]

/-- One move: the key of `c'` is in `c` now. Where the path meets `c` again, this key leads on to `c'`. -/
theorem Feeds.move (h : Feeds H cp (c :: c' :: cs)) (hapart : Apart (c :: c' :: cs)) (hframe : Frame cp cq) {k : U64}
    {v : V} {bit : Bool} (hcontent : cq.content = Function.update cp.content c (some (k, v)))
    (hown : cp.candidate H k bit = c'.1) : Feeds H cq (c' :: cs) := by
  obtain ⟨⟨hne, -⟩, hrest⟩ := h
  cases cs with
  | nil => trivial
  | cons d cs =>
      obtain ⟨⟨hne', x, u, second, hd, hcand⟩, hrest⟩ := hrest
      have hsame : ∀ d' ∈ cs, cq.content d' = cp.content d' := by
        intro d' hd'
        have hdc : d' ≠ c := by
          rintro rfl
          exact hapart.1 hd'
        rw [hcontent, Function.update_of_ne hdc]
      refine ⟨⟨hne', ?_⟩, hrest.congr hframe hsame⟩
      by_cases hdc : d = c
      · subst hdc
        exact ⟨k, v, bit, by rw [hcontent, Function.update_self], by rw [hframe.candidate, hown]⟩
      · exact ⟨x, u, second, by rw [hcontent, Function.update_of_ne hdc, hd], by rw [hframe.candidate, hcand]⟩

/-- The keys of a path that the search found. -/
theorem feeds_of_chain {r₀ r₁ : Nat} {keys : Nat → Slot → U64} (hkeys : keys = fun b => (cp.buckets.get b).keys)
    (h : Chain (cp.candidate H) keys r₀ r₁ visited e s cs)
    (hfull : ∀ e ∈ visited, findFreeSlot (cp.buckets.get e.bucket).occupiedMask = none)
    (hlt : ∀ e ∈ visited, e.bucket < cp.buckets.size) : Feeds H cp cs := by
  induction h with
  | root first s => trivial
  | @link e s p ps pe cs hl _ hrest ih =>
      obtain ⟨tail, rfl⟩ := hrest.head
      obtain ⟨second, hsecond⟩ := hl.key
      have hmem := List.mem_of_getElem? hl.index
      rw [hkeys] at hsecond
      refine ⟨⟨hl.other, _, _, second, content_eq_some.mpr ⟨hlt pe hmem, ?_, rfl, rfl⟩, hsecond⟩, ih⟩
      exact findFreeSlot_eq_none.mp (hfull pe hmem) ps

/-- **No cell of a path is met again farther on.** -/
theorem apart_of_feeds (h : Arranged H E cp cp.content) (hfeeds : Feeds H cp (c :: cs)) (hlen : cs.length ≤ 4)
    (hfree : (findFreeSlot (cp.buckets.get c.1).occupiedMask).isSome = true)
    (hfull : ∀ d ∈ cs, findFreeSlot (cp.buckets.get d.1).occupiedMask = none) : Apart (c :: cs) := by
  have hne : ∀ d ∈ cs, d.1 ≠ c.1 := by
    intro d hd heq
    rw [← heq, hfull d hd] at hfree
    cases hfree
  match cs, hfeeds, hlen with
  | [], _, _ => trivial
  | [_], _, _ => trivial
  | [_, _], _, _ => exact ⟨List.not_mem_nil, trivial⟩
  | [c₁, c₂, c₃], _, _ =>
      refine ⟨fun hmem => ?_, List.not_mem_nil, trivial⟩
      rw [List.mem_singleton] at hmem
      exact hne c₃ (by simp) (congrArg Prod.fst hmem).symm
  | [c₁, c₂, c₃, c₄], hfeeds, _ =>
      obtain ⟨⟨hne₁, k, v, second, hk, hcand⟩, -, -, ⟨hne₄, k', v', second', hk', hcand'⟩, -⟩ := hfeeds
      refine ⟨fun hmem => ?_, fun hmem => ?_, List.not_mem_nil, trivial⟩
      · rcases List.mem_cons.mp hmem with hmem | hmem
        · exact hne c₃ (by simp) (congrArg Prod.fst hmem).symm
        · rw [List.mem_singleton] at hmem
          exact hne c₄ (by simp) (congrArg Prod.fst hmem).symm
      · -- one key, whose other bucket is both the first and the fourth
        rw [List.mem_singleton] at hmem
        subst hmem
        rw [hk] at hk'
        cases hk'
        obtain ⟨bit, -, hown⟩ := h.located c₁.1 c₁.2 k v hk
        have hother : ∀ j, cp.candidate H k j ≠ c₁.1 → j = !bit := by
          intro j hj
          by_contra hsame
          have : j = bit := by
            revert hsame
            cases j <;> cases bit <;> simp
          exact hj (this ▸ hown)
        have hj := hother second (by rw [hcand]; exact hne₁)
        have hj' := hother second' (by rw [hcand']; exact hne₄)
        exact hne c₃ (by simp) (by rw [← hcand', hj', ← hj, hcand])

/-! ## Following the path -/

theorem followPath_link {cp : ControlPlaneLudo V P.State} (hparent : e.parent = some (p, ps)) (hindex : visited[p]? = some pe)
    (n : Nat) (s : Slot) (toFirstBucket : Bool) : followPath H P visited (n + 1) cp e s toFirstBucket =
      cp.moveItem H P pe.bucket ps e.bucket s >>= fun cp =>
        followPath H P visited n cp pe ps (if e.depth = 2 then p == 0 else toFirstBucket) := by
  conv_lhs => unfold followPath
  rw [hparent]
  dsimp only
  rw [hindex]

/-- **Following a path** from a hole moves the hole to a root, and all entries stay in place. -/
theorem followPath_spec {k : U64} {r₀ r₁ : Nat} {keys : Nat → Slot → U64} {cand : U64 → Bool → Nat}
    (hchain : Chain cand keys r₀ r₁ visited e s cs) {n : Nat} (hn : e.depth ≤ n)
    (h : Arranged H E cp (Function.update cp.content (e.bucket, s) none))
    (hhole : (cp.content (e.bucket, s)).isSome = true) (hfeeds : Feeds H cp cs) (hapart : Apart cs)
    {toFirstBucket : Bool} (htf : e.parent = none → cp.candidate H k (!toFirstBucket) = e.bucket)
    (hr₀ : cp.candidate H k false = r₀) (hr₁ : cp.candidate H k true = r₁) :
    Lib.Returns (fun r => Frame cp r.1 ∧ (r.1.content (r.2.1.bucket, r.2.2.1)).isSome = true ∧
      r.1.candidate H k (!r.2.2.2) = r.2.1.bucket ∧
      Arranged H E r.1 (Function.update r.1.content (r.2.1.bucket, r.2.2.1) none) ∧
      ∀ x u, Lib.Holds (Function.update r.1.content (r.2.1.bucket, r.2.2.1) none) x u
        ↔ Lib.Holds (Function.update cp.content (e.bucket, s) none) x u)
      (followPath H P visited n cp e s toFirstBucket) := by
  induction hchain generalizing cp n toFirstBucket with
  | root first s =>
      obtain ⟨m, rfl⟩ : ∃ m, n = m + 1 := ⟨n - 1, (Nat.sub_add_cancel hn).symm⟩
      apply Lib.Returns.ok
      exact ⟨Frame.refl cp, hhole, htf rfl, h, fun _ _ => Iff.rfl⟩
  | @link e s p ps pe cs hl hroot hrest ih =>
      obtain ⟨m, rfl⟩ : ∃ m, n = m + 1 := by
        have := hl.depth
        exact ⟨n - 1, by omega⟩
      obtain ⟨tail, rfl⟩ := hrest.head
      obtain ⟨⟨hne, x, u, second, hsrc, hcand⟩, -⟩ := id hfeeds
      have hcell : (pe.bucket, ps) ≠ (e.bucket, s) := fun heq => hne (Prod.mk.inj heq).1.symm
      obtain ⟨bit, -, hown⟩ := h.located pe.bucket ps x u (by rw [Function.update_of_ne hcell, hsrc])
      rw [followPath_link hl.parent hl.index]
      refine Lib.Returns.bind (h.moveItem hhole hsrc hne hcand) ?_
      rintro cq ⟨hframe, hcontent, harranged, hholds⟩
      have hflag : pe.parent = none →
          cq.candidate H k (!(if e.depth = 2 then p == 0 else toFirstBucket)) = pe.bucket := by
        intro hnone
        have hdepth : e.depth = 2 := by rw [hl.depth, hrest.depth_of_root hnone]
        rw [if_pos hdepth, hroot hnone, hframe.candidate]
        cases p == 0 with
        | false => exact hr₁
        | true => exact hr₀
      have hhole' : (cq.content (pe.bucket, ps)).isSome = true := by
        rw [hcontent, Function.update_of_ne hcell, hsrc]
        rfl
      have hpe : pe.depth ≤ m := by
        have := hl.depth
        omega
      intro r hr
      obtain ⟨hf, hsome, htarget, ha, hh⟩ := ih hpe harranged hhole' (hfeeds.move hapart hframe hcontent hown) hapart.tail
        hflag (by rw [hframe.candidate, hr₀]) (by rw [hframe.candidate, hr₁]) r hr
      exact ⟨hframe.trans hf, hsome, htarget, ha, fun y w => (hh y w).trans (hholds y w)⟩

end Path

end ControlPlaneLudo

end Outback
