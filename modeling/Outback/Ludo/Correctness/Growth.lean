import Outback.Ludo.Correctness.Placing

/-!
# `Ludo.Correctness.Growth` — growing the table in place

`powerSize` splits every bucket of a table of `2 ^ j` buckets among the `2 ^ (m - j)` buckets of the larger one that have
its index modulo `2 ^ j` (`fastMapToBuckets_mod`). Slot by slot, an entry stays or moves into the same slot of the bucket
that its bit selects now; that slot is free, as only this one cell can ever fill it. `spread` is what each slot holds
when the cells of a list have been split, and `Growing` the loop invariant.
-/

namespace Outback

/-! ## Bucket numbers and sizes -/

/-- The candidates in a smaller table are those of a larger one, reduced to its size. -/
theorem fastMapToBuckets_mod (x : U64) {j m : Nat} (h : j ≤ m) (second : Bool) :
    fastMapToBuckets x (2 ^ m) second % 2 ^ j = fastMapToBuckets x (2 ^ j) second := by
  have hmod : ∀ y : Nat, (y &&& (2 ^ m - 1)) % 2 ^ j = y &&& (2 ^ j - 1) := by
    intro y
    rw [Nat.and_two_pow_sub_one_eq_mod, Nat.and_two_pow_sub_one_eq_mod]
    exact Nat.mod_mod_of_dvd y (Nat.pow_dvd_pow 2 h)
  unfold fastMapToBuckets
  cases second with
  | false => exact hmod _
  | true => exact hmod _

/-- The sizes are powers of two. -/
theorem LoadFactor.nextNbuckets_eq {lf : LoadFactor} {limit target : Nat} :
    Lib.Returns (fun n => ∃ j, n = 2 ^ j) (lf.nextNbuckets limit target) := by
  unfold LoadFactor.nextNbuckets
  split
  · rename_i n hn
    apply Lib.Returns.ok
    obtain ⟨i, -, rfl⟩ := List.mem_map.mp (List.mem_of_find?_eq_some hn)
    exact ⟨6 + i, by rw [Nat.pow_add]⟩
  · exact Lib.Returns.error _

namespace ControlPlaneLudo

variable {V : Type} {H : HashFn} {P : Locator} {E : P.Exact} {cp cq g : ControlPlaneLudo V P.State}

/-! ## The state between two slots -/

section Spread

variable (H E cp) (next : Nat)

/-- The bucket of a key in a table of size `next`, by the bit it has. -/
def newBucket (k : U64) : Nat := fastMapToBuckets (H cp.hSeed k) next ((E.bits cp.locator k).getD false)

/-- What a slot of the larger table holds when the cells in `done` have been split. -/
def spread (done : List (Nat × Slot)) (c : Nat × Slot) : Option (U64 × V) :=
  (cp.content (c.1 % cp.numBuckets, c.2)).filter fun e =>
    (if (c.1 % cp.numBuckets, c.2) ∈ done then newBucket H E cp next e.1 else c.1 % cp.numBuckets) = c.1

/-- `powerSize` when it has split the cells in `done`, from the enlarged table `g`. -/
structure Growing (g : ControlPlaneLudo V P.State) (done : List (Nat × Slot)) (cur : ControlPlaneLudo V P.State) :
    Prop where
  frame : Frame g cur
  locator : cur.locator = g.locator
  content : cur.content = spread H E cp next done
  separated : ∀ b s t k v k' v', cur.content (b, s) = some (k, v) → cur.content (b, t) = some (k', v') →
    seedSlot H (cur.buckets.get b).seed k = seedSlot H (cur.buckets.get b).seed k' → s = t

/-- The enlarged table that `powerSize` starts from. -/
structure Enlarged (g : ControlPlaneLudo V P.State) : Prop where
  numBuckets : g.numBuckets = next
  hSeed : g.hSeed = cp.hSeed
  size : g.buckets.size = next
  bits : E.bits g.locator = E.bits cp.locator
  content : g.content = cp.content
  seeds : ∀ b, b < cp.numBuckets → (g.buckets.get b).seed = (cp.buckets.get b).seed

end Spread

/-! ## One slot after another -/

section Split

variable {next j m : Nat} {done : List (Nat × Slot)} {b : Nat} {s : Slot} {k : U64} {v : V}

theorem spread_of_mem {c : Nat × Slot} (h : (c.1 % cp.numBuckets, c.2) ∈ done) : spread H E cp next done c
    = (cp.content (c.1 % cp.numBuckets, c.2)).filter fun e => newBucket H E cp next e.1 = c.1 := by
  unfold spread
  simp only [if_pos h]

theorem spread_of_not_mem {c : Nat × Slot} (h : (c.1 % cp.numBuckets, c.2) ∉ done) : spread H E cp next done c
    = (cp.content (c.1 % cp.numBuckets, c.2)).filter fun _ => c.1 % cp.numBuckets = c.1 := by
  unfold spread
  simp only [if_neg h]

theorem Arranged.newBucket_mod (h : Arranged H E cp cp.content) (hj : cp.numBuckets = 2 ^ j) (hjm : j ≤ m)
    (hk : cp.content (b, s) = some (k, v)) : newBucket H E cp (2 ^ m) k % cp.numBuckets = b := by
  obtain ⟨bit, hbit, hcand⟩ := h.located b s k v hk
  unfold newBucket
  rw [hbit, hj, Option.getD_some, fastMapToBuckets_mod _ hjm, ← hcand]
  unfold candidate
  rw [h.size, hj]

/-- Before the loop every entry is where it was. -/
theorem Arranged.growing_start (h : Arranged H E cp cp.content) (hg : Enlarged E cp next g) :
    Growing H E cp next g [] g where
  frame := Frame.refl g
  locator := rfl
  content := by
    rw [hg.content]
    funext c
    obtain ⟨b, s⟩ := c
    rw [spread_of_not_mem List.not_mem_nil]
    dsimp only
    by_cases hb : b < cp.numBuckets
    · rw [Nat.mod_eq_of_lt hb]
      cases hc : cp.content (b, s) with
      | none => rfl
      | some e => simp [Option.filter_some]
    · have hpos : 0 < cp.numBuckets := h.size ▸ h.size_pos
      have hne : b % cp.numBuckets ≠ b := fun heq => hb (heq ▸ Nat.mod_lt b hpos)
      rw [content_eq_none.mpr (fun hlt => absurd (h.size ▸ hlt) hb)]
      simp [hne]
  separated := by
    intro b s t k v k' v' hs ht hslot
    rw [hg.content] at hs ht
    have hb : b < cp.numBuckets := h.size ▸ (content_eq_some.mp hs).1
    rw [hg.seeds b hb] at hslot
    exact h.separated b s t k v k' v' hs ht hslot

/-- **One turn of `powerSize`.** -/
theorem Arranged.growing_step (h : Arranged H E cp cp.content) (hj : cp.numBuckets = 2 ^ j) (hjm : j ≤ m)
    (hg : Enlarged E cp (2 ^ m) g) (hb : b < cp.numBuckets) (hnew : (b, s) ∉ done)
    (hcur : Growing H E cp (2 ^ m) g done cq) :
    Lib.Returns (Growing H E cp (2 ^ m) g (done ++ [(b, s)])) (cq.powerSlot H P (b, s)) := by
  have hle : cp.numBuckets ≤ 2 ^ m := by
    rw [hj]
    exact Nat.pow_le_pow_right (by decide) hjm
  have hsize : cq.buckets.size = 2 ^ m := hcur.frame.size.trans hg.size
  have hmod : b % cp.numBuckets = b := Nat.mod_eq_of_lt hb
  -- the slot of its own cell, still to be split
  have hhere : cq.content (b, s) = cp.content (b, s) := by
    rw [hcur.content, spread_of_not_mem (by dsimp only; rwa [hmod])]
    dsimp only
    rw [hmod]
    cases hc : cp.content (b, s) with
    | none => rfl
    | some e => simp [Option.filter_some]
  -- the slots of other cells do not change
  have hother : ∀ c : Nat × Slot, (c.1 % cp.numBuckets, c.2) ≠ (b, s) →
      spread H E cp (2 ^ m) (done ++ [(b, s)]) c = spread H E cp (2 ^ m) done c := by
    intro c hc
    unfold spread
    simp only [List.mem_append, List.mem_singleton, hc, or_false]
  -- and those of this one hold its entry in the bucket of its bit
  have hmine : ∀ c : Nat × Slot, (c.1 % cp.numBuckets, c.2) = (b, s) → spread H E cp (2 ^ m) (done ++ [(b, s)]) c
      = (cp.content (b, s)).filter fun e => newBucket H E cp (2 ^ m) e.1 = c.1 := by
    intro c hc
    have hmem : (c.1 % cp.numBuckets, c.2) ∈ done ++ [(b, s)] := by
      rw [hc]
      exact List.mem_append_right done (List.mem_singleton.mpr rfl)
    rw [spread_of_mem hmem, hc]
  have hpending : ∀ c : Nat × Slot, (c.1 % cp.numBuckets, c.2) = (b, s) → spread H E cp (2 ^ m) done c
      = (cp.content (b, s)).filter fun _ => b = c.1 := by
    intro c hc
    have hmem : (c.1 % cp.numBuckets, c.2) ∉ done := by
      rw [hc]
      exact hnew
    rw [spread_of_not_mem hmem, hc, (Prod.mk.inj hc).1]
  unfold powerSlot
  dsimp only
  by_cases hmask : (cq.buckets.get b).occupiedMask s = false
  · rw [if_pos hmask]
    apply Lib.Returns.ok
    refine ⟨hcur.frame, hcur.locator, ?_, hcur.separated⟩
    have hnone : cp.content (b, s) = none := by
      rw [← hhere]
      exact content_eq_none.mpr fun _ => hmask
    rw [hcur.content]
    funext c
    by_cases hc : (c.1 % cp.numBuckets, c.2) = (b, s)
    · rw [hmine c hc, hpending c hc, hnone]
      rfl
    · rw [hother c hc]
  · rw [if_neg hmask]
    have hmask' : (cq.buckets.get b).occupiedMask s = true := by simpa using hmask
    generalize hk : (cq.buckets.get b).keys s = k
    generalize hv : (cq.buckets.get b).values s = v
    have hentry : cq.content (b, s) = some (k, v) :=
      content_eq_some.mpr ⟨hsize ▸ lt_of_lt_of_le hb hle, hmask', hk, hv⟩
    have hold : cp.content (b, s) = some (k, v) := hhere ▸ hentry
    obtain ⟨bit, hbit, hcand⟩ := h.located b s k v hold
    have hlookup : E.bits cq.locator k = some bit := by rw [hcur.locator, hg.bits, hbit]
    refine Lib.Returns.bind (E.lookUp cq.locator k bit hlookup) ?_
    rintro bit' (hbit' : bit' = bit)
    rw [hbit']
    have hbucket : fastMapToBuckets (H cq.hSeed k) cq.numBuckets bit = newBucket H E cp (2 ^ m) k := by
      unfold newBucket
      rw [hbit, hcur.frame.hSeed, hg.hSeed, hcur.frame.numBuckets, hg.numBuckets]
      rfl
    rw [hbucket]
    have hback := h.newBucket_mod hj hjm hold
    by_cases hstay : newBucket H E cp (2 ^ m) k = b
    · rw [if_pos hstay]
      apply Lib.Returns.ok
      refine ⟨hcur.frame, hcur.locator, ?_, hcur.separated⟩
      rw [hcur.content]
      funext c
      by_cases hc : (c.1 % cp.numBuckets, c.2) = (b, s)
      · rw [hmine c hc, hpending c hc, hold]
        simp [Option.filter_some, hstay]
      · rw [hother c hc]
    · rw [if_neg hstay]
      generalize hbi : newBucket H E cp (2 ^ m) k = bi at hstay hback
      have hbilt : bi < (cq.mark b s false).buckets.size := by
        show bi < cq.buckets.size
        rw [hsize, ← hbi]
        exact fastMapToBuckets_lt _ (Nat.two_pow_pos m) _
      intro cr hcr
      have hr := updateSeed_spec _ bi cr hcr
      have hframe : Frame cq ((cq.mark b s false).fill bi s k v) := (Frame.setBucket _ _ _).trans (Frame.setBucket _ _ _)
      have hcontent : cr.content = Function.update (Function.update cq.content (b, s) none) (bi, s) (some (k, v)) := by
        rw [hr.content, ← content_unmark]
        exact content_fill hbilt s k v
      have hcell : (b, s) ≠ (bi, s) := fun heq => hstay (Prod.mk.inj heq).1.symm
      refine ⟨(hcur.frame.trans hframe).trans hr.frame, hr.locator.trans hcur.locator, ?_, ?_⟩
      · rw [hcontent]
        funext c
        by_cases hc : (c.1 % cp.numBuckets, c.2) = (b, s)
        · rw [hmine c hc, hold]
          obtain ⟨b', t⟩ := c
          obtain rfl : t = s := (Prod.mk.inj hc).2
          by_cases hbb : b' = bi
          · subst hbb
            rw [Function.update_self]
            simp [Option.filter_some, hbi]
          · have hne : (b', t) ≠ (bi, t) := fun heq => hbb (Prod.mk.inj heq).1
            have hgone : Function.update cq.content (b, t) none (b', t) = none := by
              by_cases hb' : b' = b
              · subst hb'
                exact Function.update_self ..
              · have hne' : (b', t) ≠ (b, t) := fun heq => hb' (Prod.mk.inj heq).1
                rw [Function.update_of_ne hne', hcur.content, hpending _ hc, hold]
                simp [Option.filter_some, Ne.symm hb']
            rw [Function.update_of_ne hne, hgone]
            simp [Option.filter_some, hbi, Ne.symm hbb]
        · have hne : c ≠ (bi, s) := by
            rintro rfl
            exact hc (by rw [hback])
          have hne' : c ≠ (b, s) := by
            rintro rfl
            exact hc (by rw [hmod])
          rw [Function.update_of_ne hne, Function.update_of_ne hne', hcur.content, hother c hc]
      · intro b' t t' x u x' u' he he' hslot
        by_cases hb' : b' = bi
        · subst hb'
          rw [hr.content] at he he'
          exact hr.separated t t' x u x' u' he he' hslot
        · have hseed : (cr.buckets.get b').seed = (cq.buckets.get b').seed := by
            rw [hr.others b' hb', ← mark_seed cq b s false b']
            exact congrArg CpBucket.seed (setBucket_get_of_ne (cq.mark b s false) _ hb')
          have hstays : ∀ t x u, cr.content (b', t) = some (x, u) → cq.content (b', t) = some (x, u) := by
            intro t x u he
            have hne : (b', t) ≠ (bi, s) := fun heq => hb' (Prod.mk.inj heq).1
            rw [hcontent, Function.update_of_ne hne] at he
            by_cases hne' : (b', t) = (b, s)
            · rw [hne', Function.update_self] at he
              cases he
            · rwa [Function.update_of_ne hne'] at he
          rw [hseed] at hslot
          exact hcur.separated b' t t' x u x' u' (hstays t x u he) (hstays t' x' u' he') hslot

/-! ## The table when all slots are spread -/

/-- After the loop each entry is in the bucket of its bit. -/
theorem Growing.content_iff (h : Arranged H E cp cp.content) (hcur : Growing H E cp next g (cells cp.numBuckets) cq) :
    cq.content (b, s) = some (k, v) ↔
      cp.content (b % cp.numBuckets, s) = some (k, v) ∧ newBucket H E cp next k = b := by
  have hpos : 0 < cp.numBuckets := h.size ▸ h.size_pos
  have hdone : (b % cp.numBuckets, s) ∈ cells cp.numBuckets := mem_cells.mpr (Nat.mod_lt b hpos)
  rw [hcur.content, spread_of_mem hdone, Option.filter_eq_some_iff]
  simp only [decide_eq_true_eq]

/-- **`powerSize` keeps all entries** and puts them in place in the larger table. -/
theorem Arranged.grown (h : Arranged H E cp cp.content) (hj : cp.numBuckets = 2 ^ j) (hjm : j ≤ m)
    (hg : Enlarged E cp (2 ^ m) g) (hcur : Growing H E cp (2 ^ m) g (cells cp.numBuckets) cq) :
    Arranged H E cq cq.content ∧ ∀ x u, Lib.Holds cq.content x u ↔ Lib.Holds cp.content x u := by
  have hsize : cq.buckets.size = 2 ^ m := hcur.frame.size.trans hg.size
  refine ⟨⟨⟨m, hcur.frame.numBuckets.trans hg.numBuckets⟩, ?_, ?_, ?_, hcur.separated⟩, ?_⟩
  · rw [hsize, hcur.frame.numBuckets, hg.numBuckets]
  · rintro ⟨b, s⟩ ⟨b', s'⟩ k v v' hc hc'
    obtain ⟨hin, rfl⟩ := (hcur.content_iff h).mp hc
    obtain ⟨hin', rfl⟩ := (hcur.content_iff h).mp hc'
    have hcell := h.once _ _ _ _ _ hin hin'
    rw [(Prod.mk.inj hcell).2]
  · intro b s k v hc
    obtain ⟨hin, hb⟩ := (hcur.content_iff h).mp hc
    obtain ⟨bit, hbit, -⟩ := h.located _ s k v hin
    refine ⟨bit, by rw [hcur.locator, hg.bits, hbit], ?_⟩
    rw [← hb]
    unfold candidate newBucket
    rw [hbit, hsize, hcur.frame.hSeed, hg.hSeed]
    rfl
  · intro x u
    constructor
    · rintro ⟨⟨b, s⟩, hc⟩
      exact ⟨_, ((hcur.content_iff h).mp hc).1⟩
    · rintro ⟨⟨b, s⟩, hc⟩
      refine ⟨(newBucket H E cp (2 ^ m) x, s), (hcur.content_iff h).mpr ⟨?_, rfl⟩⟩
      rw [h.newBucket_mod hj hjm hc, hc]

end Split

/-! ## `powerSize` -/

/-- The table has grown in place: it has the entries that it had. -/
structure Grown (H : HashFn) {P : Locator} (E : P.Exact) (next : Nat) (cp cq : ControlPlaneLudo V P.State) : Prop where
  numBuckets : cq.numBuckets = next
  nKeys : cq.nKeys = cp.nKeys
  oldBuckets : cq.oldBuckets = cp.oldBuckets
  integrity : cq.integrity = cp.integrity
  arranged : Arranged H E cq cq.content
  toMap : cq.toMap = cp.toMap

theorem content_resize [Inhabited V] (cp : ControlPlaneLudo V P.State) {n : Nat} (hn : cp.buckets.size ≤ n) :
    { cp with buckets := cp.buckets.resize n .empty }.content = cp.content := by
  funext c
  unfold content Vec.resize
  dsimp only
  by_cases hc : c.1 < cp.buckets.size
  · simp [hc, lt_of_lt_of_le hc hn]
  · simp [hc, CpBucket.empty]

/-- **Growing by any power of two** keeps the map. -/
theorem Arranged.powerSize_spec [Inhabited V] (h : Arranged H E cp cp.content) {next capacity : Nat}
    (hnext : ∃ m, next = 2 ^ m) (hlt : cp.numBuckets < next) :
    Lib.Returns (Grown H E next cp)
      ({ cp with numBuckets := next, capacity := capacity }.powerSize H P (next / cp.numBuckets)) := by
  obtain ⟨j, hj⟩ := h.pow
  obtain ⟨m, rfl⟩ := hnext
  have hjm : j ≤ m := by
    rw [hj] at hlt
    exact (Nat.pow_lt_pow_iff_right (by decide)).mp hlt |>.le
  have htimes : 2 ^ m / (2 ^ m / cp.numBuckets) = cp.numBuckets := by
    rw [hj]
    exact Nat.div_div_self (Nat.pow_dvd_pow 2 hjm) (Nat.two_pow_pos m).ne'
  unfold ControlPlaneLudo.powerSize
  dsimp only
  rw [htimes]
  refine Lib.Returns.bind (E.resizeCapacity cp.locator capacity) ?_
  intro locator hlocator
  generalize hg : ({ cp with
    numBuckets := 2 ^ m, capacity := capacity, buckets := cp.buckets.resize (2 ^ m) .empty, locator := locator } :
      ControlPlaneLudo V P.State) = g
  have henlarged : Enlarged E cp (2 ^ m) g := by
    subst hg
    refine ⟨rfl, rfl, rfl, hlocator, ?_, ?_⟩
    · exact content_resize cp (by rw [h.size]; exact hlt.le)
    · intro b hb
      show (if b < cp.buckets.size then cp.buckets.get b else .empty).seed = _
      rw [if_pos (by rw [h.size]; exact hb)]
  intro cq hcq
  have hgrown : Growing H E cp (2 ^ m) g (cells cp.numBuckets) cq := by
    refine Lib.Returns.foldlM_prefix (I := Growing H E cp (2 ^ m) g) (cells cp.numBuckets)
      (h.growing_start henlarged) ?_ cq hcq
    rintro pre ⟨b, s⟩ post cur hsplit hcur
    obtain ⟨hb, hnew⟩ := cells_split hsplit
    exact h.growing_step hj hjm henlarged hb hnew hcur
  obtain ⟨harranged, hholds⟩ := h.grown hj hjm henlarged hgrown
  refine ⟨?_, ?_, ?_, ?_, harranged, ?_⟩
  · rw [hgrown.frame.numBuckets, ← hg]
  · rw [hgrown.frame.nKeys, ← hg]
  · rw [hgrown.frame.oldBuckets, ← hg]
  · rw [hgrown.frame.integrity, ← hg]
  · funext x
    exact toMap_congr h.once harranged.once (hholds x)

end ControlPlaneLudo

end Outback
