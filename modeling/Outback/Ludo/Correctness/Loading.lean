import Outback.Ludo.BulkLoad
import Outback.Ludo.Correctness.Rebuild

/-!
# `Ludo.Correctness.Loading` — tables that are filled by insertions

What every insertion keeps besides the entries in place is the form of the size: the table has `64 * 2 ^ j` buckets
(`insert_sized`). With the map that the insertions of a bulk load leave, such a table is `Loaded` (`Arranged.loaded`).

`nKeys` is another matter: a key whose `CuckooInsert` resizes the table is counted twice. Along a run of insertions it is
the number of slots in use exactly when every key of the run was counted once (**`LoadInv.counted_iff`**). A key that is
counted twice has doubled the table, so that `nKeys` is ahead of the slots by less than 32 and does not come back to their
number when it wraps.
-/

namespace Outback

/-- The sizes start at 64. -/
theorem LoadFactor.nextNbuckets_sized {lf : LoadFactor} {limit target : Nat} :
    Lib.Returns (fun n => ∃ j < limit, n = 64 * 2 ^ j) (lf.nextNbuckets limit target) := by
  unfold LoadFactor.nextNbuckets
  split
  · rename_i n hn
    apply Lib.Returns.ok
    obtain ⟨i, hi, rfl⟩ := List.mem_map.mp (List.mem_of_find?_eq_some hn)
    exact ⟨i, List.mem_range.mp hi, rfl⟩
  · exact Lib.Returns.error _

namespace ControlPlaneLudo

variable {V : Type}

/-- A size that `resizeCapacity` can have chosen. -/
def Sized (n : Nat) : Prop := (∃ j, n = 64 * 2 ^ j) ∧ n < 2 ^ 32

/-! ## The size of the table -/

section Sizes

variable [Inhabited V] {H : HashFn} {P : Locator} {E : P.Exact} {lf : LoadFactor} {t cp cq g : ControlPlaneLudo V P.State}
  {n next target : Nat}

/-- "`num_buckets_`" is not chosen beyond 32 bits. -/
theorem resizeCapacity_next (hok : resizeCapacity H P lf n cp target true = .ok g)
    (hnext : lf.nextNbuckets 58 (max cp.nKeys (max target 256)) = .ok next) : Sized next := by
  obtain ⟨j, -, hj⟩ := LoadFactor.nextNbuckets_sized next hnext
  refine ⟨⟨j, hj⟩, ?_⟩
  cases n with
  | zero => cases hok
  | succ m =>
      unfold resizeCapacity at hok
      obtain ⟨next', hnext', hok⟩ := Lib.bind_eq_ok.mp hok
      obtain rfl : next = next' := Except.ok.inj (hnext.symm.trans hnext')
      split at hok
      · cases hok
      · rename_i hlt
        exact Nat.lt_of_not_le hlt

omit [Inhabited V] in
theorem putItem_numBuckets (cp : ControlPlaneLudo V P.State) (k : U64) (v : V) (b : Nat) (s : Slot) (first : Bool) :
    Lib.Returns (fun cq => cq.numBuckets = cp.numBuckets) (cp.putItem H P k v b s first) :=
  Lib.Returns.bind (Q := fun _ => True) (fun _ _ => trivial) fun _ _ cq hcq => (updateSeed_spec _ b cq hcq).frame.numBuckets

omit [Inhabited V] in
theorem followPath_numBuckets (visited : List CuckooPathEntry) (n : Nat) : ∀ (cp : ControlPlaneLudo V P.State)
    (e : CuckooPathEntry) (s : Slot) (first : Bool),
    Lib.Returns (fun r => r.1.numBuckets = cp.numBuckets) (followPath H P visited n cp e s first) := by
  induction n with
  | zero => exact fun _ _ _ _ => Lib.Returns.error _
  | succ n ih =>
      intro cp e s first
      unfold followPath
      cases e.parent with
      | none => exact Lib.Returns.ok rfl
      | some parent =>
          obtain ⟨p, ps⟩ := parent
          dsimp only
          cases visited[p]? with
          | none => exact Lib.Returns.error _
          | some pe =>
              refine Lib.Returns.bind (Q := fun cq => cq.numBuckets = cp.numBuckets) ?_ fun cq hcq r hr => ?_
              · exact Lib.Returns.bind (Q := fun _ => True) (fun _ _ => trivial) fun _ _ cq hcq =>
                  (updateSeed_spec _ _ cq hcq).frame.numBuckets
              · rw [ih cq pe ps _ r hr, hcq]

omit [Inhabited V] in
theorem cuckooMove_numBuckets (cp : ControlPlaneLudo V P.State) (k : U64) (v : V) (e : CuckooPathEntry) (s : Slot)
    (visited : List CuckooPathEntry) :
    Lib.Returns (fun cq => cq.numBuckets = cp.numBuckets) (cp.cuckooMove H P k v e s visited) := by
  refine Lib.Returns.bind (followPath_numBuckets visited e.depth (cp.mark e.bucket s true) e s false) fun r hr cq hcq => ?_
  rw [putItem_numBuckets _ k v _ _ _ cq hcq, hr]
  rfl

omit [Inhabited V] in
theorem changeValue_numBuckets (cp : ControlPlaneLudo V P.State) (k : U64) (v : V) :
    (cp.changeValue H k v).numBuckets = cp.numBuckets := by
  rw [changeValue_eq]
  split
  · rfl
  · rfl

theorem powerSize_numBuckets (cp : ControlPlaneLudo V P.State) (times : Nat) :
    Lib.Returns (fun cq => cq.numBuckets = cp.numBuckets) (cp.powerSize H P times) := by
  refine Lib.Returns.bind (Q := fun _ => True) (fun _ _ => trivial) fun locator _ => ?_
  refine Lib.Returns.foldlM (P := fun cq : ControlPlaneLudo V P.State => cq.numBuckets = cp.numBuckets) _ rfl
    fun cq hcq cell _ => ?_
  unfold powerSlot
  dsimp only
  split
  · exact Lib.Returns.ok hcq
  · refine Lib.Returns.bind (Q := fun _ => True) (fun _ _ => trivial) fun bit _ => ?_
    split
    · exact Lib.Returns.ok hcq
    · intro cr hcr
      rw [(updateSeed_spec _ _ cr hcr).frame.numBuckets]
      exact hcq

/-! ## Rebuilds and insertions -/

/-- Insertions of depth `n` keep the form of the size. -/
def KeepsSized (H : HashFn) (P : Locator) (lf : LoadFactor) (V : Type) [Inhabited V] (n : Nat) : Prop :=
  ∀ (cp : ControlPlaneLudo V P.State) ref v, Sized cp.numBuckets →
    Lib.Returns (fun cq => Sized cq.numBuckets) (insert H P lf n cp ref v)

theorem resize_sized (hinsert : ∀ m < n, KeepsSized H P lf V m)
    (hok : resizeCapacity H P lf n cp target true = .ok g) : Sized g.numBuckets := by
  obtain ⟨m, next, hn, hnext, hcase⟩ := resizeCapacity_cases hok
  have hsized := resizeCapacity_next hok hnext
  cases hcase with
  | grown _ _ hg =>
      rw [powerSize_numBuckets _ _ g hg]
      exact hsized
  | rebuilt hm _ _ _ hg =>
      obtain ⟨i, l, built, hi, -, hbuilt, rfl⟩ := tryBuild_cases hg
      refine Lib.Returns.foldlM (P := fun cur => Sized cur.numBuckets) (cells _) ?_ ?_ built hbuilt
      · exact hsized
      · intro cur hcur c _
        unfold refill
        split
        · split
          · exact hinsert i (by omega) cur _ _ hcur
          · exact Lib.Returns.ok hcur
        · exact Lib.Returns.error _

/-- By strong induction on the depth: a rebuild at depth `n` inserts at a smaller one. -/
theorem insert_sized (n : Nat) : KeepsSized H P lf V n := by
  induction n using Nat.strong_induction_on with
  | h n ih =>
      intro cp ref v hsized cq hok
      cases n with
      | zero =>
          unfold ControlPlaneLudo.insert at hok
          cases hok
      | succ n =>
          obtain ⟨k, -, hcase⟩ := insert_cases hok
          cases hcase with
          | member _ hcq =>
              subst hcq
              rw [changeValue_numBuckets]
              exact hsized
          | resized _ _ hg hq => exact ih n (by omega) _ ref v (resize_sized (fun m hm => ih m (by omega)) hg) cq hq
          | placed _ _ _ hput hcq =>
              subst hcq
              rw [counted, putItem_numBuckets _ _ _ _ _ _ _ hput]
              exact hsized
          | moved _ _ _ _ hmove hcq =>
              subst hcq
              rw [counted, cuckooMove_numBuckets _ _ _ _ _ _ _ hmove]
              exact hsized
          | @crowded m g q hn _ _ _ _ hg hq hcq =>
              subst hcq
              have hlast := ih m (by omega) _ ref v (resize_sized (fun i hi => ih i (by omega)) hg) q hq
              exact hlast

/-- "`for (nextNbuckets = 64; ..`": at most 26 doublings. -/
theorem construct_sized (locator : P.State) (capacity : Nat) :
    Lib.Returns (fun cp => Sized cp.numBuckets) (construct (V := V) P lf locator capacity) := by
  refine Lib.Returns.bind LoadFactor.nextNbuckets_sized ?_
  rintro _ ⟨j, hj, rfl⟩
  refine Lib.Returns.bind (Q := fun _ => True) (fun _ _ => trivial) fun l _ => Lib.Returns.ok ⟨⟨j, rfl⟩, ?_⟩
  have hpow : 2 ^ j ≤ 2 ^ 25 := Nat.pow_le_pow_right (by decide) (by omega)
  show 64 * 2 ^ j < 2 ^ 32
  omega

end Sizes

/-! ## The table of a bulk load -/

/-- The table with the bits that a data plane made from it answers. -/
def withBits {L : Type} (cp : ControlPlaneLudo U64 L) (bits : U64 → Option Bool) : ExactLudo where
  numBuckets := cp.numBuckets
  hSeed := cp.hSeed
  nKeys := cp.nKeys
  capacity := cp.capacity
  buckets := cp.buckets
  oldBuckets := cp.oldBuckets
  integrity := cp.integrity
  locator := bits

section Load

variable {H : HashFn} {P : Locator} {E : P.Exact} {cp : ControlPlaneLudo U64 P.State} {bits : U64 → Option Bool}
  {existKeys : List U64} {b : Nat} {s : Slot}

theorem Arranged.withBits_stored (h : Arranged H E cp cp.content) (hs : (cp.withBits bits).Stored b s) :
    cp.content (b, s) = some ((cp.buckets.get b).keys s, (cp.buckets.get b).values s) :=
  content_eq_some.mpr ⟨h.size ▸ hs.1, hs.2, rfl, rfl⟩

theorem Arranged.withBits_located (h : Arranged H E cp cp.content)
    (hbits : ∀ k bit, E.bits cp.locator k = some bit → bits k = some bit) (hs : (cp.withBits bits).Stored b s) :
    ∃ bit, bits ((cp.buckets.get b).keys s) = some bit ∧
      fastMapToBuckets (H cp.hSeed ((cp.buckets.get b).keys s)) cp.numBuckets bit = b := by
  obtain ⟨bit, hbit, hcand⟩ := h.located b s _ _ (h.withBits_stored hs)
  refine ⟨bit, hbits _ _ hbit, ?_⟩
  rw [← h.size]
  exact hcand

theorem Arranged.withBits_separated (h : Arranged H E cp cp.content) : (cp.withBits bits).SeedsSeparate H :=
  fun b s t hs ht hslot => h.separated b s t _ _ _ _ (h.withBits_stored hs) (h.withBits_stored ht) hslot

/-- A table of such a size that maps the loaded keys, if any, to their numbers is bulk-loaded. -/
theorem Arranged.loaded (h : Arranged H E cp cp.content) (hsized : Sized cp.numBuckets)
    (hbits : ∀ k bit, E.bits cp.locator k = some bit → bits k = some bit) (hbound : existKeys.length ≤ 2 ^ 32)
    (hmap : ∀ k v, cp.toMap k = some v →
      ∃ i : Fin existKeys.length, k = existKeys.get i ∧ v = BitVec.ofNat 64 i) :
    Loaded H (cp.withBits bits) existKeys where
  inv := ⟨hsized.1, h.size, fun b s hs => h.withBits_located hbits hs, h.withBits_separated⟩
  bound := hbound
  stored := by
    intro b s hs
    exact hmap _ _ ((toMap_eq_some_iff h.once).mpr ⟨(b, s), h.withBits_stored hs⟩)
  distinct := by
    intro b s b' s' hs hs' hv
    obtain ⟨i, hk, hi⟩ := hmap _ _ ((toMap_eq_some_iff h.once).mpr ⟨(b, s), h.withBits_stored hs⟩)
    obtain ⟨i', hk', hi'⟩ := hmap _ _ ((toMap_eq_some_iff h.once).mpr ⟨(b', s'), h.withBits_stored hs'⟩)
    -- equal numbers in 64 bits are the same number, and so the keys are the same
    have heq : (BitVec.ofNat 64 i : U64).toNat = (BitVec.ofNat 64 i' : U64).toNat := by
      rw [← hi, ← hi']
      exact congrArg BitVec.toNat hv
    have hlt := i.isLt
    have hlt' := i'.isLt
    rw [BitVec.toNat_ofNat, BitVec.toNat_ofNat, Nat.mod_eq_of_lt (by omega), Nat.mod_eq_of_lt (by omega)] at heq
    obtain rfl : i = i' := Fin.ext heq
    have hkeys : (cp.buckets.get b).keys s = (cp.buckets.get b').keys s' := hk.trans hk'.symm
    have hcell := h.withBits_stored hs'
    rw [← hkeys] at hcell
    exact Prod.mk.inj (h.once _ _ _ _ _ (h.withBits_stored hs) hcell)

end Load

/-! ## How far the count is ahead -/

section Ahead

variable {H : HashFn} {P : Locator} {E : P.Exact} {lf : LoadFactor} {t cp cq q g : ControlPlaneLudo V P.State}
  {n m c c' d target : Nat} {k : U64} {v : V}

/-- `nKeys` is `d` ahead of the slots in use, in 32 bits. All but `c` of these the table has doubled for. -/
structure Ahead (c d : Nat) {L : Type} (cp : ControlPlaneLudo V L) : Prop where
  keys : cp.nKeys = (cp.occupiedSlots.length + d) % 2 ^ 32
  size : 2 ^ (d - c) ≤ cp.numBuckets

theorem Ahead.mono (h : Ahead c d cp) (hc : c ≤ c') : Ahead c' d cp :=
  ⟨h.keys, (Nat.pow_le_pow_right (by decide) (by omega)).trans h.size⟩

theorem Ahead.added (h : Ahead c d cp) (hmore : OneMore cp cq) : Ahead c d cq := by
  refine ⟨?_, h.size.trans hmore.size⟩
  rw [hmore.keys, hmore.slots, nextKeys_eq, h.keys]
  omega

/-- A key that is counted once more. -/
theorem Ahead.counted (h : Ahead c d cp) : Ahead (c + 1) (d + 1) cp.counted := by
  refine ⟨?_, ?_⟩
  · rw [counted_nKeys, counted_occupiedSlots, nextKeys_eq, h.keys]
    omega
  · rw [Nat.add_sub_add_right]
    exact h.size

/-- The table has grown in place. -/
theorem Ahead.grown {next : Nat} (h : Ahead c d cp) (ha : Arranged H E cp cp.content) (hpow : ∃ m, next = 2 ^ m)
    (hlt : cp.numBuckets < next) (hg : Grown H E next cp g) : Ahead (c - 1) d g := by
  refine ⟨?_, ?_⟩
  · rw [hg.nKeys, h.keys, occupiedSlots_congr ha.once hg.arranged.once fun x => by rw [hg.toMap]]
  · have hdouble := ha.double_le hpow hlt
    have hsize := h.size
    rw [hg.numBuckets]
    calc 2 ^ (d - (c - 1)) ≤ 2 ^ (d - c + 1) := Nat.pow_le_pow_right (by decide) (by omega)
      _ = 2 * 2 ^ (d - c) := pow_succ' ..
      _ ≤ next := by omega

/-! ## Counting through a rebuild -/

variable [Inhabited V]

/-- How far insertions of depth `n` leave the count ahead. -/
def KeepsAhead (E : P.Exact) (H : HashFn) (lf : LoadFactor) (V : Type) [Inhabited V] (n : Nat) : Prop :=
  ∀ (cp : ControlPlaneLudo V P.State) ref v c d, Arranged H E cp cp.content → Ahead c d cp →
    Lib.Returns (fun cq => ∃ d', Ahead (max c n) d' cq) (insert H P lf n cp ref v)

/-- A rebuild starts the count anew. -/
theorem tryBuild_ahead (hinsert : ∀ m < n, KeepsAhead E H lf V m) (hpow : ∃ j, t.numBuckets = 2 ^ j)
    (hsize : t.buckets.size = t.numBuckets) (hok : tryBuild H P lf n t = .ok g) : ∃ d, Ahead n d g := by
  obtain ⟨m, l, built, hn, -, hbuilt, rfl⟩ := tryBuild_cases hok
  have hboth : Arranged H E built built.content ∧ ∃ d, Ahead m d built := by
    refine Lib.Returns.foldlM (P := fun cur => Arranged H E cur cur.content ∧ ∃ d, Ahead m d cur)
      (cells t.oldBuckets.size) ?_ ?_ built hbuilt
    · refine ⟨arranged_of_empty hpow hsize (content_emptied t l), 0, ?_, ?_⟩
      · have hnone : (emptied P t l).occupiedSlots = [] := by
          rw [List.eq_nil_iff_forall_not_mem]
          rintro ⟨b, s⟩ hmem
          obtain ⟨k, v, hc⟩ := mem_occupiedSlots.mp hmem
          rw [content_emptied] at hc
          cases hc
        rw [hnone]
        rfl
      · obtain ⟨j, hj⟩ := hpow
        show 2 ^ (0 - m) ≤ t.numBuckets
        rw [Nat.zero_sub, hj]
        exact Nat.one_le_two_pow
    · rintro cur ⟨hcur, d, hd⟩ c _
      unfold refill
      split
      · split
        · intro cq hcq
          have hnext := hinsert m (by omega) cur _ _ m d hcur hd cq hcq
          rw [Nat.max_self] at hnext
          exact ⟨insert_arranged m cur _ _ hcur cq hcq, hnext⟩
        · exact Lib.Returns.ok ⟨hcur, d, hd⟩
      · exact Lib.Returns.error _
  obtain ⟨-, d, hd⟩ := hboth
  exact ⟨d, (Ahead.mono ⟨hd.keys, hd.size⟩ (by omega))⟩

/-- A resize grows the table, or starts the count anew. -/
theorem resize_ahead (hinsert : ∀ m < n, KeepsAhead E H lf V m) (h : Arranged H E cp cp.content) (hd : Ahead c d cp)
    (hok : resizeCapacity H P lf n cp target true = .ok g) : ∃ d', Ahead (max (c - 1) n) d' g := by
  obtain ⟨m, next, hn, hnext, hcase⟩ := resizeCapacity_cases hok
  have hpow := LoadFactor.nextNbuckets_eq next hnext
  cases hcase with
  | grown hlt _ hg =>
      exact ⟨d, (hd.grown h hpow hlt (h.powerSize_spec hpow hlt g hg)).mono (Nat.le_max_left ..)⟩
  | rebuilt hm _ _ _ hg =>
      obtain ⟨d', hd'⟩ := tryBuild_ahead (fun i hi => hinsert i (by omega)) hpow rfl hg
      exact ⟨d', hd'.mono (by omega)⟩

/-- **A key that is counted twice**: the insertion has found no path, and the one that starts over has counted the key. -/
theorem crowded_ahead (hinsert : ∀ i ≤ m, KeepsAhead E H lf V i) (h : Arranged H E cp cp.content) (hd : Ahead c d cp)
    {ref : KeyRef} (hg : resizeCapacity H P lf m cp cp.nextKeys true = .ok g) (hq : insert H P lf m g ref v = .ok q) :
    ∃ d', Ahead (max c (m + 1)) (d' + 1) q.counted := by
  have hg' := resize_arranged (fun i _ => insert_arranged i) h hg
  obtain ⟨d₁, hd₁⟩ := resize_ahead (fun i hi => hinsert i (by omega)) h hd hg
  obtain ⟨d₂, hd₂⟩ := hinsert m le_rfl g ref v _ d₁ hg' hd₁ q hq
  exact ⟨d₂, hd₂.counted.mono (by omega)⟩

/-- By strong induction on the depth. -/
theorem insert_ahead (n : Nat) : KeepsAhead E H lf V n := by
  induction n using Nat.strong_induction_on with
  | h n ih =>
      intro cp ref v c d h hd cq hok
      cases n with
      | zero =>
          unfold ControlPlaneLudo.insert at hok
          cases hok
      | succ n =>
          obtain ⟨k, -, hcase⟩ := insert_cases hok
          cases hcase with
          | member hmem hcq =>
              subst hcq
              have hframe := (h.changeValue_member hmem v).frame
              refine ⟨d, (Ahead.mono ⟨?_, ?_⟩ (Nat.le_max_left ..))⟩
              · rw [hframe.nKeys, h.changeValue_slots hmem v, hd.keys]
              · rw [hframe.numBuckets]
                exact hd.size
          | resized _ _ hg hq =>
              have hg' := resize_arranged (fun i _ => insert_arranged i) h hg
              obtain ⟨d₁, hd₁⟩ := resize_ahead (fun i hi => ih i (by omega)) h hd hg
              obtain ⟨d₂, hd₂⟩ := ih n (by omega) _ ref v _ d₁ hg' hd₁ cq hq
              exact ⟨d₂, hd₂.mono (by omega)⟩
          | placed hmem _ htarget hput hcq =>
              subst hcq
              exact ⟨d, (hd.added (h.added_once hmem (h.place hmem htarget v _ hput))).mono (Nat.le_max_left ..)⟩
          | moved hmem _ htarget hsearch hmove hcq =>
              subst hcq
              exact ⟨d, (hd.added (h.added_once hmem (h.moved_spec hmem htarget hsearch hmove))).mono (Nat.le_max_left ..)⟩
          | @crowded m g q hn _ _ _ _ hg hq hcq =>
              subst hcq
              obtain ⟨d', hd'⟩ := crowded_ahead (fun i hi => ih i (by omega)) h hd hg hq
              exact ⟨d' + 1, hd'.mono (by omega)⟩

end Ahead

/-! ## Counting along a run -/

section Statements

variable [Inhabited V] (H : HashFn) (P : RemovableLocator) (lf : LoadFactor)

/-- The call is an insertion, nested less than `2 ^ 31` deep. Where the table is at capacity, it grows without a rebuild. -/
def Inserts (cp : ControlPlaneLudo V P.State) : IndexCall V → Prop
  | .insert depth k v => depth < 2 ^ 31 ∧ (cp.capacity < cp.nextKeys → Unrebuilt H P.toLocator lf cp k v)
  | _ => False

/-- The insertion counts its key once. -/
def CountedOnce {L : Type} (cp : ControlPlaneLudo V L) : IndexCall V → Prop
  | .insert _ k _ => CountsOnce H cp k
  | _ => True

end Statements

/-! ## One insertion of a run -/

section Run

variable [Inhabited V] {H : HashFn} {P : RemovableLocator} {E : P.toLocator.Exact} {lf : LoadFactor}
  {empty cp cq : ControlPlaneLudo V P.State} {l : List (IndexCall V)} {a : IndexCall V} {n d : Nat} {k : U64} {v : V}

/-- What one such insertion does to the count. -/
inductive CountStep (H : HashFn) (k : U64) (cp cq : ControlPlaneLudo V P.State) : Prop
  | same (honce : CountsOnce H cp k) (hkeys : cq.nKeys = cp.nKeys)
      (hslots : cq.occupiedSlots.length = cp.occupiedSlots.length) (hsize : cq.numBuckets = cp.numBuckets)
  | more (honce : CountsOnce H cp k ↔ cp.nKeys + 1 < 2 ^ 32) (hmore : OneMore cp cq)
  | twice (honce : ¬ CountsOnce H cp k) (d : Nat) (hd : Ahead (2 ^ 31) (d + 1) cq)

theorem insert_countStep (h : Arranged H E cp cp.content) (hd : Ahead (2 ^ 31) d cp)
    (hinserts : Inserts H P lf cp (.insert n k v)) (hok : insert H P.toLocator lf n cp (.value k) v = .ok cq) :
    CountStep H k cp cq := by
  obtain ⟨hn, hgrows⟩ := hinserts
  cases n with
  | zero =>
      unfold ControlPlaneLudo.insert at hok
      cases hok
  | succ n =>
      obtain ⟨k', hk', hcase⟩ := insert_cases hok
      cases hk'
      cases hcase with
      | member hmem hcq =>
          subst hcq
          have hframe := (h.changeValue_member hmem v).frame
          exact .same (.inl hmem) hframe.nKeys (h.changeValue_slots hmem v) hframe.numBuckets
      | resized hmem hfull _ _ =>
          obtain ⟨-, -, hcounts⟩ := (hgrows hfull).counts h hok
          cases hcounts with
          | member hmem' =>
              rw [hmem] at hmem'
              cases hmem'
          | once _ hroom hmore => exact .more (countsOnce_iff_lt hmem hroom) hmore
          | twice _ hnot => exact absurd hfull hnot.1
      | placed hmem _ htarget hput hcq =>
          subst hcq
          refine .more (countsOnce_iff_lt hmem (.inr (.inl ?_))) (h.added_once hmem (h.place hmem htarget v _ hput))
          rw [htarget]
          rfl
      | moved hmem _ htarget hsearch hmove hcq =>
          subst hcq
          have hadded := h.moved_spec hmem htarget hsearch hmove
          refine .more (countsOnce_iff_lt hmem (.inr (.inr ?_))) (h.added_once hmem hadded)
          rw [hsearch]
          simp
      | @crowded m g q hm hmem hfull htarget hsearch hg hq hcq =>
          subst hcq
          obtain ⟨d', hd'⟩ := crowded_ahead (fun i _ => insert_ahead i) h hd hg hq
          exact .twice (not_countsOnce hmem ⟨hfull, htarget, hsearch⟩) d' (hd'.mono (by omega))

/-- What a run of such insertions keeps: the count is exact, or it is ahead, or beyond 32 bits. -/
structure LoadInv (E : P.toLocator.Exact) (H : HashFn) (lf : LoadFactor) (empty : ControlPlaneLudo V P.State)
    (l : List (IndexCall V)) (cp : ControlPlaneLudo V P.State) : Prop where
  arranged : Arranged H E cp cp.content
  sized : Sized cp.numBuckets
  reached : Lib.Runs (call H P lf) Lib.anyStep empty l cp
  tally : ∃ d, Ahead (2 ^ 31) d cp ∧
    (Lib.Runs (call H P lf) (CountedOnce H) empty l cp ∧ d = 0 ∧ cp.occupiedSlots.length < 2 ^ 32 ∨
      ¬ Lib.Runs (call H P lf) (CountedOnce H) empty l cp ∧ (0 < d ∨ 2 ^ 32 ≤ cp.occupiedSlots.length))

theorem LoadInv.step (h : LoadInv E H lf empty l cp) (hinserts : Inserts H P lf cp a)
    (hok : call H P lf cp a = .ok cq) : LoadInv E H lf empty (l ++ [a]) cq := by
  cases a with
  | remove k => exact absurd hinserts id
  | changeValue k v => exact absurd hinserts id
  | resizeCapacity n target force => exact absurd hinserts id
  | insert n k v =>
      have hok' : insert H P.toLocator lf n cp (.value k) v = .ok cq := hok
      refine ⟨insert_arranged n cp _ v h.arranged cq hok', insert_sized n cp _ v h.sized cq hok',
        h.reached.snoc trivial hok, ?_⟩
      -- all insertions count once when those before do and this one
      have hsnoc : Lib.Runs (call H P lf) (CountedOnce H) empty (l ++ [.insert n k v]) cq ↔
          Lib.Runs (call H P lf) (CountedOnce H) empty l cp ∧ CountsOnce H cp k := by
        rw [Lib.runs_snoc_iff]
        constructor
        · rintro ⟨t, ht, hC, -⟩
          obtain rfl := ht.unique h.reached
          exact ⟨ht, hC⟩
        · rintro ⟨hrun, hC⟩
          exact ⟨cp, hrun, hC, hok⟩
      obtain ⟨d, hd, htally⟩ := h.tally
      rw [hsnoc]
      cases insert_countStep h.arranged hd hinserts hok' with
      | same honce hkeys hslots hsize =>
          refine ⟨d, ⟨by rw [hkeys, hslots, hd.keys], by rw [hsize]; exact hd.size⟩, ?_⟩
          rw [hslots]
          rcases htally with ⟨hrun, hexact⟩ | ⟨hrun, hahead⟩
          · exact .inl ⟨⟨hrun, honce⟩, hexact⟩
          · exact .inr ⟨fun h => hrun h.1, hahead⟩
      | more honce hmore =>
          refine ⟨d, hd.added hmore, ?_⟩
          rw [honce, hmore.slots]
          have hkeys := hd.keys
          rcases htally with ⟨hrun, rfl, hlt⟩ | ⟨hrun, hahead⟩
          · by_cases hword : cp.nKeys + 1 < 2 ^ 32
            · exact .inl ⟨⟨hrun, hword⟩, rfl, by omega⟩
            · exact .inr ⟨fun h => hword h.2, .inr (by omega)⟩
          · exact .inr ⟨fun h => hrun h.1, hahead.imp_right fun hfull => by omega⟩
      | twice honce d' hd' => exact ⟨d' + 1, hd', .inr ⟨fun h => honce h.2, .inl (Nat.succ_pos d')⟩⟩

theorem loadInv {locator : P.State} {capacity : Nat} (hempty : construct P.toLocator lf locator capacity = .ok empty)
    (hrun : Lib.Runs (call H P lf) (Inserts H P lf) empty l cp) : LoadInv E H lf empty l cp := by
  refine hrun.invariant ?_ fun l t a u ht hC ha => ht.step hC ha
  have hinv : IndexInv H E empty := construct_spec locator capacity empty hempty
  have hsized := construct_sized locator capacity empty hempty
  refine ⟨hinv.toArranged, hsized, .nil, 0, ⟨?_, ?_⟩, .inl ⟨.nil, rfl, hinv.count ▸ hinv.word⟩⟩
  · rw [← hinv.count, Nat.add_zero, Nat.mod_eq_of_lt hinv.word]
  · obtain ⟨j, hj⟩ := hinv.pow
    rw [Nat.zero_sub, hj]
    exact Nat.one_le_two_pow

/-- **The count along a run.** `nKeys` is the number of slots in use exactly when every insertion of the run counted its key
    once. -/
theorem LoadInv.counted_iff (h : LoadInv E H lf empty l cp) :
    cp.nKeys = cp.occupiedSlots.length ↔ Lib.Runs (call H P lf) (CountedOnce H) empty l cp := by
  obtain ⟨d, hd, htally⟩ := h.tally
  have hkeys := hd.keys
  rcases htally with ⟨hrun, rfl, hlt⟩ | ⟨hrun, hahead⟩
  · exact iff_of_true (by omega) hrun
  · -- `d` is less than `2 ^ 32`: the table has doubled for all but `2 ^ 31`, within 32 bits
    have hfew : d - 2 ^ 31 < 32 := (Nat.pow_lt_pow_iff_right (by decide)).mp (lt_of_le_of_lt hd.size h.sized.2)
    exact iff_of_false (by omega) hrun

end Run

end ControlPlaneLudo

end Outback
