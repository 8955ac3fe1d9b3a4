import Outback.Ludo.Correctness.Kept
import Outback.Lib.Reach

/-!
# `Ludo.Correctness.Rebuild` — a rebuild that is not disturbed keeps the map

Every operation leaves the entries in place (`Arranged`), also an insertion whose rebuild starts another one
(`insert_arranged`, by induction on the depth of the calls). Which entries these are is another matter. `tryBuild` reads
the keys to put back from `oldBuckets`, and a rebuild that starts meanwhile assigns `oldBuckets` again.

`Undisturbed` says that this does not happen: when the insertion resizes the table, each old key goes back without
another resize. Then the rebuild is a run over a locator that has no further row seed to draw, all keys of `oldBuckets`
are in the new table (`tryBuild_spec`), and the insertion changes the map at its key only.
-/

namespace Outback

namespace ControlPlaneLudo

variable {V : Type}

section Statements

variable (H : HashFn)

/-- `k` is new and there is no place for it: the table is at capacity, or `CuckooInsert` finds no path. -/
def NeedsRoom {L : Type} (cp : ControlPlaneLudo V L) (k : U64) : Prop :=
  cp.isMember H k = false ∧ (cp.capacity < cp.nextKeys ∨ cp.targetSlot H k = none ∧ cp.cuckooSearch H k = .ok none)

/-- The entries in `oldBuckets`. -/
def saved {L : Type} (cp : ControlPlaneLudo V L) : Nat × Slot → Option (U64 × V) :=
  { cp with buckets := cp.oldBuckets.toVec }.content

variable [Inhabited V] (P : Locator) (lf : LoadFactor)

/-- The forced `resizeCapacity` of `insert` from `cp` to `g` in which no rebuild starts while the keys are put back. -/
inductive ResizedOnce (cp g : ControlPlaneLudo V P.State) : Prop where
  /-- in place -/
  | grown {m : Nat} (hg : resizeCapacity H P.withoutSeeds lf m cp cp.nextKeys true = .ok g)
  /-- by one rebuild: after its own row seed no other is drawn -/
  | rebuilt {m next : Nat} {seed : U64} {l l' : P.State}
      (hnext : lf.nextNbuckets 58 (max cp.nKeys (max cp.nextKeys 256)) = .ok next)
      (hnot : ¬ (cp.numBuckets < next ∧ cp.integrity = true))
      (hl : P.resizeCapacity cp.locator (lf.capacity next % 2 ^ 32) = .ok l) (hseed : P.rowSeed l = .ok (seed, l'))
      (hg : tryBuild H P.withoutSeeds lf m { setAside P lf cp next l with hSeed := seed, locator := l' } = .ok g)

/-- In the insertion of `k` no rebuild starts while another one puts its keys back. -/
inductive Undisturbed (k : U64) : ControlPlaneLudo V P.State → Prop where
  /-- there is room for the key -/
  | settled {cp : ControlPlaneLudo V P.State} (hroom : ¬ cp.NeedsRoom H k) : Undisturbed k cp
  /-- the table is resized, and the insertion starts over -/
  | resized {cp g : ControlPlaneLudo V P.State} (hneeds : cp.NeedsRoom H k) (hg : ResizedOnce H P lf cp g)
      (hrest : Undisturbed k g) : Undisturbed k cp

end Statements

/-- A call of a public operation; `depth` bounds the calls that nest in it. -/
inductive IndexCall (V : Type) where
  | insert (depth : Nat) (k : U64) (v : V)
  | remove (k : U64)
  | changeValue (k : U64) (v : V)
  | resizeCapacity (depth target : Nat) (forceBuild : Bool)

def call [Inhabited V] (H : HashFn) (P : RemovableLocator) (lf : LoadFactor) (cp : ControlPlaneLudo V P.State) :
    IndexCall V → LudoExec (ControlPlaneLudo V P.State)
  | .insert depth k v => insert H P.toLocator lf depth cp (.value k) v
  | .remove k => cp.remove H P k
  | .changeValue k v => .ok (cp.changeValue H k v)
  | .resizeCapacity depth target forceBuild => resizeCapacity H P.toLocator lf depth cp target forceBuild

/-! ## Putting the keys back -/

section Refill

variable {H : HashFn} {P : Locator} {E : P.Exact} {lf : LoadFactor} {t cp cq cur g : ControlPlaneLudo V P.State}
  {n m : Nat} {k : U64} {v : V}

theorem saved_eq_some {L : Type} {cp : ControlPlaneLudo V L} {b : Nat} {s : Slot} : cp.saved (b, s) = some (k, v) ↔
    b < cp.oldBuckets.size ∧ (cp.oldBuckets.get b).occupiedMask s = true ∧ (cp.oldBuckets.get b).keys s = k ∧
      (cp.oldBuckets.get b).values s = v := content_eq_some

theorem saved_eq_none {L : Type} {cp : ControlPlaneLudo V L} {b : Nat} {s : Slot} : cp.saved (b, s) = none ↔
    (b < cp.oldBuckets.size → (cp.oldBuckets.get b).occupiedMask s = false) := content_eq_none

theorem read_old {L : Type} (cp : ControlPlaneLudo V L) (i : Nat) (slot : Slot) :
    (KeyRef.old i slot cp.oldBuckets.storage).read cp = .ok ((cp.oldBuckets.get i).keys slot) := if_pos rfl

variable [Inhabited V]

/-- The rebuild has put back the keys of the cells in `pre`. -/
structure Refilling (E : P.Exact) (H : HashFn) (t : ControlPlaneLudo V P.State) (pre : List (Nat × Slot))
    (cur : ControlPlaneLudo V P.State) : Prop where
  arranged : Arranged H E cur cur.content
  oldBuckets : cur.oldBuckets = t.oldBuckets
  integrity : cur.integrity = false
  holds : ∀ x u, Lib.Holds cur.content x u ↔ ∃ c ∈ pre, t.saved c = some (x, u)

omit [Inhabited V] in
theorem content_emptied (t : ControlPlaneLudo V P.State) (l : P.State) (c : Nat × Slot) :
    (emptied P t l).content c = none := by
  obtain ⟨b, s⟩ := c
  rw [content_eq_none]
  intro _
  rfl

/-- Without a seed to draw, and while a rebuild goes on, no resize returns. -/
theorem seedless_stuck (hns : ∀ s r, P.rowSeed s ≠ .ok r) (hint : cp.integrity = false) (m target : Nat)
    (g : ControlPlaneLudo V P.State) : resizeCapacity H P lf m cp target true ≠ .ok g := by
  intro hok
  obtain ⟨m, next, -, -, hcase⟩ := resizeCapacity_cases hok
  cases hcase with
  | grown _ htrue =>
      rw [hint] at htrue
      cases htrue
  | rebuilt _ _ _ hseed => exact hns _ _ hseed

/-- One turn: the key of the cell goes back, if there is one. -/
theorem Refilling.step (hns : ∀ s r, P.rowSeed s ≠ .ok r) (honce : Lib.Once t.saved) {pre : List (Nat × Slot)}
    {c : Nat × Slot} (hc : c.1 < t.oldBuckets.size) (hnew : c ∉ pre) (hcur : Refilling E H t pre cur) :
    Lib.Returns (Refilling E H t (pre ++ [c])) (refill H P lf n t.oldBuckets.storage cur c) := by
  obtain ⟨b, s⟩ := c
  intro cq hcq
  have hlast : ∀ x u, (∃ d ∈ pre ++ [(b, s)], t.saved d = some (x, u)) ↔
      (∃ d ∈ pre, t.saved d = some (x, u)) ∨ t.saved (b, s) = some (x, u) := by
    intro x u
    simp [or_and_right, exists_or]
  unfold refill at hcq
  rw [hcur.oldBuckets, if_pos rfl] at hcq
  split at hcq
  · rename_i hmask
    dsimp only at hcq hmask
    have hsaved : t.saved (b, s) = some ((t.oldBuckets.get b).keys s, (t.oldBuckets.get b).values s) :=
      saved_eq_some.mpr ⟨hc, hmask, rfl, rfl⟩
    generalize hk : (t.oldBuckets.get b).keys s = k at hsaved
    generalize (t.oldBuckets.get b).values s = v at hcq hsaved
    have href : (KeyRef.old b s t.oldBuckets.storage).read cur = .ok k := by
      rw [← hcur.oldBuckets, read_old, hcur.oldBuckets, hk]
    have hmem : cur.isMember H k = false := by
      rw [Bool.eq_false_iff]
      intro hmem
      obtain ⟨w, hw⟩ := hcur.arranged.isMember_iff.mp hmem
      obtain ⟨d, hd, hw⟩ := (hcur.holds k w).mp hw
      rw [honce d (b, s) k w v hw hsaved] at hd
      exact hnew hd
    obtain ⟨q, hadded, rfl⟩ :=
      insert_settled href hcur.arranged hmem (fun m => seedless_stuck hns hcur.integrity m _) hcq
    refine ⟨hadded.arranged.counted, hadded.frame.oldBuckets.trans hcur.oldBuckets,
      hadded.frame.integrity.trans hcur.integrity, fun x u => ?_⟩
    rw [hlast, hsaved, ← hcur.holds]
    refine (hadded.holds_iff hcur.arranged.once x u).trans ?_
    constructor
    · rintro (⟨rfl, rfl⟩ | ⟨-, hold⟩)
      · exact .inr rfl
      · exact .inl hold
    · rintro (hold | hnow)
      · refine .inr ⟨?_, hold⟩
        rintro rfl
        exact hcur.arranged.not_holds hmem u hold
      · cases hnow
        exact .inl ⟨rfl, rfl⟩
  · rename_i hmask
    cases hcq
    refine ⟨hcur.arranged, hcur.oldBuckets, hcur.integrity, fun x u => ?_⟩
    have hsaved : t.saved (b, s) = none := saved_eq_none.mpr fun _ => by simpa using hmask
    rw [hlast, hsaved, hcur.holds]
    simp

/-- **A rebuild without another row seed** puts all saved keys back. -/
theorem tryBuild_spec (hns : ∀ s r, P.rowSeed s ≠ .ok r) (hpow : ∃ j, t.numBuckets = 2 ^ j)
    (hsize : t.buckets.size = t.numBuckets) (hint : t.integrity = false) (honce : Lib.Once t.saved)
    (hok : tryBuild H P lf n t = .ok g) :
    Arranged H E g g.content ∧ ∀ x u, Lib.Holds g.content x u ↔ Lib.Holds t.saved x u := by
  obtain ⟨m, l, built, -, -, hbuilt, rfl⟩ := tryBuild_cases hok
  have hfull : Refilling E H t (cells t.oldBuckets.size) built := by
    refine Lib.Returns.foldlM_prefix (I := Refilling E H t) (cells t.oldBuckets.size) ?_ ?_ built hbuilt
    · refine ⟨arranged_of_empty hpow hsize (content_emptied t l), rfl, hint, fun x u => ?_⟩
      simp [Lib.Holds, content_emptied]
    · intro pre c post cur hsplit hcur
      obtain ⟨hc, hnew⟩ := cells_split hsplit
      exact hcur.step hns honce hc hnew
  have ha := hfull.arranged
  refine ⟨⟨ha.pow, ha.size, ha.once, ha.located, ha.separated⟩, fun x u => (hfull.holds x u).trans ?_⟩
  constructor
  · rintro ⟨c, -, hc⟩
    exact ⟨c, hc⟩
  · rintro ⟨⟨b, s⟩, hc⟩
    exact ⟨(b, s), mem_cells.mpr (saved_eq_some.mp hc).1, hc⟩

end Refill

/-! ## The entries stay in place -/

section InPlace

variable [Inhabited V] {H : HashFn} {P : Locator} (E : P.Exact) {lf : LoadFactor} {t cp cq g : ControlPlaneLudo V P.State}
  {n : Nat} {target : Nat} {k : U64} {v : V}

/-- Insertions of depth `n` leave the entries in place, whatever key they read. -/
def KeepsInPlace (H : HashFn) (lf : LoadFactor) (V : Type) [Inhabited V] (n : Nat) : Prop :=
  ∀ (cp : ControlPlaneLudo V P.State) ref v, Arranged H E cp cp.content →
    Lib.Returns (fun cq => Arranged H E cq cq.content) (insert H P lf n cp ref v)

variable {E}

theorem tryBuild_arranged (hinsert : ∀ m < n, KeepsInPlace E H lf V m) (hpow : ∃ j, t.numBuckets = 2 ^ j)
    (hsize : t.buckets.size = t.numBuckets) (hok : tryBuild H P lf n t = .ok g) : Arranged H E g g.content := by
  obtain ⟨m, l, built, hn, -, hbuilt, rfl⟩ := tryBuild_cases hok
  have ha : Arranged H E built built.content := by
    refine Lib.Returns.foldlM (P := fun cur => Arranged H E cur cur.content) (cells t.oldBuckets.size) ?_ ?_ built hbuilt
    · exact arranged_of_empty hpow hsize (content_emptied t l)
    · intro cur hcur c _
      unfold refill
      split
      · split
        · exact hinsert m (by omega) cur _ _ hcur
        · exact Lib.Returns.ok hcur
      · exact Lib.Returns.error _
  exact ⟨ha.pow, ha.size, ha.once, ha.located, ha.separated⟩

theorem resize_arranged (hinsert : ∀ m < n, KeepsInPlace E H lf V m) (h : Arranged H E cp cp.content)
    (hok : resizeCapacity H P lf n cp target true = .ok g) : Arranged H E g g.content := by
  obtain ⟨m, next, hn, hnext, hcase⟩ := resizeCapacity_cases hok
  have hpow := LoadFactor.nextNbuckets_eq next hnext
  cases hcase with
  | grown hlt _ hg => exact (h.powerSize_spec hpow hlt g hg).arranged
  | rebuilt hm _ _ _ hg => exact tryBuild_arranged (fun i hi => hinsert i (by omega)) hpow rfl hg

theorem KeepsInPlace.step (hinsert : ∀ m < n, KeepsInPlace E H lf V m) (hlast : KeepsInPlace E H lf V n) :
    KeepsInPlace E H lf V (n + 1) := by
  intro cp ref v h cq hok
  obtain ⟨k, -, hcase⟩ := insert_cases hok
  cases hcase with
  | member hmem hcq =>
      subst hcq
      exact (h.changeValue_member hmem v).arranged
  | resized _ _ hg hq => exact hlast _ ref v (resize_arranged hinsert h hg) cq hq
  | placed hmem _ htarget hput hcq =>
      subst hcq
      exact (h.place hmem htarget v _ hput).arranged.counted
  | moved hmem _ htarget hsearch hmove hcq =>
      subst hcq
      exact (h.moved_spec hmem htarget hsearch hmove).arranged.counted
  | crowded hn _ _ _ _ hg hq hcq =>
      subst hcq
      have hg' := resize_arranged (fun i hi => hinsert i (by omega)) h hg
      exact (hinsert _ (by omega) _ ref v hg' _ hq).counted

/-- **Every insertion leaves the entries in place**, whatever rebuilds it starts. By strong induction on the depth: a
    rebuild at depth `n` inserts at a smaller one. -/
theorem insert_arranged (n : Nat) : KeepsInPlace E H lf V n := by
  induction n using Nat.strong_induction_on with
  | h n ih =>
      cases n with
      | zero =>
          intro cp ref v _
          unfold ControlPlaneLudo.insert
          exact Lib.Returns.error _
      | succ n => exact .step (fun m hm => ih m (by omega)) (ih n (by omega))

/-- An unforced resize to the size that the table has only sets the buckets aside. -/
theorem resizeCapacity_unforced (hok : resizeCapacity H P lf n cp target false = .ok g) :
    resizeCapacity H P lf n cp target true = .ok g ∨ ∃ l,
      P.resizeCapacity cp.locator (lf.capacity cp.numBuckets % 2 ^ 32) = .ok l ∧ g = setAside P lf cp cp.numBuckets l := by
  cases n with
  | zero => cases hok
  | succ n =>
      unfold resizeCapacity at hok ⊢
      obtain ⟨next, hnext, hok⟩ := Lib.bind_eq_ok.mp hok
      by_cases hsame : next = cp.numBuckets
      · right
        subst hsame
        split at hok
        · cases hok
        · dsimp only at hok
          rw [if_neg (fun hlt => absurd hlt.1 (lt_irrefl _))] at hok
          obtain ⟨l, hl, hok⟩ := Lib.bind_eq_ok.mp hok
          split at hok
          · cases hok
          · rw [if_neg (by simp)] at hok
            cases hok
            exact ⟨l, hl, rfl⟩
      · left
        refine Lib.bind_eq_ok.mpr ⟨next, hnext, ?_⟩
        simpa [hsame] using hok

theorem Arranged.setAside (h : Arranged H E cp cp.content) {l : P.State} (hl : E.bits l = E.bits cp.locator) :
    Arranged H E (setAside P lf cp cp.numBuckets l) (setAside P lf cp cp.numBuckets l).content := by
  have hcontent : (ControlPlaneLudo.setAside P lf cp cp.numBuckets l).content = cp.content :=
    content_resize cp h.size.le
  rw [hcontent]
  refine ⟨h.pow, rfl, h.once, ?_, ?_⟩
  · intro b s k v hc
    obtain ⟨bit, hbit, hcand⟩ := h.located b s k v hc
    refine ⟨bit, ?_, ?_⟩
    · show E.bits l k = some bit
      rw [hl, hbit]
    · rw [← hcand]
      unfold candidate
      rw [h.size]
      rfl
  · intro b s t k v k' v' hs ht
    obtain ⟨hb, -⟩ := content_eq_some.mp hs
    have hseed : ((ControlPlaneLudo.setAside P lf cp cp.numBuckets l).buckets.get b).seed = (cp.buckets.get b).seed :=
      congrArg CpBucket.seed (if_pos hb)
    rw [hseed]
    exact h.separated b s t k v k' v' hs ht

end InPlace

section Calls

variable [Inhabited V] {H : HashFn} {P : RemovableLocator} {E : P.Exact} {lf : LoadFactor}
  {empty cp : ControlPlaneLudo V P.State}

theorem call_arranged (h : Arranged H E.toExact cp cp.content) (a : IndexCall V) :
    Lib.Returns (fun cq => Arranged H E.toExact cq cq.content) (call H P lf cp a) := by
  cases a with
  | insert depth k v => exact insert_arranged depth cp (.value k) v h
  | remove k =>
      by_cases hmem : cp.isMember H k = true
      · obtain ⟨w, ⟨b, s⟩, hw⟩ := h.isMember_iff.mp hmem
        intro cq hcq
        exact (h.remove_spec hw cq hcq).2.2
      · show Lib.Returns _ (cp.remove H P k)
        rw [remove_absent (by simpa using hmem)]
        exact Lib.Returns.ok h
  | changeValue k v =>
      apply Lib.Returns.ok
      by_cases hmem : cp.isMember H k = true
      · exact (h.changeValue_member hmem v).arranged
      · rw [changeValue_absent (by simpa using hmem)]
        exact h
  | resizeCapacity depth target forceBuild =>
      intro g hg
      have hforced : ∀ {g}, resizeCapacity H P.toLocator lf depth cp target true = .ok g → Arranged H E.toExact g g.content :=
        fun hg => resize_arranged (fun m _ => insert_arranged m) h hg
      cases forceBuild with
      | true => exact hforced hg
      | false =>
          rcases resizeCapacity_unforced hg with hg | ⟨l, hl, rfl⟩
          · exact hforced hg
          · exact h.setAside (E.resizeCapacity _ _ l hl)

/-- **In every state of a table** the entries are in place. -/
theorem reached_arranged {locator : P.State} {capacity : Nat}
    (hempty : construct P.toLocator lf locator capacity = .ok empty)
    (hrun : Lib.Reaches (call H P lf) Lib.anyStep empty cp) : Arranged H E.toExact cp cp.content := by
  refine hrun.invariant (P := fun cp => Arranged H E.toExact cp cp.content) ?_ ?_
  · exact (construct_spec locator capacity empty hempty).toArranged
  · intro s a t hs _ ht
    exact call_arranged hs a t ht

end Calls

/-! ## The map -/

section Main

variable [Inhabited V] {H : HashFn} {P : Locator} {E : P.Exact} {lf : LoadFactor} {cp cq g g' : ControlPlaneLudo V P.State}
  {n next : Nat} {k : U64} {v : V}

/-- What is set aside is what the table held. -/
theorem saved_setAside (lf : LoadFactor) (cp : ControlPlaneLudo V P.State) (next : Nat) (l : P.State) :
    (setAside P lf cp next l).saved = cp.content := by
  funext c
  unfold saved content ControlPlaneLudo.setAside Buffer.assign
  split
  · by_cases hc : c.1 < cp.buckets.size
    · simp [hc]
    · simp [hc]
  · rfl

theorem ResizedOnce.keeps (h : Arranged H E cp cp.content) (hg : ResizedOnce H P lf cp g) :
    Arranged H E g g.content ∧ g.toMap = cp.toMap := by
  have hns : ∀ s r, P.withoutSeeds.rowSeed s ≠ .ok r := fun _ _ hr => by cases hr
  cases hg with
  | grown hg =>
      obtain ⟨next, -, -, hgrown⟩ := seedless_resize hns (Arranged.withoutSeeds.mpr h) hg
      exact ⟨Arranged.withoutSeeds.mp hgrown.arranged, hgrown.toMap⟩
  | @rebuilt m next seed l l' hnext _ _ _ hg =>
      have hsaved : ({ setAside P lf cp next l with hSeed := seed, locator := l' } : ControlPlaneLudo V P.State).saved
          = cp.content := saved_setAside lf cp next l
      obtain ⟨harranged, hholds⟩ := tryBuild_spec (E := E.withoutSeeds) hns (LoadFactor.nextNbuckets_eq next hnext) rfl rfl
        (by rw [hsaved]; exact h.once) hg
      have harranged' := Arranged.withoutSeeds.mp harranged
      refine ⟨harranged', funext fun x => toMap_congr h.once harranged'.once fun u => ?_⟩
      rw [hholds x u, hsaved]

/-- The resize that was not disturbed is the one that the insertion makes. -/
theorem ResizedOnce.unique (hg : ResizedOnce H P lf cp g)
    (hg' : resizeCapacity H P lf n cp cp.nextKeys true = .ok g') : g' = g := by
  cases hg with
  | @grown m hg => exact ((seedlessAgree H P lf m).resizeCapacity n cp _ true g g' hg hg').symm
  | @rebuilt m next seed l l' hnext hnot hl hseed hg =>
      obtain ⟨m', next', -, hnext', hcase⟩ := resizeCapacity_cases hg'
      obtain rfl : next = next' := Except.ok.inj (hnext.symm.trans hnext')
      cases hcase with
      | grown hlt hint => exact absurd ⟨hlt, hint⟩ hnot
      | @rebuilt m'' seed' k l'' hn _ hl' hseed' hg' =>
          obtain rfl : l = k := Except.ok.inj (hl.symm.trans hl')
          cases hseed.symm.trans hseed'
          exact (tryBuild_withoutSeeds m m'' _ g g' hg hg').symm

/-- An undisturbed insertion changes the map at its key. By induction on the resizes it makes. -/
theorem Undisturbed.insert_spec (hcalm : Undisturbed H P lf k cp) :
    ∀ {n cq}, Arranged H E cp cp.content → insert H P lf n cp (.value k) v = .ok cq →
      cq.toMap = Function.update cp.toMap k (some v) := by
  induction hcalm with
  | @settled cp hroom =>
      intro n cq h hok
      cases n with
      | zero =>
          unfold ControlPlaneLudo.insert at hok
          cases hok
      | succ n =>
          obtain ⟨k', hk', hcase⟩ := insert_cases hok
          cases hk'
          cases hcase with
          | member hmem hcq =>
              subst hcq
              exact (h.changeValue_member hmem v).toMap
          | resized hmem hfull => exact absurd ⟨hmem, .inl hfull⟩ hroom
          | placed hmem _ htarget hput hcq =>
              subst hcq
              exact (h.place hmem htarget v _ hput).toMap
          | moved hmem _ htarget hsearch hmove hcq =>
              subst hcq
              exact (h.moved_spec hmem htarget hsearch hmove).toMap
          | crowded _ hmem _ htarget hsearch => exact absurd ⟨hmem, .inr ⟨htarget, hsearch⟩⟩ hroom
  | @resized cp g hneeds hg hrest ih =>
      intro n cq h hok
      obtain ⟨harranged, hmap⟩ := hg.keeps h
      rw [← hmap]
      cases n with
      | zero =>
          unfold ControlPlaneLudo.insert at hok
          cases hok
      | succ n =>
          obtain ⟨k', hk', hcase⟩ := insert_cases hok
          cases hk'
          cases hcase with
          | member hmem =>
              rw [hneeds.1] at hmem
              cases hmem
          | resized _ _ hg' hq =>
              obtain rfl := hg.unique hg'
              exact ih harranged hq
          | placed _ hroom htarget =>
              rcases hneeds.2 with hfull | ⟨hnone, -⟩
              · exact absurd hfull hroom
              · rw [htarget] at hnone
                cases hnone
          | moved _ hroom _ hsearch =>
              rcases hneeds.2 with hfull | ⟨-, hnone⟩
              · exact absurd hfull hroom
              · rw [hsearch] at hnone
                cases hnone
          | crowded _ _ _ _ _ hg' hq hcq =>
              obtain rfl := hg.unique hg'
              subst hcq
              have hadded := ih harranged hq
              exact hadded

end Main

/-- **A rebuild loses no key where none disturbs it.** In every state of a table: an insertion that returns, and in which
    no rebuild starts while another one puts its keys back, leaves the map updated at its key. -/
theorem undisturbed_keeps_map [Inhabited V] {H : HashFn} {P : RemovableLocator} (E : P.Exact) {lf : LoadFactor}
    {empty cp cq : ControlPlaneLudo V P.State} {locator : P.State} {capacity n : Nat} {k : U64} {v : V}
    (hempty : construct P.toLocator lf locator capacity = .ok empty)
    (hrun : Lib.Reaches (call H P lf) Lib.anyStep empty cp) (hcalm : Undisturbed H P.toLocator lf k cp)
    (hok : insert H P.toLocator lf n cp (.value k) v = .ok cq) : cq.toMap = Function.update cp.toMap k (some v) :=
  hcalm.insert_spec (E := E.toExact) (reached_arranged hempty hrun) hok

/-! ## The 128 buckets of `ControlPlaneLudo(256)` -/

/-- The row seeds made of the first four values of `rand()` from its default seed, in the C library of the servers. -/
def glibcRowSeeds (i : Nat) : U64 := [0x6b8b4567327b23c6, 0x643c986966334873].getD i 0

/-- The exact map with these row seeds. -/
abbrev seededLocator : RemovableLocator := mapLocator glibcRowSeeds

/-- A control plane of 64-bit values over it. -/
abbrev SeededLudo := ControlPlaneLudo U64 seededLocator.State

/-- Four keys whose two candidate buckets are bucket 85. -/
def fullBucketCalls : List (IndexCall U64) := [.insert 1 175 0, .insert 1 2709 1, .insert 1 9388 2, .insert 1 13105 3]

/-- The key 14974 has no other bucket: it goes into the table that is rebuilt for it. -/
theorem undisturbed_keeps_four : ∃ empty cp cq : SeededLudo,
    construct seededLocator.toLocator defaultLoadFactor (fun _ => none, 0) 256 = .ok empty ∧
    Lib.Reaches (call fastHasher64 seededLocator defaultLoadFactor) Lib.anyStep empty cp ∧
    cp.NeedsRoom fastHasher64 14974 ∧
    insert fastHasher64 seededLocator.toLocator defaultLoadFactor 6 cp (.value 14974) 4 = .ok cq ∧
    cq.toMap = Function.update cp.toMap 14974 (some 4) := by
  obtain ⟨empty, hempty, hload⟩ := Lib.exists_of_passes
    (x := construct seededLocator.toLocator defaultLoadFactor (fun _ => none, 0) 256)
    (p := fun empty : SeededLudo => (Lib.runAlong (call fastHasher64 seededLocator defaultLoadFactor) Lib.anyStep
        fullBucketCalls empty).any fun cp : SeededLudo =>
      (!cp.isMember fastHasher64 14974 && (cp.targetSlot fastHasher64 14974).isNone &&
        Lib.passes Option.isNone (cp.cuckooSearch fastHasher64 14974)) &&
      (decide (cp.numBuckets = 128) &&
        Lib.passes (fun next => decide (next = 128))
          (defaultLoadFactor.nextNbuckets 58 (max cp.nKeys (max cp.nextKeys 256))) &&
        Lib.passes (fun g : SeededLudo =>
            !decide (g.capacity < g.nextKeys) && (g.targetSlot fastHasher64 14974).isSome)
          (tryBuild fastHasher64 seededLocator.withoutSeeds defaultLoadFactor 3
            { setAside seededLocator.toLocator defaultLoadFactor cp 128 cp.locator with
              hSeed := glibcRowSeeds cp.locator.2, locator := (cp.locator.1, cp.locator.2 + 1) })) &&
      Lib.passes (fun _ => true)
        (insert fastHasher64 seededLocator.toLocator defaultLoadFactor 6 cp (.value 14974) 4)) (by decide +kernel)
  obtain ⟨cp, hrun, htest⟩ := Lib.exists_along _ hload
  simp only [Bool.and_eq_true, Bool.not_eq_true', decide_eq_true_eq, Option.isNone_iff_eq_none] at htest
  obtain ⟨⟨⟨⟨hmem, htarget⟩, hsearch⟩, ⟨hsize, hnext⟩, hbuild⟩, hinsert⟩ := htest
  obtain ⟨found, hfound, hnone⟩ := Lib.exists_of_passes hsearch
  obtain ⟨next, hnext, h128⟩ := Lib.exists_of_passes hnext
  obtain ⟨g, hg, hroom⟩ := Lib.exists_of_passes hbuild
  obtain ⟨cq, hcq, -⟩ := Lib.exists_of_passes hinsert
  simp only [Bool.and_eq_true, Bool.not_eq_true', decide_eq_true_eq, decide_eq_false_iff_not,
    Option.isNone_iff_eq_none] at hnone h128 hroom
  subst hnone h128
  have hneeds : cp.NeedsRoom fastHasher64 14974 := ⟨hmem, .inr ⟨htarget, hfound⟩⟩
  have hsettled : ¬ g.NeedsRoom fastHasher64 14974 := by
    rintro ⟨-, hfull | ⟨hnone, -⟩⟩
    · exact hroom.1 hfull
    · rw [hnone] at hroom
      exact absurd hroom.2 (by simp)
  have honce : ResizedOnce fastHasher64 seededLocator.toLocator defaultLoadFactor cp g :=
    .rebuilt hnext (fun hlt => absurd hlt.1 (by rw [hsize]; decide)) rfl rfl hg
  exact ⟨empty, cp, cq, hempty, hrun, hneeds, hcq,
    undisturbed_keeps_map (mapLocator_exact glibcRowSeeds) hempty hrun (.resized hneeds honce (.settled hsettled)) hcq⟩

/-- Five keys in front of them whose two candidate buckets are bucket 52 under the first row seed that is drawn. -/
def crowdingCalls : List (IndexCall U64) :=
  [.insert 1 1271 0, .insert 1 6768 1, .insert 1 7614 2, .insert 1 15953 3, .insert 1 24097 4]

/-- **A rebuild in a rebuild loses keys.** The key 14974 finds no path, and the table is rebuilt. The last of the five
    keys in front finds no path either, another rebuild assigns `oldBuckets`, and the keys of bucket 85 are gone. -/
theorem disturbed_loses_four : ∃ empty cp cq : SeededLudo,
    construct seededLocator.toLocator defaultLoadFactor (fun _ => none, 0) 256 = .ok empty ∧
    Lib.Reaches (call fastHasher64 seededLocator defaultLoadFactor) Lib.anyStep empty cp ∧
    insert fastHasher64 seededLocator.toLocator defaultLoadFactor 11 cp (.value 14974) 4 = .ok cq ∧
    (∀ k ∈ [175, 2709, 9388, 13105], (cp.toMap k).isSome = true ∧ cq.toMap k = none) ∧
    cq.toMap ≠ Function.update cp.toMap 14974 (some 4) := by
  obtain ⟨empty, hempty, hload⟩ := Lib.exists_of_passes
    (x := construct seededLocator.toLocator defaultLoadFactor (fun _ => none, 0) 256)
    (p := fun empty : SeededLudo => (Lib.runAlong (call fastHasher64 seededLocator defaultLoadFactor) Lib.anyStep
        (crowdingCalls ++ fullBucketCalls) empty).any fun cp : SeededLudo =>
      Lib.passes (fun cq : SeededLudo => [175, 2709, 9388, 13105].all fun k =>
          cp.isMember fastHasher64 k && !cq.isMember fastHasher64 k)
        (insert fastHasher64 seededLocator.toLocator defaultLoadFactor 11 cp (.value 14974) 4)) (by decide +kernel)
  obtain ⟨cp, hrun, htest⟩ := Lib.exists_along _ hload
  obtain ⟨cq, hcq, hlost⟩ := Lib.exists_of_passes htest
  rw [List.all_eq_true] at hlost
  have hcp : Arranged fastHasher64 (mapLocator_exact glibcRowSeeds).toExact cp cp.content := reached_arranged hempty hrun
  have hcq' : Arranged fastHasher64 (mapLocator_exact glibcRowSeeds).toExact cq cq.content :=
    insert_arranged 11 cp _ _ hcp cq hcq
  have hlost' : ∀ k ∈ [175, 2709, 9388, 13105], (cp.toMap k).isSome = true ∧ cq.toMap k = none := by
    intro k hk
    obtain ⟨hbefore, hafter⟩ := Bool.and_eq_true _ _ ▸ hlost k hk
    exact ⟨by rw [← hcp.isMember_eq, hbefore], hcq'.toMap_eq_none (by simpa using hafter)⟩
  refine ⟨empty, cp, cq, hempty, hrun, hcq, hlost', ?_⟩
  intro heq
  obtain ⟨hsome, hnone⟩ := hlost' 175 List.mem_cons_self
  rw [heq, Function.update_of_ne (by decide)] at hnone
  rw [hnone] at hsome
  cases hsome

end ControlPlaneLudo

end Outback
