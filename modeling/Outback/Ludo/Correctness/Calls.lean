import Outback.Ludo.Correctness.Growth

/-!
# `Ludo.Correctness.Calls` — what one call can do

`insert`, `CuckooInsert`, `resizeCapacity`, `build` and `tryBuild` call each other. `InsertCase` lists what one call of
`insert` that returned has done, with the call of `CuckooInsert` opened up, and `ResizeCase` the same of a forced
`resizeCapacity`: it has grown the table in place, or set the buckets aside and put all keys back into an empty table.

A run over `Locator.withoutSeeds` that returns is a run over the locator itself (`withoutSeeds_agree`).
-/

namespace Outback

namespace ControlPlaneLudo

variable {V : Type} [Inhabited V] (H : HashFn) (P : Locator) (lf : LoadFactor)

/-- `nKeys++`. -/
def counted {L : Type} (cp : ControlPlaneLudo V L) : ControlPlaneLudo V L := { cp with nKeys := cp.nextKeys }

/-- One call of `insert` that returned `cq`; `k` is the key it read. -/
inductive InsertCase (n : Nat) (cp : ControlPlaneLudo V P.State) (ref : KeyRef) (v : V) (k : U64)
    (cq : ControlPlaneLudo V P.State) : Prop where
  /-- the key was there -/
  | member (hmem : cp.isMember H k = true) (h : cq = cp.changeValue H k v)
  /-- at capacity: the table was resized first -/
  | resized {g : ControlPlaneLudo V P.State} (hmem : cp.isMember H k = false) (hfull : cp.capacity < cp.nextKeys)
      (hg : resizeCapacity H P lf n cp cp.nextKeys true = .ok g) (h : insert H P lf n g ref v = .ok cq)
  /-- into a free slot -/
  | placed {b : Nat} {s : Slot} {q : ControlPlaneLudo V P.State} (hmem : cp.isMember H k = false)
      (hroom : ¬ cp.capacity < cp.nextKeys) (htarget : cp.targetSlot H k = some (b, s))
      (hput : cp.putItem H P k v b s (b == cp.candidate H k false) = .ok q) (h : cq = q.counted)
  /-- along a cuckoo path -/
  | moved {e : CuckooPathEntry} {s : Slot} {vis : List CuckooPathEntry} {q : ControlPlaneLudo V P.State}
      (hmem : cp.isMember H k = false) (hroom : ¬ cp.capacity < cp.nextKeys) (htarget : cp.targetSlot H k = none)
      (hsearch : cp.cuckooSearch H k = .ok (some (e, s, vis))) (hmove : cp.cuckooMove H P k v e s vis = .ok q)
      (h : cq = q.counted)
  /-- without a path: the table was resized and the insertion started over, and both insertions counted the key -/
  | crowded {m : Nat} {g q : ControlPlaneLudo V P.State} (hn : n = m + 1) (hmem : cp.isMember H k = false)
      (hroom : ¬ cp.capacity < cp.nextKeys) (htarget : cp.targetSlot H k = none)
      (hsearch : cp.cuckooSearch H k = .ok none) (hg : resizeCapacity H P lf m cp cp.nextKeys true = .ok g)
      (hq : insert H P lf m g ref v = .ok q) (h : cq = q.counted)

/-- What `resizeCapacity` hands to `build`: the buckets are saved in `oldBuckets`. -/
def setAside (cp : ControlPlaneLudo V P.State) (next : Nat) (locator : P.State) : ControlPlaneLudo V P.State :=
  { cp with
    numBuckets := next
    capacity := lf.capacity next % 2 ^ 32
    integrity := false
    oldBuckets := cp.oldBuckets.assign cp.buckets
    locator := locator
    buckets := cp.buckets.resize next .empty }

/-- The empty table that `tryBuild` puts the keys of `oldBuckets` into. -/
def emptied (cp : ControlPlaneLudo V P.State) (locator : P.State) : ControlPlaneLudo V P.State :=
  { cp with
    locator := locator
    nKeys := 0
    buckets := ⟨cp.buckets.size, fun b => { cp.buckets.get b with occupiedMask := fun _ => false }⟩ }

/-- One turn of the loops of `tryBuild`. -/
def refill (n storage : Nat) (cur : ControlPlaneLudo V P.State) (cell : Nat × Slot) :
    LudoExec (ControlPlaneLudo V P.State) :=
  if cur.oldBuckets.storage = storage then
    if (cur.oldBuckets.get cell.1).occupiedMask cell.2 then
      insert H P lf n cur (.old cell.1 cell.2 storage) ((cur.oldBuckets.get cell.1).values cell.2)
    else .ok cur
  else .error .dangling

/-- One forced call of `resizeCapacity` that returned `g`. -/
inductive ResizeCase (n : Nat) (cp : ControlPlaneLudo V P.State) (next : Nat) (g : ControlPlaneLudo V P.State) : Prop where
  /-- in place -/
  | grown (hlt : cp.numBuckets < next) (hint : cp.integrity = true)
      (hg : { cp with numBuckets := next, capacity := lf.capacity next % 2 ^ 32 }.powerSize H P (next / cp.numBuckets)
        = .ok g)
  /-- by a rebuild under a new row seed -/
  | rebuilt {m : Nat} {seed : U64} {l l' : P.State} (hn : n = m + 1)
      (hnot : ¬ (cp.numBuckets < next ∧ cp.integrity = true))
      (hl : P.resizeCapacity cp.locator (lf.capacity next % 2 ^ 32) = .ok l) (hseed : P.rowSeed l = .ok (seed, l'))
      (hg : tryBuild H P lf m { setAside P lf cp next l with hSeed := seed, locator := l' } = .ok g)

variable {H P lf} {cp cq g : ControlPlaneLudo V P.State} {n m target : Nat} {ref : KeyRef} {k : U64} {v : V}

theorem insert_cases (hok : insert H P lf (n + 1) cp ref v = .ok cq) :
    ∃ k, ref.read cp = .ok k ∧ InsertCase H P lf n cp ref v k cq := by
  unfold ControlPlaneLudo.insert at hok
  obtain ⟨k, hk, hok⟩ := Lib.bind_eq_ok.mp hok
  refine ⟨k, hk, ?_⟩
  split at hok
  · rename_i hmem
    cases hok
    exact .member hmem rfl
  · rename_i hmem
    have hmem' : cp.isMember H k = false := by simpa using hmem
    split at hok
    · rename_i hfull
      obtain ⟨g, hg, hok⟩ := Lib.bind_eq_ok.mp hok
      exact .resized hmem' hfull hg hok
    · rename_i hroom
      dsimp only at hok
      obtain ⟨q, hq, hok⟩ := Lib.bind_eq_ok.mp hok
      cases hok
      split at hq
      · rename_i b s htarget
        exact .placed hmem' hroom htarget hq rfl
      · rename_i htarget
        cases n with
        | zero => cases hq
        | succ m =>
            unfold cuckooInsert at hq
            obtain ⟨k', hk', hq⟩ := Lib.bind_eq_ok.mp hq
            obtain rfl : k = k' := Except.ok.inj (hk.symm.trans hk')
            obtain ⟨found, hsearch, hq⟩ := Lib.bind_eq_ok.mp hq
            cases found with
            | some path => exact .moved hmem' hroom htarget hsearch hq rfl
            | none =>
                obtain ⟨g, hg, hq⟩ := Lib.bind_eq_ok.mp hq
                exact .crowded rfl hmem' hroom htarget hsearch hg hq rfl

theorem resizeCapacity_cases (hok : resizeCapacity H P lf n cp target true = .ok g) : ∃ m next, n = m + 1 ∧
    lf.nextNbuckets 58 (max cp.nKeys (max target 256)) = .ok next ∧ ResizeCase H P lf m cp next g := by
  cases n with
  | zero => cases hok
  | succ m =>
      unfold resizeCapacity at hok
      obtain ⟨next, hnext, hok⟩ := Lib.bind_eq_ok.mp hok
      refine ⟨m, next, rfl, hnext, ?_⟩
      split at hok
      · cases hok
      · dsimp only at hok
        by_cases hgrow : cp.numBuckets < next ∧ cp.integrity = true
        · rw [if_pos hgrow, if_pos hgrow.1] at hok
          exact .grown hgrow.1 hgrow.2 hok
        · rw [if_neg hgrow] at hok
          obtain ⟨l, hl, hok⟩ := Lib.bind_eq_ok.mp hok
          split at hok
          · cases hok
          · rw [if_pos (.inl rfl)] at hok
            cases m with
            | zero => cases hok
            | succ m =>
                unfold build at hok
                obtain ⟨⟨seed, l'⟩, hseed, hok⟩ := Lib.bind_eq_ok.mp hok
                exact .rebuilt rfl hgrow hl hseed hok

theorem tryBuild_cases (hok : tryBuild H P lf n cp = .ok g) : ∃ m l built, n = m + 1 ∧ P.clear cp.locator = .ok l ∧
    (cells cp.oldBuckets.size).foldlM (refill H P lf m cp.oldBuckets.storage) (emptied P cp l) = .ok built ∧
    g = { built with integrity := true } := by
  cases n with
  | zero => cases hok
  | succ m =>
      unfold tryBuild at hok
      obtain ⟨l, hl, hok⟩ := Lib.bind_eq_ok.mp hok
      obtain ⟨built, hbuilt, hok⟩ := Lib.bind_eq_ok.mp hok
      cases hok
      exact ⟨m, l, built, rfl, hl, hbuilt, rfl⟩

/-! ## Runs without a call of `build` -/

/-- The five functions at depth `n` without seeds agree with those at any depth. -/
structure SeedlessAgree (H : HashFn) (P : Locator) (lf : LoadFactor) (V : Type) [Inhabited V] (n : Nat) : Prop where
  insert : ∀ m (cp : ControlPlaneLudo V P.State) ref v,
    Lib.Agree Eq (insert H P.withoutSeeds lf n cp ref v) (insert H P lf m cp ref v)
  cuckooInsert : ∀ m (cp : ControlPlaneLudo V P.State) ref v,
    Lib.Agree Eq (cuckooInsert H P.withoutSeeds lf n cp ref v) (cuckooInsert H P lf m cp ref v)
  resizeCapacity : ∀ m (cp : ControlPlaneLudo V P.State) target force,
    Lib.Agree Eq (resizeCapacity H P.withoutSeeds lf n cp target force) (resizeCapacity H P lf m cp target force)

theorem build_withoutSeeds (n : Nat) (cp : ControlPlaneLudo V P.State) (g : ControlPlaneLudo V P.State) :
    build H P.withoutSeeds lf n cp ≠ .ok g := by
  intro hok
  cases n with
  | zero => cases hok
  | succ n =>
      unfold build at hok
      cases hok

omit [Inhabited V] in
theorem followPath_withoutSeeds (visited : List CuckooPathEntry) (n : Nat) (cp : ControlPlaneLudo V P.State)
    (e : CuckooPathEntry) (s : Slot) (toFirstBucket : Bool) : followPath H P.withoutSeeds visited n cp e s toFirstBucket
      = followPath H P visited n cp e s toFirstBucket := by
  induction n generalizing cp e s toFirstBucket with
  | zero => rfl
  | succ n ih =>
      unfold followPath
      cases e.parent with
      | none => rfl
      | some parent =>
          obtain ⟨p, ps⟩ := parent
          dsimp only
          cases visited[p]? with
          | none => rfl
          | some pe =>
              exact congrArg (fun f => cp.moveItem H P pe.bucket ps e.bucket s >>= f) (funext fun cp' => ih cp' pe ps _)

omit [Inhabited V] in
theorem cuckooMove_withoutSeeds (cp : ControlPlaneLudo V P.State) (k : U64) (v : V) (e : CuckooPathEntry) (s : Slot)
    (visited : List CuckooPathEntry) :
    cp.cuckooMove H P.withoutSeeds k v e s visited = cp.cuckooMove H P k v e s visited := by
  unfold cuckooMove
  rw [followPath_withoutSeeds]
  rfl

theorem insert_seedless (ih : SeedlessAgree H P lf V n) (m : Nat) (cp : ControlPlaneLudo V P.State) (ref : KeyRef) (v : V) :
    Lib.Agree Eq (insert H P.withoutSeeds lf (n + 1) cp ref v) (insert H P lf (m + 1) cp ref v) := by
  unfold ControlPlaneLudo.insert
  refine Lib.Agree.bind (Lib.Agree.refl _ fun _ => rfl) ?_
  rintro k _ rfl
  refine Lib.Agree.ite Iff.rfl (fun _ => Lib.Agree.refl _ fun _ => rfl) fun _ => ?_
  refine Lib.Agree.ite Iff.rfl (fun _ => ?_) fun _ => ?_
  · refine Lib.Agree.bind (ih.resizeCapacity m cp _ true) ?_
    rintro g _ rfl
    exact ih.insert m g ref v
  · refine Lib.Agree.bind (R := Eq) ?_ ?_
    · cases cp.targetSlot H k with
      | some target => exact Lib.Agree.refl _ fun _ => rfl
      | none => exact ih.cuckooInsert m cp ref v
    · rintro q _ rfl
      exact Lib.Agree.ok rfl

theorem cuckooInsert_seedless (ih : SeedlessAgree H P lf V n) (m : Nat) (cp : ControlPlaneLudo V P.State) (ref : KeyRef)
    (v : V) :
    Lib.Agree Eq (cuckooInsert H P.withoutSeeds lf (n + 1) cp ref v) (cuckooInsert H P lf (m + 1) cp ref v) := by
  unfold ControlPlaneLudo.cuckooInsert
  refine Lib.Agree.bind (Lib.Agree.refl _ fun _ => rfl) ?_
  rintro k _ rfl
  refine Lib.Agree.bind (Lib.Agree.refl _ fun _ => rfl) ?_
  rintro found _ rfl
  cases found with
  | some path =>
      dsimp only
      rw [cuckooMove_withoutSeeds]
      exact Lib.Agree.refl _ fun _ => rfl
  | none =>
      refine Lib.Agree.bind (ih.resizeCapacity m cp _ true) ?_
      rintro g _ rfl
      exact ih.insert m g ref v

theorem resizeCapacity_seedless (n m : Nat) (cp : ControlPlaneLudo V P.State) (target : Nat) (force : Bool) :
    Lib.Agree Eq (resizeCapacity H P.withoutSeeds lf (n + 1) cp target force)
      (resizeCapacity H P lf (m + 1) cp target force) := by
  unfold ControlPlaneLudo.resizeCapacity
  refine Lib.Agree.bind (Lib.Agree.refl _ fun _ => rfl) ?_
  rintro next _ rfl
  refine Lib.Agree.ite Iff.rfl (fun _ => Lib.Agree.error_left _ _) fun _ => ?_
  dsimp only
  refine Lib.Agree.ite Iff.rfl (fun _ => Lib.Agree.refl _ fun _ => rfl) fun _ => ?_
  refine Lib.Agree.bind (Lib.Agree.refl _ fun _ => rfl) ?_
  rintro l _ rfl
  refine Lib.Agree.ite Iff.rfl (fun _ => Lib.Agree.error_left _ _) fun _ => ?_
  refine Lib.Agree.ite Iff.rfl (fun _ => ?_) fun _ => Lib.Agree.refl _ fun _ => rfl
  exact fun g _ hg => absurd hg (build_withoutSeeds n _ g)

/-- By induction on the depth without seeds. -/
theorem seedlessAgree (H : HashFn) (P : Locator) (lf : LoadFactor) (n : Nat) : SeedlessAgree H P lf V n := by
  induction n with
  | zero =>
      refine ⟨?_, ?_, ?_⟩
      all_goals intros
      all_goals exact Lib.Agree.error_left _ _
  | succ n ih =>
      refine ⟨?_, ?_, ?_⟩
      · rintro (_ | m) cp ref v
        · exact Lib.Agree.error_right _ _
        · exact insert_seedless ih m cp ref v
      · rintro (_ | m) cp ref v
        · exact Lib.Agree.error_right _ _
        · exact cuckooInsert_seedless ih m cp ref v
      · rintro (_ | m) cp target force
        · exact Lib.Agree.error_right _ _
        · exact resizeCapacity_seedless n m cp target force

/-- **A run that never calls `build`** returns what it returns without seeds to draw. -/
theorem insert_withoutSeeds (n m : Nat) (cp : ControlPlaneLudo V P.State) (ref : KeyRef) (v : V) :
    Lib.Agree Eq (insert H P.withoutSeeds lf n cp ref v) (insert H P lf m cp ref v) :=
  (seedlessAgree H P lf n).insert m cp ref v

/-- A rebuild whose insertions start no further one. -/
theorem tryBuild_withoutSeeds (n m : Nat) (cp : ControlPlaneLudo V P.State) :
    Lib.Agree Eq (tryBuild H P.withoutSeeds lf n cp) (tryBuild H P lf m cp) := by
  rcases n with _ | n
  · exact Lib.Agree.error_left _ _
  · rcases m with _ | m
    · exact Lib.Agree.error_right _ _
    · unfold tryBuild
      refine Lib.Agree.bind (Lib.Agree.refl _ fun _ => rfl) ?_
      rintro l _ rfl
      refine Lib.Agree.bind (R := Eq) (Lib.Agree.foldlM _ rfl ?_) ?_
      · rintro cur _ rfl c -
        refine Lib.Agree.ite Iff.rfl (fun _ => ?_) fun _ => Lib.Agree.error_left _ _
        exact Lib.Agree.ite Iff.rfl (fun _ => insert_withoutSeeds (P := P) n m cur _ _) fun _ => Lib.Agree.refl _ fun _ => rfl
      · rintro built _ rfl
        exact Lib.Agree.ok rfl

end ControlPlaneLudo

end Outback
