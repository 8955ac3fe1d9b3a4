import Outback.Ludo.Insert

/-!
# `Ludo.InsertAgree` — two insertions that differ in their values and in their locators

Where a key ends up depends neither on the values nor on the seeds of the Othello. Two control planes are `Alike` when
they agree on everything but these; over locators that answer alike, `insert` takes alike control planes to alike ones
(`insert_agree`), through every cuckoo path and every rebuild, whatever the bounds on the depth of the calls are.
-/

namespace Outback

variable {V W : Type}

/-! ## Buckets with the same keys -/

/-- Two buckets with the same keys in the same slots, under the same seed. -/
structure CpBucket.Alike (b : CpBucket V) (c : CpBucket W) : Prop where
  seed : b.seed = c.seed
  occupiedMask : b.occupiedMask = c.occupiedMask
  keys : b.keys = c.keys

structure Vec.Alike (v : Vec (CpBucket V)) (w : Vec (CpBucket W)) : Prop where
  size : v.size = w.size
  get : ∀ i, (v.get i).Alike (w.get i)

structure Buffer.Alike (v : Buffer (CpBucket V)) (w : Buffer (CpBucket W)) : Prop where
  vec : v.toVec.Alike w.toVec
  allocated : v.allocated = w.allocated
  storage : v.storage = w.storage

theorem CpBucket.Alike.empty [Inhabited V] [Inhabited W] : (CpBucket.empty : CpBucket V).Alike (.empty : CpBucket W) :=
  ⟨rfl, rfl, rfl⟩

theorem Vec.Alike.set {v : Vec (CpBucket V)} {w : Vec (CpBucket W)} (h : v.Alike w) (i : Nat) {b : CpBucket V}
    {c : CpBucket W} (hbc : b.Alike c) : (v.set i b).Alike (w.set i c) := by
  refine ⟨h.size, fun j => ?_⟩
  by_cases hj : j = i
  · subst hj
    simpa [Vec.set] using hbc
  · simpa [Vec.set, Function.update_of_ne hj] using h.get j

theorem Vec.Alike.resize {v : Vec (CpBucket V)} {w : Vec (CpBucket W)} (h : v.Alike w) (n : Nat) {b : CpBucket V}
    {c : CpBucket W} (hbc : b.Alike c) : (v.resize n b).Alike (w.resize n c) := by
  refine ⟨rfl, fun i => ?_⟩
  simp only [Vec.resize, ← h.size]
  split
  · exact h.get i
  · exact hbc

theorem Buffer.Alike.assign {v : Buffer (CpBucket V)} {w : Buffer (CpBucket W)} (h : v.Alike w)
    {x : Vec (CpBucket V)} {y : Vec (CpBucket W)} (hxy : x.Alike y) : (v.assign x).Alike (w.assign y) := by
  unfold Buffer.assign
  rw [← h.allocated, ← hxy.size]
  split
  · refine ⟨⟨rfl, fun i => ?_⟩, rfl, h.storage⟩
    dsimp only
    split
    · exact hxy.get i
    · exact h.vec.get i
  · exact ⟨hxy, rfl, by rw [h.storage]⟩

namespace ControlPlaneLudo

/-! ## Tables with the same keys -/

/-- Two control planes that agree but for their values, over related locators. -/
structure Alike {L M : Type} (ρ : L → M → Prop) (cp : ControlPlaneLudo V L) (cq : ControlPlaneLudo W M) : Prop where
  numBuckets : cp.numBuckets = cq.numBuckets
  hSeed : cp.hSeed = cq.hSeed
  nKeys : cp.nKeys = cq.nKeys
  capacity : cp.capacity = cq.capacity
  buckets : cp.buckets.Alike cq.buckets
  oldBuckets : cp.oldBuckets.Alike cq.oldBuckets
  integrity : cp.integrity = cq.integrity
  locator : ρ cp.locator cq.locator

section Buckets

variable {H : HashFn} {L M : Type} {ρ : L → M → Prop} {cp : ControlPlaneLudo V L} {cq : ControlPlaneLudo W M}

theorem Alike.setBucket (h : Alike ρ cp cq) (b : Nat) {x : CpBucket V} {y : CpBucket W} (hxy : x.Alike y) :
    Alike ρ (cp.setBucket b x) (cq.setBucket b y) :=
  { h with buckets := h.buckets.set b hxy }

theorem Alike.candidate (h : Alike ρ cp cq) : cp.candidate H = cq.candidate H := by
  funext k second
  unfold ControlPlaneLudo.candidate
  rw [h.hSeed, h.buckets.size]

theorem Alike.fill (h : Alike ρ cp cq) (b : Nat) (s : Slot) (k : U64) (v : V) (w : W) :
    Alike ρ (cp.fill b s k v) (cq.fill b s k w) := by
  have hb := h.buckets.get b
  apply h.setBucket
  exact ⟨hb.seed, by rw [hb.occupiedMask], by rw [hb.keys]⟩

theorem Alike.mark (h : Alike ρ cp cq) (b : Nat) (s : Slot) (occupied : Bool) :
    Alike ρ (cp.mark b s occupied) (cq.mark b s occupied) := by
  have hb := h.buckets.get b
  apply h.setBucket
  exact ⟨hb.seed, by rw [hb.occupiedMask], hb.keys⟩

theorem Alike.updateSeed (h : Alike ρ cp cq) (b : Nat) :
    Lib.Agree (Alike ρ) (cp.updateSeed H b) (cq.updateSeed H b) := by
  have hb := h.buckets.get b
  unfold ControlPlaneLudo.updateSeed
  dsimp only
  rw [hb.occupiedMask, hb.keys]
  split
  · apply Lib.Agree.ok
    apply h.setBucket
    exact ⟨rfl, rfl, rfl⟩
  · exact Lib.Agree.error_left _ _

theorem findSlot_alike {b : CpBucket V} {c : CpBucket W} (h : b.Alike c) (k : U64) :
    findSlot b k = findSlot c k := by
  unfold findSlot
  rw [h.occupiedMask, h.keys]

theorem Alike.isMember (h : Alike ρ cp cq) (k : U64) : cp.isMember H k = cq.isMember H k := by
  have key : ∀ b, ((cp.buckets.get b).findInBucket k).isSome = ((cq.buckets.get b).findInBucket k).isSome := by
    intro b
    unfold CpBucket.findInBucket
    rw [Option.isSome_map, Option.isSome_map, (h.buckets.get b).occupiedMask, (h.buckets.get b).keys]
  unfold ControlPlaneLudo.isMember
  rw [h.candidate, key, key]

theorem Alike.targetSlot (h : Alike ρ cp cq) (k : U64) : cp.targetSlot H k = cq.targetSlot H k := by
  unfold ControlPlaneLudo.targetSlot
  rw [h.candidate, (h.buckets.get _).occupiedMask, (h.buckets.get _).occupiedMask]

/-- Values are all that `changeValue` touches. -/
theorem Alike.changeValue (h : Alike ρ cp cq) (k : U64) (v : V) (w : W) :
    Alike ρ (cp.changeValue H k v) (cq.changeValue H k w) := by
  have hval : ∀ b s, Alike ρ
      (cp.setBucket b { cp.buckets.get b with values := Function.update (cp.buckets.get b).values s v })
      (cq.setBucket b { cq.buckets.get b with values := Function.update (cq.buckets.get b).values s w }) := by
    intro b s
    apply h.setBucket
    exact ⟨(h.buckets.get b).seed, (h.buckets.get b).occupiedMask, (h.buckets.get b).keys⟩
  unfold ControlPlaneLudo.changeValue
  dsimp only
  rw [h.candidate, findSlot_alike (h.buckets.get _) k, findSlot_alike (h.buckets.get _) k]
  split
  · exact hval _ _
  · split
    · exact hval _ _
    · exact h

theorem Alike.cuckooSearch (h : Alike ρ cp cq) (k : U64) : cp.cuckooSearch H k = cq.cuckooSearch H k := by
  have hmask : (fun b => (cp.buckets.get b).occupiedMask) = fun b => (cq.buckets.get b).occupiedMask := by
    funext b
    exact (h.buckets.get b).occupiedMask
  have hkeys : (fun b => (cp.buckets.get b).keys) = fun b => (cq.buckets.get b).keys := by
    funext b
    exact (h.buckets.get b).keys
  unfold ControlPlaneLudo.cuckooSearch
  rw [h.candidate, hmask, hkeys]

theorem Alike.read (h : Alike ρ cp cq) (ref : KeyRef) : Lib.Agree Eq (ref.read cp) (ref.read cq) := by
  cases ref with
  | value k => exact Lib.Agree.ok rfl
  | old i s storage =>
      unfold KeyRef.read
      refine Lib.Agree.ite (by rw [h.oldBuckets.storage]) (fun _ => ?_) fun _ => Lib.Agree.error_left _ _
      apply Lib.Agree.ok
      rw [(h.oldBuckets.vec.get i).keys]

theorem Alike.nextKeys (h : Alike ρ cp cq) : cp.nextKeys = cq.nextKeys := by
  unfold ControlPlaneLudo.nextKeys
  rw [h.nKeys]

end Buckets

/-! ## Locators that agree -/

section Locators

variable {H : HashFn} {P Q : Locator} {ρ : P.State → Q.State → Prop} (hPQ : LocatorAgree P Q ρ)
  {cp : ControlPlaneLudo V P.State} {cq : ControlPlaneLudo W Q.State}

include hPQ

theorem Alike.putItem (h : Alike ρ cp cq) (k : U64) (v : V) (w : W) (b : Nat) (s : Slot) (toFirstBucket : Bool) :
    Lib.Agree (Alike ρ) (cp.putItem H P k v b s toFirstBucket) (cq.putItem H Q k w b s toFirstBucket) := by
  unfold ControlPlaneLudo.putItem
  refine Lib.Agree.bind (hPQ.registerKey h.locator k _) ?_
  intro l m hlm
  have h' : Alike ρ { cp with locator := l } { cq with locator := m } := { h with locator := hlm }
  exact (h'.fill b s k v w).updateSeed b

theorem Alike.moveItem (h : Alike ρ cp cq) (sBkt : Nat) (sSlot : Slot) (dBkt : Nat) (dSlot : Slot) :
    Lib.Agree (Alike ρ) (cp.moveItem H P sBkt sSlot dBkt dSlot) (cq.moveItem H Q sBkt sSlot dBkt dSlot) := by
  have hs := h.buckets.get sBkt
  have hd := h.buckets.get dBkt
  unfold ControlPlaneLudo.moveItem
  dsimp only
  rw [hs.keys]
  refine Lib.Agree.bind (hPQ.toggleInOthello h.locator _) ?_
  intro l m hlm
  have h' : Alike ρ { cp with locator := l } { cq with locator := m } := { h with locator := hlm }
  refine Alike.updateSeed (h'.setBucket dBkt ?_) dBkt
  exact ⟨hd.seed, hd.occupiedMask, by rw [hd.keys]⟩

theorem Alike.powerSlot (h : Alike ρ cp cq) (cell : Nat × Slot) :
    Lib.Agree (Alike ρ) (cp.powerSlot H P cell) (cq.powerSlot H Q cell) := by
  have hb := h.buckets.get cell.1
  unfold ControlPlaneLudo.powerSlot
  dsimp only
  rw [hb.keys]
  refine Lib.Agree.ite (by rw [hb.occupiedMask]) (fun _ => Lib.Agree.ok h) fun _ => ?_
  refine Lib.Agree.bind (hPQ.lookUp h.locator _) ?_
  rintro bit _ rfl
  rw [h.hSeed, h.numBuckets]
  refine Lib.Agree.ite Iff.rfl (fun _ => Lib.Agree.ok h) fun _ => ?_
  exact ((h.mark _ _ _).fill _ _ _ _ _).updateSeed _

theorem Alike.powerSize [Inhabited V] [Inhabited W] (h : Alike ρ cp cq) (times : Nat) :
    Lib.Agree (Alike ρ) (cp.powerSize H P times) (cq.powerSize H Q times) := by
  unfold ControlPlaneLudo.powerSize
  dsimp only
  rw [h.numBuckets, h.capacity]
  refine Lib.Agree.bind (hPQ.resizeCapacity h.locator _) ?_
  intro l m hlm
  have hstart : Alike ρ
      { cp with buckets := cp.buckets.resize cq.numBuckets .empty, locator := l }
      { cq with buckets := cq.buckets.resize cq.numBuckets .empty, locator := m } :=
    { h with buckets := h.buckets.resize _ .empty, locator := hlm }
  have key := Lib.Agree.foldlM (cells (cq.numBuckets / times)) hstart fun a b hab cell _ =>
    hab.powerSlot (H := H) hPQ cell
  simpa only [h.numBuckets, h.capacity] using key

/-! ## The cuckoo path -/

theorem followPath_agree (visited : List CuckooPathEntry) (n : Nat) (h : Alike ρ cp cq) (entry : CuckooPathEntry)
    (freeSlot : Slot) (toFirstBucket : Bool) :
    Lib.Agree (fun x y => Alike ρ x.1 y.1 ∧ x.2 = y.2)
      (followPath H P visited n cp entry freeSlot toFirstBucket)
      (followPath H Q visited n cq entry freeSlot toFirstBucket) := by
  induction n generalizing cp cq entry freeSlot toFirstBucket with
  | zero => exact Lib.Agree.error_left _ _
  | succ n ih =>
      unfold followPath
      split
      · exact Lib.Agree.ok ⟨h, rfl⟩
      · split
        · exact Lib.Agree.error_left _ _
        · refine Lib.Agree.bind (h.moveItem hPQ _ _ _ _) ?_
          intro a b hab
          exact ih hab _ _ _

theorem Alike.cuckooMove (h : Alike ρ cp cq) (k : U64) (v : V) (w : W) (entry : CuckooPathEntry) (freeSlot : Slot)
    (visited : List CuckooPathEntry) :
    Lib.Agree (Alike ρ) (cp.cuckooMove H P k v entry freeSlot visited) (cq.cuckooMove H Q k w entry freeSlot visited) := by
  unfold ControlPlaneLudo.cuckooMove
  refine Lib.Agree.bind (followPath_agree hPQ visited _ (h.mark _ _ _) _ _ _) ?_
  rintro ⟨cp', entry', slot, toFirstBucket⟩ ⟨cq', _⟩ ⟨h', rfl⟩
  exact h'.putItem hPQ k v w _ _ _

end Locators

/-! ## The recursion -/

section Recursion

variable (H : HashFn) (lf : LoadFactor) {P Q : Locator} (ρ : P.State → Q.State → Prop) [Inhabited V] [Inhabited W]

/-- The five functions at depth `n` over `P` agree with those at any depth over `Q`. -/
structure DepthAgree (V W : Type) [Inhabited V] [Inhabited W] (n : Nat) : Prop where
  insert : ∀ m (cp : ControlPlaneLudo V P.State) (cq : ControlPlaneLudo W Q.State) ref v w, Alike ρ cp cq →
    Lib.Agree (Alike ρ) (insert H P lf n cp ref v) (insert H Q lf m cq ref w)
  cuckooInsert : ∀ m (cp : ControlPlaneLudo V P.State) (cq : ControlPlaneLudo W Q.State) ref v w, Alike ρ cp cq →
    Lib.Agree (Alike ρ) (cuckooInsert H P lf n cp ref v) (cuckooInsert H Q lf m cq ref w)
  resizeCapacity : ∀ m (cp : ControlPlaneLudo V P.State) (cq : ControlPlaneLudo W Q.State) target force,
    Alike ρ cp cq →
    Lib.Agree (Alike ρ) (resizeCapacity H P lf n cp target force) (resizeCapacity H Q lf m cq target force)
  build : ∀ m (cp : ControlPlaneLudo V P.State) (cq : ControlPlaneLudo W Q.State), Alike ρ cp cq →
    Lib.Agree (Alike ρ) (build H P lf n cp) (build H Q lf m cq)
  tryBuild : ∀ m (cp : ControlPlaneLudo V P.State) (cq : ControlPlaneLudo W Q.State), Alike ρ cp cq →
    Lib.Agree (Alike ρ) (tryBuild H P lf n cp) (tryBuild H Q lf m cq)

variable {H lf ρ} (hPQ : LocatorAgree P Q ρ) {n m : Nat} (ih : DepthAgree H lf ρ V W n)
  {cp : ControlPlaneLudo V P.State} {cq : ControlPlaneLudo W Q.State}

include hPQ ih

theorem insert_step (h : Alike ρ cp cq) (ref : KeyRef) (v : V) (w : W) :
    Lib.Agree (Alike ρ) (insert H P lf (n + 1) cp ref v) (insert H Q lf (m + 1) cq ref w) := by
  unfold ControlPlaneLudo.insert
  refine Lib.Agree.bind (h.read ref) ?_
  rintro k _ rfl
  refine Lib.Agree.ite (by rw [h.isMember]) (fun _ => Lib.Agree.ok (h.changeValue k v w)) fun _ => ?_
  rw [h.nextKeys]
  refine Lib.Agree.ite (by rw [h.capacity]) (fun _ => ?_) fun _ => ?_
  · refine Lib.Agree.bind (ih.resizeCapacity m cp cq _ true h) ?_
    intro a b hab
    exact ih.insert m a b ref v w hab
  · rw [h.targetSlot, h.candidate]
    refine Lib.Agree.bind (R := Alike ρ) ?_ ?_
    · split
      · exact h.putItem hPQ k v w _ _ _
      · exact ih.cuckooInsert m cp cq ref v w h
    · intro a b hab
      apply Lib.Agree.ok
      exact { hab with nKeys := hab.nextKeys }

theorem cuckooInsert_step (h : Alike ρ cp cq) (ref : KeyRef) (v : V) (w : W) :
    Lib.Agree (Alike ρ) (cuckooInsert H P lf (n + 1) cp ref v) (cuckooInsert H Q lf (m + 1) cq ref w) := by
  unfold ControlPlaneLudo.cuckooInsert
  refine Lib.Agree.bind (h.read ref) ?_
  rintro k _ rfl
  rw [h.cuckooSearch, h.nextKeys]
  refine Lib.Agree.bind (Lib.Agree.refl _ fun _ => rfl) ?_
  rintro found _ rfl
  cases found with
  | some path => exact h.cuckooMove hPQ k v w _ _ _
  | none =>
      refine Lib.Agree.bind (ih.resizeCapacity m cp cq _ true h) ?_
      intro a b hab
      exact ih.insert m a b ref v w hab

theorem resizeCapacity_step (h : Alike ρ cp cq) (target : Nat) (force : Bool) :
    Lib.Agree (Alike ρ) (resizeCapacity H P lf (n + 1) cp target force)
      (resizeCapacity H Q lf (m + 1) cq target force) := by
  unfold ControlPlaneLudo.resizeCapacity
  refine Lib.Agree.bind (R := Eq) (by rw [h.nKeys]; exact Lib.Agree.refl _ fun _ => rfl) ?_
  rintro size _ rfl
  refine Lib.Agree.ite Iff.rfl (fun _ => Lib.Agree.error_left _ _) fun _ => ?_
  dsimp only
  rw [h.numBuckets]
  have hsized : Alike ρ { cp with numBuckets := size, capacity := lf.capacity size % 2 ^ 32 }
      { cq with numBuckets := size, capacity := lf.capacity size % 2 ^ 32 } :=
    { h with numBuckets := rfl, capacity := rfl }
  refine Lib.Agree.ite (by rw [h.integrity]) (fun _ => hsized.powerSize hPQ _) fun _ => ?_
  refine Lib.Agree.bind (hPQ.resizeCapacity h.locator _) ?_
  intro l l' hl
  refine Lib.Agree.ite Iff.rfl (fun _ => Lib.Agree.error_left _ _) fun _ => ?_
  have hsaved : Alike ρ
      { cp with
        numBuckets := size, capacity := lf.capacity size % 2 ^ 32, integrity := false, locator := l
        oldBuckets := cp.oldBuckets.assign cp.buckets, buckets := cp.buckets.resize size .empty }
      { cq with
        numBuckets := size, capacity := lf.capacity size % 2 ^ 32, integrity := false, locator := l'
        oldBuckets := cq.oldBuckets.assign cq.buckets, buckets := cq.buckets.resize size .empty } :=
    { hsized with
      integrity := rfl
      locator := hl
      oldBuckets := h.oldBuckets.assign h.buckets
      buckets := h.buckets.resize size .empty }
  exact Lib.Agree.ite Iff.rfl (fun _ => ih.build m _ _ hsaved) fun _ => Lib.Agree.ok hsaved

theorem build_step (h : Alike ρ cp cq) :
    Lib.Agree (Alike ρ) (build H P lf (n + 1) cp) (build H Q lf (m + 1) cq) := by
  unfold ControlPlaneLudo.build
  refine Lib.Agree.bind (hPQ.rowSeed h.locator) ?_
  rintro ⟨seed, l⟩ ⟨_, l'⟩ ⟨rfl, hl⟩
  apply ih.tryBuild m
  exact { h with hSeed := rfl, locator := hl }

theorem tryBuild_step (h : Alike ρ cp cq) :
    Lib.Agree (Alike ρ) (tryBuild H P lf (n + 1) cp) (tryBuild H Q lf (m + 1) cq) := by
  unfold ControlPlaneLudo.tryBuild
  refine Lib.Agree.bind (hPQ.clear h.locator) ?_
  intro l l' hl
  dsimp only
  rw [h.oldBuckets.vec.size, h.oldBuckets.storage]
  have hcleared : Alike ρ
      { cp with
        locator := l, nKeys := 0
        buckets := ⟨cp.buckets.size, fun b => { cp.buckets.get b with occupiedMask := fun _ => false }⟩ }
      { cq with
        locator := l', nKeys := 0
        buckets := ⟨cq.buckets.size, fun b => { cq.buckets.get b with occupiedMask := fun _ => false }⟩ } :=
    { h with
      locator := hl
      nKeys := rfl
      buckets := ⟨h.buckets.size, fun b => ⟨(h.buckets.get b).seed, rfl, (h.buckets.get b).keys⟩⟩ }
  refine Lib.Agree.bind (Lib.Agree.foldlM _ hcleared ?_) ?_
  · intro a b hab cell _
    refine Lib.Agree.ite (by rw [hab.oldBuckets.storage]) (fun _ => ?_) fun _ => Lib.Agree.error_left _ _
    refine Lib.Agree.ite (by rw [(hab.oldBuckets.vec.get cell.1).occupiedMask]) (fun _ => ?_) fun _ => Lib.Agree.ok hab
    exact ih.insert m a b _ _ _ hab
  · intro a b hab
    apply Lib.Agree.ok
    exact { hab with integrity := rfl }

omit ih

/-- By induction on the depth on one side: at depth zero a call does not return, a call that goes on makes its own
    calls one level further in on both sides. -/
theorem depthAgree (n : Nat) : DepthAgree H lf ρ V W n := by
  induction n with
  | zero =>
      refine ⟨?_, ?_, ?_, ?_, ?_⟩
      all_goals intros
      all_goals exact Lib.Agree.error_left _ _
  | succ n ih =>
      constructor
      case insert =>
        rintro (_ | m) cp cq ref v w h
        · exact Lib.Agree.error_right _ _
        · exact insert_step hPQ ih h ref v w
      case cuckooInsert =>
        rintro (_ | m) cp cq ref v w h
        · exact Lib.Agree.error_right _ _
        · exact cuckooInsert_step hPQ ih h ref v w
      case resizeCapacity =>
        rintro (_ | m) cp cq target force h
        · exact Lib.Agree.error_right _ _
        · exact resizeCapacity_step hPQ ih h target force
      case build =>
        rintro (_ | m) cp cq h
        · exact Lib.Agree.error_right _ _
        · exact build_step hPQ ih h
      case tryBuild =>
        rintro (_ | m) cp cq h
        · exact Lib.Agree.error_right _ _
        · exact tryBuild_step hPQ ih h

end Recursion

/-! ## A bulk load -/

section BulkLoad

variable {H : HashFn} {lf : LoadFactor} {P Q : Locator} {ρ : P.State → Q.State → Prop} [Inhabited V] [Inhabited W]
  (hPQ : LocatorAgree P Q ρ)

include hPQ

/-- **`insert` takes alike control planes to alike ones**, whatever values are inserted. -/
theorem insert_agree {n m : Nat} {cp : ControlPlaneLudo V P.State} {cq : ControlPlaneLudo W Q.State}
    (h : Alike ρ cp cq) (ref : KeyRef) (v : V) (w : W) :
    Lib.Agree (Alike ρ) (insert H P lf n cp ref v) (insert H Q lf m cq ref w) :=
  (depthAgree hPQ n).insert m cp cq ref v w h

theorem construct_agree {l : P.State} {l' : Q.State} (h : ρ l l') (capacity : Nat) :
    Lib.Agree (Alike ρ) (construct P lf l capacity : LudoExec (ControlPlaneLudo V P.State))
      (construct Q lf l' capacity : LudoExec (ControlPlaneLudo W Q.State)) := by
  unfold construct
  refine Lib.Agree.bind (Lib.Agree.refl _ fun _ => rfl) ?_
  rintro size _ rfl
  refine Lib.Agree.bind (hPQ.resizeCapacity h 0) ?_
  intro k k' hk
  apply Lib.Agree.ok
  exact ⟨rfl, rfl, rfl, rfl, ⟨rfl, fun _ => .empty⟩, ⟨⟨rfl, fun _ => .empty⟩, rfl, rfl⟩, rfl, hk⟩

/-- **Two bulk loads of the same keys end alike.** -/
theorem insertAll_agree {n m : Nat} {cp : ControlPlaneLudo V P.State} {cq : ControlPlaneLudo W Q.State}
    (h : Alike ρ cp cq) {existKeys existKeys' : List U64} {nkeys : Nat}
    (hkeys : existKeys.take nkeys = existKeys'.take nkeys) (values : Nat → V) (values' : Nat → W) :
    Lib.Agree (Alike ρ) (insertAll H P lf n cp existKeys values nkeys)
      (insertAll H Q lf m cq existKeys' values' nkeys) := by
  unfold insertAll
  refine Lib.Agree.foldlM _ h ?_
  intro a b hab i hi
  have hget : existKeys[i]? = existKeys'[i]? := by
    have hlt := List.mem_range.mp hi
    rw [← List.getElem?_take_of_lt hlt, hkeys, List.getElem?_take_of_lt hlt]
  rw [hget]
  split
  · exact insert_agree hPQ hab _ _ _
  · exact Lib.Agree.error_left _ _

end BulkLoad

end ControlPlaneLudo

end Outback
