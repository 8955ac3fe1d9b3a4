import Outback.Ludo.Correctness.Guarded

/-!
# `Ludo.Correctness.OwnLocator` — every run of a table over a locator that can be refilled

`Sure` is what a table keeps over a locator that is exact only until it is cleared: the entries are in place, the locator
is well formed and has the keys of the map and no others. The last part is what a rebuild needs: the first key that it puts
back into the cleared locator has been there, and where there is no such key the locator had none. **`insert_sure`**: every
insertion that returns leaves such a table, whatever rebuilds it starts; **`call_sure`**: so does every other call.
-/

namespace Outback

namespace ControlPlaneLudo

variable {V : Type} {H : HashFn} {P : RemovableLocator} {Wf : P.State → Prop} {K : Set U64} {lf : LoadFactor}
  {t cp cq q g : ControlPlaneLudo V P.State} {b : Nat} {s : Slot} {k : U64} {v : V} {n m : Nat}

/-! ## Runs that the guarded locator carries -/

theorem updateSeed_locator (cp : ControlPlaneLudo V P.State) (b : Nat) :
    Lib.Returns (fun cq => cq.locator = cp.locator) (cp.updateSeed H b) :=
  fun cq hcq => (updateSeed_spec cp b cq hcq).locator

/-- `putItem` over a locator that registers the key. -/
theorem putItem_carries {toFirstBucket : Bool} (hreg : Lib.Carries (P.Within Wf K) (P.registerKey cp.locator k !toFirstBucket)
    (P.guarded.registerKey cp.locator k !toFirstBucket)) (b : Nat) (s : Slot) (v : V) :
    Lib.Carries (fun cq => P.Within Wf K cq.locator) (cp.putItem H P.toLocator k v b s toFirstBucket)
      (cp.putItem H P.guarded.toLocator k v b s toFirstBucket) := by
  refine hreg.bind fun l hl => Lib.Returns.carries fun cq hcq => ?_
  rw [updateSeed_locator _ b cq hcq]
  exact hl

theorem moveItem_carries (h : P.Refillable Wf) (hcp : P.Within Wf K cp.locator) (sBkt : Nat) (sSlot : Slot) (dBkt : Nat)
    (dSlot : Slot) : Lib.Carries (fun cq => P.Within Wf K cq.locator) (cp.moveItem H P.toLocator sBkt sSlot dBkt dSlot)
      (cp.moveItem H P.guarded.toLocator sBkt sSlot dBkt dSlot) := by
  refine (h.toggleInOthello_carries hcp _).bind fun l hl => Lib.Returns.carries fun cq hcq => ?_
  rw [updateSeed_locator _ dBkt cq hcq]
  exact hl

/-- By induction on the path. -/
theorem followPath_carries (h : P.Refillable Wf) (visited : List CuckooPathEntry) (n : Nat) :
    ∀ {cp : ControlPlaneLudo V P.State} (entry : CuckooPathEntry) (freeSlot : Slot) (toFirstBucket : Bool),
      P.Within Wf K cp.locator →
      Lib.Carries (fun r => P.Within Wf K r.1.locator) (followPath H P.toLocator visited n cp entry freeSlot toFirstBucket)
        (followPath H P.guarded.toLocator visited n cp entry freeSlot toFirstBucket) := by
  induction n with
  | zero => exact fun _ _ _ _ => Lib.Carries.error _ _
  | succ n ih =>
      intro cp entry freeSlot toFirstBucket hcp
      unfold followPath
      cases entry.parent with
      | none =>
          rintro _ ⟨⟩
          exact ⟨rfl, hcp⟩
      | some parent =>
          obtain ⟨p, ps⟩ := parent
          dsimp only
          cases visited[p]? with
          | none => exact Lib.Carries.error _ _
          | some pe => exact (moveItem_carries h hcp pe.bucket ps entry.bucket freeSlot).bind fun cq hcq => ih pe ps _ hcq

theorem cuckooMove_carries (h : P.Refillable Wf) (hcp : P.Within Wf K cp.locator) (hk : k ∈ K) (v : V)
    (entry : CuckooPathEntry) (freeSlot : Slot) (visited : List CuckooPathEntry) :
    Lib.Carries (fun cq => P.Within Wf K cq.locator) (cp.cuckooMove H P.toLocator k v entry freeSlot visited)
      (cp.cuckooMove H P.guarded.toLocator k v entry freeSlot visited) := by
  have hmarked : P.Within Wf K (cp.mark entry.bucket freeSlot true).locator := hcp
  refine (followPath_carries h visited entry.depth entry freeSlot false hmarked).bind ?_
  rintro ⟨cq, e, slot, toFirstBucket⟩ hcq
  exact putItem_carries (h.registerKey_carries hcq hk _) e.bucket slot v

theorem powerSlot_locator (cp : ControlPlaneLudo V P.State) (cell : Nat × Slot) :
    Lib.Returns (fun cq => cq.locator = cp.locator) (cp.powerSlot H P.toLocator cell) := by
  unfold powerSlot
  dsimp only
  split
  · exact Lib.Returns.ok rfl
  · refine Lib.Returns.bind (Q := fun _ => True) (fun _ _ => trivial) fun bit _ => ?_
    split
    · exact Lib.Returns.ok rfl
    · intro cq hcq
      have hlocator := updateSeed_locator _ _ cq hcq
      exact hlocator

/-- `powerSize` asks the locator and does not change its bits. -/
theorem powerSize_carries [Inhabited V] (h : P.Refillable Wf) (hcp : Wf cp.locator) (times : Nat) :
    Lib.Carries (fun cq => Wf cq.locator ∧ P.bitOf cq.locator = P.bitOf cp.locator) (cp.powerSize H P.toLocator times)
      (cp.powerSize H P.guarded.toLocator times) := by
  refine (h.resizeCapacity_carries hcp cp.capacity).bind fun l hl => Lib.Returns.carries ?_
  refine Lib.Returns.foldlM (P := fun cq : ControlPlaneLudo V P.State => Wf cq.locator ∧ P.bitOf cq.locator = P.bitOf cp.locator)
    (cells (cp.numBuckets / times)) hl fun cq hcq cell _ => ?_
  intro cr hcr
  rw [powerSlot_locator cq cell cr hcr]
  exact hcq

/-! ## Sure tables -/

variable (H) in
/-- The entries are in place, and the locator has the keys of the map and no others. -/
structure Sure (P : RemovableLocator) (Wf : P.State → Prop) (cp : ControlPlaneLudo V P.State) : Prop where
  arranged : Arranged H (RemovableLocator.guarded_exact P).toExact cp cp.content
  wf : Wf cp.locator
  keys : ∀ x, P.isMember cp.locator x = true → (cp.toMap x).isSome = true

theorem isSome_toMap (h : Lib.Once cp.content) : (cp.toMap k).isSome = true ↔ ∃ v, Lib.Holds cp.content k v := by
  rw [Option.isSome_iff_exists]
  simp only [toMap_eq_some_iff h]

/-- **The locator has the keys of the map.** -/
theorem Sure.isMember_eq (h : Sure H P Wf cp) (k : U64) : P.isMember cp.locator k = (cp.toMap k).isSome := by
  rw [Bool.eq_iff_iff]
  refine ⟨h.keys k, fun hk => ?_⟩
  obtain ⟨v, ⟨b, s⟩, hcell⟩ := (isSome_toMap h.arranged.once).mp hk
  obtain ⟨bit, hbit, -⟩ := h.arranged.located b s k v hcell
  have hbit : P.bitOf cp.locator k = some bit := hbit
  rw [RemovableLocator.isSome_bitOf, hbit]
  rfl

theorem Sure.within (h : Sure H P Wf cp) (k : U64) :
    P.Within Wf {x | x = k ∨ (cp.toMap x).isSome = true} cp.locator :=
  ⟨h.wf, fun x hx => .inr (h.keys x hx)⟩

/-- A key has come into the table. -/
theorem Sure.of_added (hadded : Added H (RemovableLocator.guarded_exact P).toExact k v cp q)
    (hq : P.Within Wf {x | x = k ∨ (cp.toMap x).isSome = true} q.locator) : Sure H P Wf q := by
  refine ⟨hadded.arranged, hq.1, fun x hx => ?_⟩
  rw [hadded.toMap]
  by_cases hxk : x = k
  · subst hxk
    rw [Function.update_self]
    rfl
  · rw [Function.update_of_ne hxk]
    exact (hq.2 x hx).resolve_left hxk

/-- The count does not matter, nor what is set aside. -/
theorem Sure.congr (h : Sure H P Wf cp) (hn : cq.numBuckets = cp.numBuckets) (hs : cq.hSeed = cp.hSeed)
    (hb : cq.buckets = cp.buckets) (hl : cq.locator = cp.locator) : Sure H P Wf cq := by
  have hcontent : cq.content = cp.content := by
    funext c
    unfold content
    rw [hb]
  have ha := h.arranged
  refine ⟨⟨?_, ?_, ?_, ?_, ?_⟩, ?_, ?_⟩
  · rw [hn]
    exact ha.pow
  · rw [hb, hn]
    exact ha.size
  · rw [hcontent]
    exact ha.once
  · intro b s k v hc
    rw [hcontent] at hc
    rw [hl]
    unfold candidate
    rw [hs, hb]
    exact ha.located b s k v hc
  · intro b s t k v k' v' hc hc'
    rw [hcontent] at hc hc'
    rw [hb]
    exact ha.separated b s t k v k' v' hc hc'
  · rw [hl]
    exact h.wf
  · intro x hx
    rw [hl] at hx
    have hmap : cq.toMap x = cp.toMap x := by
      unfold toMap
      rw [hcontent, hb]
    rw [hmap]
    exact h.keys x hx

theorem Sure.counted (h : Sure H P Wf cp) : Sure H P Wf cp.counted := h.congr rfl rfl rfl rfl

theorem Sure.changeValue_sure (h : Sure H P Wf cp) (k : U64) (v : V) : Sure H P Wf (cp.changeValue H k v) := by
  by_cases hmem : cp.isMember H k = true
  · have hlocator : (cp.changeValue H k v).locator = cp.locator := by
      rw [changeValue_eq (P := P.toLocator)]
      split
      · rfl
      · rfl
    refine .of_added (h.arranged.changeValue_member hmem v) ?_
    rw [hlocator]
    exact h.within k
  · rw [changeValue_absent (P := P.toLocator) (by simpa using hmem)]
    exact h

variable (H) in
/-- A new key has come into the table, and its bit into the locator. -/
structure Came (P : RemovableLocator) (Wf : P.State → Prop) (k : U64) (v : V) (cp q : ControlPlaneLudo V P.State) : Prop where
  sure : Sure H P Wf q
  added : Added H (RemovableLocator.guarded_exact P).toExact k v cp q

/-- **Into a free slot**, where the locator takes the key. -/
theorem came_of_put (ha : Arranged H (RemovableLocator.guarded_exact P).toExact cp cp.content)
    (hmem : cp.isMember H k = false) (htarget : cp.targetSlot H k = some (b, s))
    (hreg : ∀ bi, Lib.Carries (P.Within Wf {x | x = k ∨ (cp.toMap x).isSome = true}) (P.registerKey cp.locator k bi)
      (P.guarded.registerKey cp.locator k bi)) (v : V) :
    Lib.Returns (Came H P Wf k v cp) (cp.putItem H P.toLocator k v b s (b == cp.candidate H k false)) := by
  intro q hq
  obtain ⟨hq, hwithin⟩ := putItem_carries (hreg _) b s v q hq
  have hadded := ha.place hmem htarget v q hq
  exact ⟨.of_added hadded hwithin, hadded⟩

theorem Sure.place (hP : P.Refillable Wf) (h : Sure H P Wf cp) (hmem : cp.isMember H k = false)
    (htarget : cp.targetSlot H k = some (b, s)) (v : V) :
    Lib.Returns (Came H P Wf k v cp) (cp.putItem H P.toLocator k v b s (b == cp.candidate H k false)) :=
  came_of_put h.arranged hmem htarget (hP.registerKey_carries (h.within k) (.inl rfl)) v

/-- **Along a cuckoo path.** -/
theorem Sure.move (hP : P.Refillable Wf) (h : Sure H P Wf cp) (hmem : cp.isMember H k = false)
    (htarget : cp.targetSlot H k = none) {e : CuckooPathEntry} {vis : List CuckooPathEntry}
    (hsearch : cp.cuckooSearch H k = .ok (some (e, s, vis))) (v : V) :
    Lib.Returns (Came H P Wf k v cp) (cp.cuckooMove H P.toLocator k v e s vis) := by
  intro q hq
  obtain ⟨hq, hwithin⟩ := cuckooMove_carries hP (h.within k) (.inl rfl) v e s vis q hq
  have hadded := h.arranged.moved_spec hmem htarget hsearch hq
  exact ⟨.of_added hadded hwithin, hadded⟩

/-! ## Resizing -/

section Resize

variable [Inhabited V]

theorem LoadFactor.capacity_le (lf : LoadFactor) (n : Nat) : lf.capacity n ≤ n * 4 := by
  unfold LoadFactor.capacity
  apply Nat.div_le_of_le_mul
  rw [Nat.mul_comm (2 ^ lf.exp)]
  exact Nat.mul_le_mul_left _ lf.le_one

theorem LoadFactor.le_capacity {limit target : Nat} :
    Lib.Returns (fun n => target ≤ lf.capacity n) (lf.nextNbuckets limit target) := by
  unfold LoadFactor.nextNbuckets
  split
  · rename_i n hn
    apply Lib.Returns.ok
    simpa using List.find?_some hn
  · exact Lib.Returns.error _

/-- A rebuilt table has room for a key. -/
theorem resizeCapacity_room {target next : Nat} (hok : resizeCapacity H P.toLocator lf n cp target true = .ok g)
    (hnext : lf.nextNbuckets 58 (max cp.nKeys (max target 256)) = .ok next)
    (hnot : ¬ (cp.numBuckets < next ∧ cp.integrity = true)) : 0 < lf.capacity next % 2 ^ 32 := by
  cases n with
  | zero => cases hok
  | succ n =>
      unfold resizeCapacity at hok
      rw [hnext] at hok
      change (if 2 ^ 32 ≤ next then _ else _) = _ at hok
      split at hok
      · cases hok
      · dsimp only at hok
        obtain ⟨l, -, hok⟩ := Lib.bind_eq_ok.mp hok
        split at hok
        · cases hok
        · have hle := LoadFactor.capacity_le lf next
          have hge := LoadFactor.le_capacity next hnext
          rw [Nat.mod_eq_of_lt (by omega)]
          omega

/-- **Growing in place.** -/
theorem Sure.grow (hP : P.Refillable Wf) (h : Sure H P Wf cp) {next capacity : Nat} (hnext : ∃ j, next = 2 ^ j)
    (hlt : cp.numBuckets < next) : Lib.Returns (fun g => Sure H P Wf g ∧ g.toMap = cp.toMap)
      ({ cp with numBuckets := next, capacity := capacity }.powerSize H P.toLocator (next / cp.numBuckets)) := by
  intro g hg
  have hcp : Wf ({ cp with numBuckets := next, capacity := capacity } : ControlPlaneLudo V P.State).locator := h.wf
  obtain ⟨hg, hwf, hbits⟩ := powerSize_carries hP hcp _ g hg
  have hgrown := h.arranged.powerSize_spec hnext hlt g hg
  refine ⟨⟨hgrown.arranged, hwf, fun x hx => ?_⟩, hgrown.toMap⟩
  rw [hgrown.toMap]
  apply h.keys x
  rw [RemovableLocator.isSome_bitOf] at hx ⊢
  rwa [hbits] at hx

omit [Inhabited V] in
/-- The table that `tryBuild` puts the keys of `oldBuckets` into has no keys, whatever its locator holds. -/
theorem emptied_arranged (hpow : ∃ j, t.numBuckets = 2 ^ j) (hsize : t.buckets.size = t.numBuckets) (l : P.State) :
    Arranged H (RemovableLocator.guarded_exact P).toExact (emptied P.toLocator t l) (emptied P.toLocator t l).content :=
  arranged_of_empty hpow hsize (content_emptied t l)

/-- **The first key that is put back** goes into a free slot, and its bit into the cleared locator. -/
theorem first_insert (hpow : ∃ j, t.numBuckets = 2 ^ j) (hsize : t.buckets.size = t.numBuckets)
    (hroom : 0 < t.capacity) {l : P.State} (hl : P.Cleared Wf t.locator l) {ref : KeyRef}
    (href : ref.read (emptied P.toLocator t l) = .ok k) (hk : P.isMember t.locator k = true) (v : V) :
    Lib.Returns (fun cq => ∃ q, Came H P Wf k v (emptied P.toLocator t l) q ∧ cq = q.counted)
      (insert H P.toLocator lf n (emptied P.toLocator t l) ref v) := by
  intro cq hok
  have ha := emptied_arranged (H := H) hpow hsize l
  -- membership is looked up in the buckets, whatever the cleared locator says
  have hempty : ∀ x, (emptied P.toLocator t l).isMember H x = false := by
    intro x
    rw [Bool.eq_false_iff]
    intro hmem
    obtain ⟨w, c, hc⟩ := ha.isMember_iff.mp hmem
    rw [content_emptied] at hc
    cases hc
  have hfree : (emptied P.toLocator t l).targetSlot H k ≠ none := by
    intro hnone
    have hfull := targetSlot_eq_none hnone false
    cases hfull
  cases n with
  | zero => cases hok
  | succ n =>
      obtain ⟨k', hk', hcase⟩ := insert_cases hok
      obtain rfl : k = k' := Except.ok.inj (href.symm.trans hk')
      cases hcase with
      | member hmem =>
          rw [hempty] at hmem
          cases hmem
      | resized _ hfull =>
          have hfull : t.capacity < 1 := hfull
          omega
      | placed hmem _ htarget hput hcq =>
          refine ⟨_, came_of_put ha hmem htarget (fun bi => (hl.registerKey_carries hk bi).mono fun l' hl' => ?_) v _ hput, hcq⟩
          exact hl'.mono fun x hx => .inl hx
      | moved _ _ hnone => exact absurd hnone hfree
      | crowded _ _ _ hnone => exact absurd hnone hfree

/-! ## Every call -/

/-- Insertions of depth `n` leave a sure table, whatever key they read. -/
def InsertsSure (H : HashFn) (P : RemovableLocator) (Wf : P.State → Prop) (lf : LoadFactor) (V : Type) [Inhabited V]
    (n : Nat) : Prop :=
  ∀ (cp : ControlPlaneLudo V P.State) ref v, Sure H P Wf cp → Lib.Returns (Sure H P Wf) (insert H P.toLocator lf n cp ref v)

/-- **A rebuild** of a table whose locator has the saved keys: until the first of them is put back the table is empty, and
    from then on it is sure. -/
theorem tryBuild_sure (hP : P.Refillable Wf) (hinsert : ∀ m < n, InsertsSure H P Wf lf V m) (hpow : ∃ j, t.numBuckets = 2 ^ j)
    (hsize : t.buckets.size = t.numBuckets) (hroom : 0 < t.capacity) (hwf : Wf t.locator)
    (hkeys : ∀ x, P.isMember t.locator x = true ↔ ∃ u, Lib.Holds t.saved x u) :
    Lib.Returns (Sure H P Wf) (tryBuild H P.toLocator lf n t) := by
  intro g hg
  obtain ⟨m, l, built, rfl, hl, hbuilt, rfl⟩ := tryBuild_cases hg
  have hcleared := hP.clear t.locator hwf l hl
  -- the loop over the cells: nothing has come back yet, or the table is sure
  have hloop : (built = emptied P.toLocator t l ∧ ∀ c ∈ cells t.oldBuckets.size, t.saved c = none) ∨ Sure H P Wf built := by
    refine Lib.Returns.foldlM_prefix (cells t.oldBuckets.size)
      (I := fun pre cur => (cur = emptied P.toLocator t l ∧ ∀ c ∈ pre, t.saved c = none) ∨ Sure H P Wf cur)
      (.inl ⟨rfl, fun c hc => absurd hc List.not_mem_nil⟩) ?_ built hbuilt
    rintro pre ⟨b, s⟩ post cur hsplit hcur
    obtain ⟨hb, -⟩ := cells_split hsplit
    have hb : b < t.oldBuckets.size := hb
    unfold refill
    split
    · split
      · rename_i hmask
        intro cq hcq
        refine .inr ?_
        rcases hcur with ⟨rfl, -⟩ | hcur
        · -- the first key
          have hsaved : t.saved (b, s) = some ((t.oldBuckets.get b).keys s, (t.oldBuckets.get b).values s) :=
            saved_eq_some.mpr ⟨hb, hmask, rfl, rfl⟩
          obtain ⟨q, hcame, rfl⟩ := first_insert hpow hsize hroom hcleared (read_old (emptied P.toLocator t l) b s)
            ((hkeys _).mpr ⟨_, _, hsaved⟩) _ cq hcq
          exact hcame.sure.counted
        · exact hinsert m (Nat.lt_succ_self m) cur _ _ hcur cq hcq
      · rename_i hmask
        refine Lib.Returns.ok ?_
        rcases hcur with ⟨rfl, hnone⟩ | hcur
        · refine .inl ⟨rfl, fun c hc => ?_⟩
          rcases List.mem_append.mp hc with hc | hc
          · exact hnone c hc
          · rw [List.mem_singleton.mp hc]
            refine saved_eq_none.mpr fun _ => ?_
            rw [Bool.not_eq_true] at hmask
            exact hmask
        · exact .inr hcur
    · exact Lib.Returns.error _
  rcases hloop with ⟨rfl, hnone⟩ | hbuilt
  · -- there was no key, and so none in the locator
    have habsent : ∀ x, ¬ P.isMember t.locator x = true := by
      intro x hx
      obtain ⟨u, ⟨b, s⟩, hc⟩ := (hkeys x).mp hx
      rw [hnone (b, s) (mem_cells.mpr (saved_eq_some.mp hc).1)] at hc
      cases hc
    have hbits : P.bitOf t.locator = fun _ => none := by
      funext x
      have hx := habsent x
      rw [RemovableLocator.isSome_bitOf] at hx
      simpa using hx
    have hempty : Sure H P Wf (emptied P.toLocator t l) := by
      refine ⟨emptied_arranged hpow hsize l, hcleared.empty hbits, fun x hx => ?_⟩
      have hx : P.isMember l x = true := hx
      rw [RemovableLocator.isSome_bitOf, hcleared.bits] at hx
      cases hx
    exact hempty.congr rfl rfl rfl rfl
  · exact hbuilt.congr rfl rfl rfl rfl

/-- What is set aside for a rebuild is what the locator has. -/
theorem Sure.saved_keys (h : Sure H P Wf cp) (next : Nat) (l : P.State) (seed : U64) (l' : P.State)
    (hbits : P.bitOf l' = P.bitOf cp.locator) (x : U64) : P.isMember l' x = true ↔
      ∃ u, Lib.Holds ({ setAside P.toLocator lf cp next l with hSeed := seed, locator := l' }
        : ControlPlaneLudo V P.State).saved x u := by
  have hsaved : ({ setAside P.toLocator lf cp next l with hSeed := seed, locator := l' } : ControlPlaneLudo V P.State).saved
      = cp.content := saved_setAside lf cp next l
  -- neither the resize of the locator nor a new row seed changes its keys
  have hmember : P.isMember l' x = P.isMember cp.locator x := by
    rw [RemovableLocator.isSome_bitOf, RemovableLocator.isSome_bitOf, hbits]
  rw [hsaved, ← isSome_toMap h.arranged.once, ← h.isMember_eq, ← hmember]

theorem resize_sure {target : Nat} (hP : P.Refillable Wf) (hinsert : ∀ m < n, InsertsSure H P Wf lf V m)
    (h : Sure H P Wf cp) : Lib.Returns (Sure H P Wf) (resizeCapacity H P.toLocator lf n cp target true) := by
  intro g hg
  obtain ⟨m, next, rfl, hnext, hcase⟩ := resizeCapacity_cases hg
  have hpow := LoadFactor.nextNbuckets_eq next hnext
  cases hcase with
  | grown hlt _ hgrown => exact (h.grow hP hpow hlt g hgrown).1
  | @rebuilt i seed l l' hm hnot hl hseed htry =>
      obtain ⟨hwf, hbits⟩ := hP.resizeCapacity _ h.wf _ l hl
      obtain ⟨hwf', hbits'⟩ := hP.rowSeed l hwf _ hseed
      exact tryBuild_sure hP (fun j hj => hinsert j (by omega)) hpow rfl (resizeCapacity_room hg hnext hnot) hwf'
        (h.saved_keys next l seed l' (hbits'.trans hbits)) g htry

theorem InsertsSure.step (hP : P.Refillable Wf) (hinsert : ∀ m < n, InsertsSure H P Wf lf V m)
    (hlast : InsertsSure H P Wf lf V n) : InsertsSure H P Wf lf V (n + 1) := by
  intro cp ref v h cq hok
  obtain ⟨k, -, hcase⟩ := insert_cases hok
  cases hcase with
  | member _ hcq =>
      subst hcq
      exact h.changeValue_sure k v
  | resized _ _ hg hq => exact hlast _ ref v (resize_sure hP hinsert h _ hg) cq hq
  | placed hmem _ htarget hput hcq =>
      subst hcq
      exact (h.place hP hmem htarget v _ hput).sure.counted
  | moved hmem _ htarget hsearch hmove hcq =>
      subst hcq
      exact (h.move hP hmem htarget hsearch v _ hmove).sure.counted
  | crowded hn _ _ _ _ hg hq hcq =>
      subst hcq
      have hg' := resize_sure hP (fun i hi => hinsert i (by omega)) h _ hg
      exact (hinsert _ (by omega) _ ref v hg' _ hq).counted

/-- **Every insertion leaves a sure table**, whatever rebuilds it starts. By strong induction on the depth, as for an exact
    locator. -/
theorem insert_sure (hP : P.Refillable Wf) (n : Nat) : InsertsSure H P Wf lf V n := by
  induction n using Nat.strong_induction_on with
  | h n ih =>
      cases n with
      | zero =>
          intro cp ref v _
          unfold ControlPlaneLudo.insert
          exact Lib.Returns.error _
      | succ n => exact .step hP (fun m hm => ih m (by omega)) (ih n (by omega))

omit [Inhabited V] in
/-- **`remove`** takes the key out of the table and out of the locator. -/
theorem Sure.remove_spec (hP : P.Refillable Wf) (h : Sure H P Wf cp) (k : U64) :
    Lib.Returns (fun cq => Sure H P Wf cq ∧ cq.toMap = Function.update cp.toMap k none) (cp.remove H P k) := by
  by_cases hmem : cp.isMember H k = true
  · obtain ⟨w, ⟨b, s⟩, hw⟩ := h.arranged.isMember_iff.mp hmem
    have hloc := h.arranged.locate_eq_some_iff.mpr ⟨w, hw⟩
    intro cq hcq
    rw [remove_eq, hloc] at hcq
    obtain ⟨l, hl, hok⟩ := Lib.bind_eq_ok.mp hcq
    obtain ⟨hwf, hbits⟩ := hP.remove cp.locator h.wf k l hl
    -- the guarded locator returns the same
    have hguarded : cp.remove H P.guarded k = .ok cq := by
      rw [remove_eq, hloc]
      exact Lib.bind_eq_ok.mpr ⟨l, (Lib.Returns.carries_checked _
        (fun a ha => (hP.remove cp.locator h.wf k a ha).2) l hl).1, hok⟩
    obtain ⟨-, hcontent, harranged⟩ := h.arranged.remove_spec hw cq hguarded
    have hlocator : cq.locator = l := by
      cases hok
      rfl
    have hholds : ∀ x u, Lib.Holds cq.content x u ↔ x ≠ k ∧ Lib.Holds cp.content x u := by
      intro x u
      rw [hcontent]
      exact h.arranged.once.holds_erase hw
    have hmap : cq.toMap = Function.update cp.toMap k none := by
      funext x
      by_cases hx : x = k
      · subst hx
        rw [Function.update_self, Option.eq_none_iff_forall_ne_some]
        intro u hu
        exact ((hholds x u).mp ((toMap_eq_some_iff harranged.once).mp hu)).1 rfl
      · rw [Function.update_of_ne hx]
        refine toMap_congr h.arranged.once harranged.once fun u => ?_
        rw [hholds]
        exact and_iff_right hx
    refine ⟨⟨harranged, hlocator ▸ hwf, fun x hx => ?_⟩, hmap⟩
    rw [hlocator, RemovableLocator.isSome_bitOf, hbits] at hx
    rw [hmap]
    by_cases hxk : x = k
    · subst hxk
      rw [Function.update_self] at hx
      cases hx
    · rw [Function.update_of_ne hxk] at hx ⊢
      rw [← RemovableLocator.isSome_bitOf] at hx
      exact h.keys x hx
  · have hmem' : cp.isMember H k = false := by simpa using hmem
    rw [remove_absent hmem']
    refine Lib.Returns.ok ⟨h, ?_⟩
    rw [← h.arranged.toMap_eq_none hmem', Function.update_eq_self]

/-- **Every call** leaves a sure table. -/
theorem call_sure (hP : P.Refillable Wf) (h : Sure H P Wf cp) (a : IndexCall V) :
    Lib.Returns (Sure H P Wf) (call H P lf cp a) := by
  cases a with
  | insert depth k v => exact insert_sure hP depth cp (.value k) v h
  | remove k => exact fun cq hcq => (h.remove_spec hP k cq hcq).1
  | changeValue k v => exact Lib.Returns.ok (h.changeValue_sure k v)
  | resizeCapacity depth target forceBuild =>
      intro g hg
      have hforced : ∀ {g}, resizeCapacity H P.toLocator lf depth cp target true = .ok g → Sure H P Wf g :=
        fun hg => resize_sure hP (fun m _ => insert_sure hP m) h _ hg
      cases forceBuild with
      | true => exact hforced hg
      | false =>
          rcases resizeCapacity_unforced hg with hg | ⟨l, hl, rfl⟩
          · exact hforced hg
          · obtain ⟨hwf, hbits⟩ := hP.resizeCapacity _ h.wf _ l hl
            have hcontent : (setAside P.toLocator lf cp cp.numBuckets l).content = cp.content :=
              content_resize cp h.arranged.size.le
            have harranged : Arranged H (RemovableLocator.guarded_exact P).toExact (setAside P.toLocator lf cp cp.numBuckets l)
                (setAside P.toLocator lf cp cp.numBuckets l).content := h.arranged.setAside hbits
            refine ⟨harranged, hwf, fun x hx => ?_⟩
            have hx : P.isMember l x = true := hx
            rw [RemovableLocator.isSome_bitOf, hbits, ← RemovableLocator.isSome_bitOf] at hx
            rw [isSome_toMap harranged.once, hcontent]
            exact (isSome_toMap h.arranged.once).mp (h.keys x hx)

/-- The table of the constructor, over a locator without keys. -/
theorem construct_sure (hP : P.Refillable Wf) {locator : P.State} (hwf : Wf locator)
    (hnone : ∀ x, P.isMember locator x = false) (capacity : Nat) :
    Lib.Returns (fun cp => Sure H P Wf cp ∧ cp.toMap = fun _ => none) (construct (V := V) P.toLocator lf locator capacity) := by
  intro cp hcp
  obtain ⟨next, hnext, hok⟩ := Lib.bind_eq_ok.mp hcp
  obtain ⟨l, hl, hok⟩ := Lib.bind_eq_ok.mp hok
  obtain ⟨hwf', hbits⟩ := hP.resizeCapacity _ hwf _ l hl
  have hempty : ∀ c, cp.content c = none := by
    rintro ⟨b, s⟩
    rw [content_eq_none]
    intro _
    cases hok
    rfl
  have harranged : Arranged H (RemovableLocator.guarded_exact P).toExact cp cp.content := by
    refine arranged_of_empty ?_ ?_ hempty
    · cases hok
      exact LoadFactor.nextNbuckets_eq next hnext
    · cases hok
      rfl
  refine ⟨⟨harranged, ?_, fun x hx => ?_⟩, ?_⟩
  · cases hok
    exact hwf'
  · have hlocator : cp.locator = l := by
      cases hok
      rfl
    rw [hlocator, RemovableLocator.isSome_bitOf, hbits, ← RemovableLocator.isSome_bitOf, hnone] at hx
    cases hx
  · funext x
    rw [Option.eq_none_iff_forall_ne_some]
    intro u hu
    obtain ⟨c, hc⟩ := (toMap_eq_some_iff harranged.once).mp hu
    rw [hempty] at hc
    cases hc

/-- **Every run** of a table over its own locator. -/
theorem reached_sure (hP : P.Refillable Wf) {empty : ControlPlaneLudo V P.State} (hempty : Sure H P Wf empty)
    (hrun : Lib.Reaches (call H P lf) Lib.anyStep empty cp) : Sure H P Wf cp := by
  refine hrun.invariant (P := Sure H P Wf) hempty ?_
  intro s a t hs _ ht
  exact call_sure hP hs a t ht

end Resize

end ControlPlaneLudo

end Outback
