import Outback.Ludo.Insert

/-!
# `Ludo.Placement` — insertion without a rebuild registers every key

Over `placing`, a run of `insert` returns exactly where the control plane does not rebuild. What it leaves behind:
every stored key is registered in the locator, no key that was registered is lost, and the inserted key is among them
(`insert_registers`). Along a cuckoo path one slot is marked whose key is not written yet; `Registered` therefore has
a hole.
-/

namespace Outback

namespace ControlPlaneLudo

variable {V : Type} {H : HashFn} {D : U64 → Prop}

/-! ## What every call keeps -/

/-- The keys of `D` and the keys of all slots in use are registered; the slot `hole` may wait for its key. -/
structure Registered (D : U64 → Prop) (hole : Option (Nat × Slot)) (cp : ControlPlaneLudo V placing.State) : Prop where
  known : ∀ k, D k → (cp.locator k).isSome = true
  stored : ∀ b s, some (b, s) ≠ hole → (cp.buckets.get b).occupiedMask s = true →
    (cp.locator ((cp.buckets.get b).keys s)).isSome = true

/-- A new or changed bit unregisters no key. -/
theorem isSome_update {m : U64 → Option Bool} {k x : U64} {bi : Bool} (h : (m x).isSome = true ∨ x = k) :
    (Function.update m k (some bi) x).isSome = true := by
  by_cases hx : x = k
  · subst hx
    simp
  · rw [Function.update_of_ne hx]
    exact h.resolve_right hx

/-! ## The placing locator -/

theorem placing_registerKey (m : placing.State) (k : U64) (bi : Bool) :
    Lib.Returns (fun m' : placing.State => m' = Function.update m k (some bi)) (placing.registerKey m k bi) := by
  unfold Locator.registerKey
  cases hk : m k with
  | none =>
      rw [if_neg (by simp [hk])]
      exact Lib.Returns.ok rfl
  | some old =>
      rw [if_pos (by simp [hk])]
      refine Lib.Returns.bind (Q := fun b => b = old) ?_ ?_
      · simp only [hk]
        exact Lib.Returns.ok rfl
      · rintro _ rfl
        split
        · rename_i heq
          apply Lib.Returns.ok
          rw [← heq, ← hk]
          exact (Function.update_eq_self k m).symm
        · simp only [placing, hk, Option.isSome_some, if_true]
          exact Lib.Returns.ok rfl

theorem placing_toggle (m : placing.State) (k : U64) :
    Lib.Returns (fun m' : placing.State => (m k).isSome = true ∧ ∃ bi, m' = Function.update m k (some bi))
      (placing.toggleInOthello m k) := by
  simp only [placing]
  cases hk : m k with
  | none => exact Lib.Returns.error _
  | some b => exact Lib.Returns.ok ⟨rfl, _, rfl⟩

/-! ## Buckets and marks -/

section Buckets

variable {hole : Option (Nat × Slot)} {cp : ControlPlaneLudo V placing.State}

/-- Without a hole there is room for one. -/
theorem Registered.weaken (h : Registered D none cp) : Registered D hole cp := by
  refine ⟨h.known, fun b s _ hs => ?_⟩
  exact h.stored b s (by simp) hs

/-- A bucket replaced by one in which the slots in use hold registered keys. -/
theorem Registered.setBucket (h : Registered D hole cp) {b : Nat} {bucket : CpBucket V} {hole' : Option (Nat × Slot)}
    (hb : ∀ s, some (b, s) ≠ hole' → bucket.occupiedMask s = true → (cp.locator (bucket.keys s)).isSome = true)
    (hother : ∀ b' s, b' ≠ b → some (b', s) ≠ hole' → some (b', s) ≠ hole) :
    Registered D hole' (cp.setBucket b bucket) := by
  refine ⟨h.known, fun b' s hne hs => ?_⟩
  by_cases hbb : b' = b
  · subst hbb
    simp only [ControlPlaneLudo.setBucket, Vec.set, Function.update_self] at hs ⊢
    exact hb s hne hs
  · simp only [ControlPlaneLudo.setBucket, Vec.set, Function.update_of_ne hbb] at hs ⊢
    exact h.stored b' s (hother b' s hbb hne) hs

theorem Registered.updateSeed (h : Registered D hole cp) (b : Nat) :
    Lib.Returns (Registered D hole) (cp.updateSeed H b) := by
  unfold ControlPlaneLudo.updateSeed
  dsimp only
  split
  · apply Lib.Returns.ok
    exact h.setBucket (fun s hne hs => h.stored b s hne hs) fun b' s _ hne => hne
  · exact Lib.Returns.error _

/-- The hole is filled with a registered key. -/
theorem Registered.fill {b : Nat} {s : Slot} (h : Registered D (some (b, s)) cp) {k : U64}
    (hk : (cp.locator k).isSome = true) (v : V) : Registered D none (cp.fill b s k v) := by
  refine h.setBucket (fun t _ ht => ?_) fun b' t hb' _ heq => ?_
  · by_cases hts : t = s
    · subst hts
      simpa using hk
    · simp only [Function.update_of_ne hts] at ht ⊢
      exact h.stored b t (by simpa using hts) ht
  · cases heq
    exact hb' rfl

theorem Registered.mark (h : Registered D none cp) (b : Nat) (s : Slot) (occupied : Bool) :
    Registered D (some (b, s)) (cp.mark b s occupied) := by
  refine h.setBucket (fun t hne ht => ?_) fun _ _ _ _ => by simp
  have hts : t ≠ s := by
    rintro rfl
    exact hne rfl
  simp only [Function.update_of_ne hts] at ht
  exact h.stored b t (by simp) ht

/-- A slot taken out of use holds no key. -/
theorem Registered.unmark (h : Registered D none cp) (b : Nat) (s : Slot) : Registered D none (cp.mark b s false) := by
  refine h.setBucket (fun t _ ht => ?_) fun _ _ _ _ => by simp
  have hts : t ≠ s := by
    rintro rfl
    simp at ht
  simp only [Function.update_of_ne hts] at ht
  exact h.stored b t (by simp) ht

theorem Registered.changeValue (h : Registered D hole cp) (k : U64) (v : V) :
    Registered D hole (cp.changeValue H k v) := by
  unfold ControlPlaneLudo.changeValue
  dsimp only
  split
  · exact h.setBucket (fun s hne hs => h.stored _ s hne hs) fun _ _ _ hne => hne
  · split
    · exact h.setBucket (fun s hne hs => h.stored _ s hne hs) fun _ _ _ hne => hne
    · exact h

/-- A key that `isMember` finds is stored. -/
theorem Registered.of_isMember (h : Registered D none cp) {k : U64} (hk : cp.isMember H k = true) :
    (cp.locator k).isSome = true := by
  have key : ∀ b, ((cp.buckets.get b).findInBucket k).isSome = true → (cp.locator k).isSome = true := by
    intro b hfound
    obtain ⟨v, hv⟩ := Option.isSome_iff_exists.mp hfound
    obtain ⟨s, hs, -⟩ := Option.map_eq_some_iff.mp hv
    have hmatch := List.find?_some hs
    simp only [Bool.and_eq_true, beq_iff_eq] at hmatch
    have := h.stored b s (by simp) hmatch.1
    rwa [hmatch.2] at this
  unfold ControlPlaneLudo.isMember at hk
  rcases Bool.or_eq_true_iff.mp hk with hk | hk
  · exact key _ hk
  · exact key _ hk

/-- A locator that knows more. -/
theorem Registered.withLocator (h : Registered D hole cp) {m : placing.State} {E : U64 → Prop}
    (hgrow : ∀ k, (cp.locator k).isSome = true → (m k).isSome = true) (hE : ∀ k, E k → (m k).isSome = true) :
    Registered E hole { cp with locator := m } :=
  ⟨hE, fun b s hne hs => hgrow _ (h.stored b s hne hs)⟩

end Buckets

/-! ## Items and cuckoo moves -/

section Operations

variable {cp : ControlPlaneLudo V placing.State}

/-- `putItem` registers its key and fills the hole with it. -/
theorem Registered.putItem {b : Nat} {s : Slot} (h : Registered D (some (b, s)) cp) (k : U64) (v : V)
    (toFirstBucket : Bool) :
    Lib.Returns (Registered (fun x => D x ∨ x = k) none) (cp.putItem H placing k v b s toFirstBucket) := by
  unfold ControlPlaneLudo.putItem
  refine Lib.Returns.bind (placing_registerKey cp.locator k _) ?_
  rintro m rfl
  have hgrown : Registered (fun x => D x ∨ x = k) (some (b, s))
      { cp with locator := Function.update cp.locator k (some !toFirstBucket) } := by
    refine h.withLocator (fun x hx => isSome_update (Or.inl hx)) fun x hx => ?_
    exact isSome_update (hx.imp_left (h.known x))
  exact Registered.updateSeed (hgrown.fill (isSome_update (Or.inr rfl)) v) b

/-- `moveItem` fills the hole with the key it moves. -/
theorem Registered.moveItem {dBkt : Nat} {dSlot : Slot} (h : Registered D (some (dBkt, dSlot)) cp) (sBkt : Nat)
    (sSlot : Slot) : Lib.Returns (Registered D none) (cp.moveItem H placing sBkt sSlot dBkt dSlot) := by
  unfold ControlPlaneLudo.moveItem
  dsimp only
  refine Lib.Returns.bind (placing_toggle cp.locator _) ?_
  rintro m ⟨hk, bi, rfl⟩
  have hgrown : Registered D (some (dBkt, dSlot))
      { cp with locator := Function.update cp.locator ((cp.buckets.get sBkt).keys sSlot) (some bi) } :=
    h.withLocator (fun x hx => isSome_update (Or.inl hx)) fun x hx => isSome_update (Or.inl (h.known x hx))
  refine Registered.updateSeed (hgrown.setBucket (fun t _ ht => ?_) fun b' t hb' _ heq => ?_) dBkt
  · apply isSome_update
    by_cases hts : t = dSlot
    · subst hts
      exact Or.inr (Function.update_self ..)
    · left
      simp only [Function.update_of_ne hts]
      exact h.stored dBkt t (by simpa using hts) ht
  · cases heq
    exact hb' rfl

/-- Moving back along the path, the hole moves with it. -/
theorem followPath_registers (visited : List CuckooPathEntry) (n : Nat) {entry : CuckooPathEntry} {freeSlot : Slot}
    (h : Registered D (some (entry.bucket, freeSlot)) cp) (toFirstBucket : Bool) :
    Lib.Returns (fun r => Registered D (some (r.2.1.bucket, r.2.2.1)) r.1)
      (followPath H placing visited n cp entry freeSlot toFirstBucket) := by
  induction n generalizing cp entry freeSlot toFirstBucket with
  | zero => exact Lib.Returns.error _
  | succ n ih =>
      unfold followPath
      split
      · exact Lib.Returns.ok h
      · split
        · exact Lib.Returns.error _
        · refine Lib.Returns.bind (h.moveItem _ _) ?_
          intro cp' h'
          exact ih h'.weaken _

theorem Registered.cuckooMove (h : Registered D none cp) (k : U64) (v : V) (entry : CuckooPathEntry) (freeSlot : Slot)
    (visited : List CuckooPathEntry) : Lib.Returns (Registered (fun x => D x ∨ x = k) none)
      (cp.cuckooMove H placing k v entry freeSlot visited) := by
  unfold ControlPlaneLudo.cuckooMove
  refine Lib.Returns.bind (followPath_registers visited _ (h.mark _ _ _) _) ?_
  rintro ⟨cp', entry', slot, toFirstBucket⟩ h'
  exact h'.putItem k v _

/-! ## Growing -/

theorem Registered.powerSlot (h : Registered D none cp) (cell : Nat × Slot) :
    Lib.Returns (Registered D none) (cp.powerSlot H placing cell) := by
  unfold ControlPlaneLudo.powerSlot
  dsimp only
  split
  · exact Lib.Returns.ok h
  · rename_i hocc
    have hk := h.stored cell.1 cell.2 (by simp) (by simpa using hocc)
    refine Lib.Returns.bind (Q := fun _ => True) (fun _ _ => trivial) ?_
    intro bit _
    split
    · exact Lib.Returns.ok h
    · exact Registered.updateSeed (Registered.fill (h.unmark _ _).weaken hk _) _

theorem Registered.powerSize [Inhabited V] (h : Registered D none cp) (times : Nat) :
    Lib.Returns (Registered D none) (cp.powerSize H placing times) := by
  unfold ControlPlaneLudo.powerSize
  dsimp only
  refine Lib.Returns.bind (Lib.Returns.ok rfl : Lib.Returns (fun m => m = cp.locator) _) ?_
  rintro m rfl
  have hresized : Registered D none { cp with buckets := cp.buckets.resize cp.numBuckets .empty } := by
    refine ⟨h.known, fun b s _ hs => ?_⟩
    simp only [Vec.resize] at hs ⊢
    split at hs
    · rename_i hlt
      rw [if_pos hlt]
      exact h.stored b s (by simp) hs
    · cases hs
  exact Lib.Returns.foldlM _ hresized fun cp' h' cell _ => h'.powerSlot cell

end Operations

/-! ## The recursion, without the rebuild -/

section Recursion

variable [Inhabited V] {lf : LoadFactor} {cp : ControlPlaneLudo V placing.State}

/-- A forced resize that returns has grown the table in place. -/
theorem Registered.resizeCapacity (h : Registered D none cp) (n target : Nat) :
    Lib.Returns (Registered D none) (resizeCapacity H placing lf n cp target true) := by
  cases n with
  | zero => exact Lib.Returns.error _
  | succ n =>
      unfold ControlPlaneLudo.resizeCapacity
      refine Lib.Returns.bind (Q := fun _ => True) (fun _ _ => trivial) ?_
      intro size _
      split
      · exact Lib.Returns.error _
      · dsimp only
        split
        · have hsized : Registered D none
              { cp with numBuckets := size, capacity := lf.capacity size % 2 ^ 32 } := ⟨h.known, h.stored⟩
          exact hsized.powerSize _
        · refine Lib.Returns.bind (Q := fun _ => True) (fun _ _ => trivial) ?_
          intro m _
          split
          · exact Lib.Returns.error _
          · rw [if_pos (Or.inl rfl)]
            cases n with
            | zero => exact Lib.Returns.error _
            | succ n =>
                unfold ControlPlaneLudo.build
                exact Lib.Returns.error _

/-- **An insertion that does not rebuild registers its key** and keeps all others registered. -/
theorem insert_registers (n : Nat) (h : Registered D none cp) (k : U64) (v : V) :
    Lib.Returns (Registered (fun x => D x ∨ x = k) none) (insert H placing lf n cp (.value k) v) ∧
      Lib.Returns (Registered (fun x => D x ∨ x = k) none) (cuckooInsert H placing lf n cp (.value k) v) := by
  induction n generalizing cp with
  | zero => exact ⟨Lib.Returns.error _, Lib.Returns.error _⟩
  | succ n ih =>
      have hretry : Lib.Returns (Registered (fun x => D x ∨ x = k) none)
          (ControlPlaneLudo.resizeCapacity H placing lf n cp cp.nextKeys true >>= fun cp =>
            ControlPlaneLudo.insert H placing lf n cp (.value k) v) := by
        refine Lib.Returns.bind (h.resizeCapacity n _) ?_
        intro cp' h'
        exact (ih h').1
      constructor
      · unfold ControlPlaneLudo.insert
        refine Lib.Returns.bind (Lib.Returns.ok rfl : Lib.Returns (fun k' => k' = k) _) ?_
        rintro k rfl
        split
        · rename_i hmem
          have hk : Registered (fun x => D x ∨ x = k) none cp := by
            refine ⟨fun x hx => ?_, h.stored⟩
            rcases hx with hx | rfl
            · exact h.known x hx
            · exact h.of_isMember hmem
          exact Lib.Returns.ok (hk.changeValue k v)
        · split
          · exact hretry
          · dsimp only
            refine Lib.Returns.bind (Q := Registered (fun x => D x ∨ x = k) none) ?_ ?_
            · split
              · exact h.weaken.putItem k v _
              · exact (ih h).2
            · intro cp' h'
              exact Lib.Returns.ok ⟨h'.known, h'.stored⟩
      · unfold ControlPlaneLudo.cuckooInsert
        refine Lib.Returns.bind (Lib.Returns.ok rfl : Lib.Returns (fun k' => k' = k) _) ?_
        rintro k rfl
        refine Lib.Returns.bind (Q := fun _ => True) (fun _ _ => trivial) ?_
        intro found _
        cases found with
        | some path => exact h.cuckooMove k v _ _ _
        | none => exact hretry

/-! ## A bulk load -/

theorem construct_registers (m : placing.State) (capacity : Nat) :
    Lib.Returns (Registered (fun _ => False) none)
      (construct placing lf m capacity : LudoExec (ControlPlaneLudo V placing.State)) := by
  unfold construct
  refine Lib.Returns.bind (Q := fun _ => True) (fun _ _ => trivial) ?_
  intro size _
  refine Lib.Returns.bind (Q := fun _ => True) (fun _ _ => trivial) ?_
  intro m' _
  apply Lib.Returns.ok
  refine ⟨fun _ hk => hk.elim, fun b s _ hs => ?_⟩
  cases hs

/-- **A bulk load that does not rebuild registers every key it loads.** -/
theorem insertAll_registers (n : Nat) (h : Registered D none cp) (existKeys : List U64) (values : Nat → V)
    (nkeys : Nat) : Lib.Returns (Registered (fun x => x ∈ existKeys.take nkeys) none)
      (insertAll H placing lf n cp existKeys values nkeys) := by
  induction nkeys with
  | zero =>
      apply Lib.Returns.ok
      exact ⟨fun x hx => absurd hx (by simp), h.stored⟩
  | succ nkeys ih =>
      unfold insertAll at ih ⊢
      rw [List.range_succ, List.foldlM_append]
      refine Lib.Returns.bind ih ?_
      intro cp' h'
      rw [List.foldlM_cons]
      cases hk : existKeys[nkeys]? with
      | none => exact Lib.Returns.error _
      | some k =>
          refine Lib.Returns.bind (insert_registers n h' k _).1 ?_
          intro cp'' h''
          apply Lib.Returns.ok
          refine ⟨fun x hx => h''.known x ?_, h''.stored⟩
          rw [List.take_add_one, hk, List.mem_append] at hx
          exact hx.imp_right fun hx => by simpa using hx

end Recursion

end ControlPlaneLudo

end Outback
