import Outback.Ludo.Correctness.OwnLocator

/-!
# `Ludo.Correctness.Calm` — insertions over the own locator

Whatever rebuilds an insertion starts, it leaves its own key in the table with its value (`insert_stores`). Where no
rebuild disturbs another one (`Undisturbed`) it changes the map at this key only, over a locator that can be refilled as
over an exact one (`Undisturbed.keeps_others`): without further row seeds the rebuild is a run over `seedless`, whose
locator is refilled key by key. So a run of such calls leaves the map that the calls describe (`CalmRun.toMap_eq`).
-/

namespace Outback

/-- The locator that has no row seed to draw, from which keys are unregistered too. -/
@[reducible] def RemovableLocator.seedless (P : RemovableLocator) : RemovableLocator where
  toLocator := P.withoutSeeds
  remove := P.remove

theorem RemovableLocator.Refillable.seedless {P : RemovableLocator} {Wf : P.State → Prop} (h : P.Refillable Wf) :
    P.seedless.Refillable Wf where
  insert := h.insert
  changeValue := h.changeValue
  toggleInOthello := h.toggleInOthello
  resizeCapacity := h.resizeCapacity
  remove := h.remove
  rowSeed := fun _ _ => Lib.Returns.error _
  clear := by
    intro s hs l hl
    have hcleared := h.clear s hs l hl
    exact ⟨hcleared.bits, hcleared.empty, hcleared.first⟩

namespace ControlPlaneLudo

variable {V : Type} [Inhabited V] {H : HashFn} {P : RemovableLocator} {Wf : P.State → Prop} {lf : LoadFactor}
  {t cp cq cur q g g' : ControlPlaneLudo V P.State} {k : U64} {v : V} {n m : Nat}

/-! ## The own key -/

/-- **An insertion that returns** leaves its key in the table, whatever rebuilds it starts. By strong induction on the
    depth. -/
theorem insert_stores (hP : P.Refillable Wf) (k : U64) (v : V) (n : Nat) : ∀ {cp : ControlPlaneLudo V P.State},
    Sure H P Wf cp → Lib.Returns (fun cq => cq.toMap k = some v) (insert H P.toLocator lf n cp (.value k) v) := by
  induction n using Nat.strong_induction_on with
  | h n ih =>
      intro cp h cq hok
      cases n with
      | zero =>
          unfold ControlPlaneLudo.insert at hok
          cases hok
      | succ n =>
          obtain ⟨k', hk', hcase⟩ := insert_cases hok
          cases hk'
          have hput : ∀ q, Came H P Wf k v cp q → q.counted.toMap k = some v := by
            intro q hq
            change q.toMap k = some v
            rw [hq.added.toMap, Function.update_self]
          cases hcase with
          | member hmem hcq =>
              subst hcq
              rw [(h.arranged.changeValue_member hmem v).toMap, Function.update_self]
          | resized _ _ hg hq =>
              exact ih n (Nat.lt_succ_self n) (resize_sure hP (fun m _ => insert_sure hP m) h _ hg) cq hq
          | placed hmem _ htarget hq hcq =>
              subst hcq
              exact hput _ (h.place hP hmem htarget v _ hq)
          | moved hmem _ htarget hsearch hq hcq =>
              subst hcq
              exact hput _ (h.move hP hmem htarget hsearch v _ hq)
          | @crowded i g q hn _ _ _ _ hg hq hcq =>
              subst hcq
              have hg' := resize_sure hP (fun m _ => insert_sure hP m) h g hg
              have hstored := ih i (by omega) hg' q hq
              exact hstored

/-! ## A rebuild that is not disturbed -/

/-- An insertion of a new key into a table that is not resized. -/
theorem Sure.settled (hP : P.Refillable Wf) {ref : KeyRef} (h : Sure H P Wf cp) (href : ref.read cp = .ok k)
    (hmem : cp.isMember H k = false) (hstuck : ∀ m g, resizeCapacity H P.toLocator lf m cp cp.nextKeys true ≠ .ok g)
    (hok : insert H P.toLocator lf n cp ref v = .ok cq) : ∃ q, Came H P Wf k v cp q ∧ cq = q.counted := by
  cases n with
  | zero =>
      unfold ControlPlaneLudo.insert at hok
      cases hok
  | succ n =>
      obtain ⟨k', hk', hcase⟩ := insert_cases hok
      obtain rfl : k = k' := Except.ok.inj (href.symm.trans hk')
      cases hcase with
      | member hmem' =>
          rw [hmem] at hmem'
          cases hmem'
      | resized _ _ hg => exact absurd hg (hstuck _ _)
      | placed _ _ htarget hput hcq => exact ⟨_, h.place hP hmem htarget v _ hput, hcq⟩
      | moved _ _ htarget hsearch hmove hcq => exact ⟨_, h.move hP hmem htarget hsearch v _ hmove, hcq⟩
      | crowded _ _ _ _ _ hg => exact absurd hg (hstuck _ _)

omit [Inhabited V] in
/-- The key of the next cell has come back. -/
theorem Refilling.put {E : P.toLocator.Exact} {pre : List (Nat × Slot)} {c : Nat × Slot} (h : Refilling E H t pre cur)
    (hadded : Added H E k v cur q) (hsaved : t.saved c = some (k, v)) (hmem : cur.isMember H k = false) :
    Refilling E H t (pre ++ [c]) q.counted := by
  refine ⟨hadded.arranged.counted, hadded.frame.oldBuckets.trans h.oldBuckets, hadded.frame.integrity.trans h.integrity,
    fun x u => (hadded.holds_iff h.arranged.once x u).trans ?_⟩
  rw [h.holds]
  constructor
  · rintro (⟨rfl, rfl⟩ | ⟨-, d, hd, hold⟩)
    · exact ⟨c, List.mem_append_right pre (List.mem_singleton.mpr rfl), hsaved⟩
    · exact ⟨d, List.mem_append_left _ hd, hold⟩
  · rintro ⟨d, hd, hold⟩
    rcases List.mem_append.mp hd with hd | hd
    · refine .inr ⟨?_, d, hd, hold⟩
      rintro rfl
      exact h.arranged.not_holds hmem u ((h.holds x u).mpr ⟨d, hd, hold⟩)
    · rw [List.mem_singleton.mp hd, hsaved] at hold
      cases hold
      exact .inl ⟨rfl, rfl⟩

omit [Inhabited V] in
/-- A cell without a key has been passed. -/
theorem Refilling.skip {E : P.toLocator.Exact} {pre : List (Nat × Slot)} {c : Nat × Slot} (h : Refilling E H t pre cur)
    (hsaved : t.saved c = none) : Refilling E H t (pre ++ [c]) cur := by
  refine ⟨h.arranged, h.oldBuckets, h.integrity, fun x u => ?_⟩
  rw [h.holds]
  constructor
  · rintro ⟨d, hd, hold⟩
    exact ⟨d, List.mem_append_left _ hd, hold⟩
  · rintro ⟨d, hd, hold⟩
    rcases List.mem_append.mp hd with hd | hd
    · exact ⟨d, hd, hold⟩
    · rw [List.mem_singleton.mp hd, hsaved] at hold
      cases hold

/-- **A rebuild without another row seed** puts all saved keys back. -/
theorem tryBuild_restores (hP : P.Refillable Wf) (hns : ∀ s r, P.rowSeed s ≠ .ok r) (hpow : ∃ j, t.numBuckets = 2 ^ j)
    (hsize : t.buckets.size = t.numBuckets) (hroom : 0 < t.capacity) (hint : t.integrity = false) (hwf : Wf t.locator)
    (hkeys : ∀ x, P.isMember t.locator x = true ↔ ∃ u, Lib.Holds t.saved x u) (honce : Lib.Once t.saved)
    (hok : tryBuild H P.toLocator lf n t = .ok g) (x : U64) (u : V) : Lib.Holds g.content x u ↔ Lib.Holds t.saved x u := by
  obtain ⟨m, l, built, -, hl, hbuilt, rfl⟩ := tryBuild_cases hok
  have hcleared := hP.clear t.locator hwf l hl
  have hfull : Refilling (RemovableLocator.guarded_exact P).toExact H t (cells t.oldBuckets.size) built ∧
      (built = emptied P.toLocator t l ∨ Sure H P Wf built) := by
    refine Lib.Returns.foldlM_prefix (I := fun pre cur => Refilling (RemovableLocator.guarded_exact P).toExact H t pre cur ∧
      (cur = emptied P.toLocator t l ∨ Sure H P Wf cur)) (cells t.oldBuckets.size) ?_ ?_ built hbuilt
    · refine ⟨⟨emptied_arranged hpow hsize l, rfl, hint, fun x u => ?_⟩, .inl rfl⟩
      simp [Lib.Holds, content_emptied]
    · rintro pre ⟨b, s⟩ post cur hsplit ⟨hcur, hsure⟩
      obtain ⟨hb, hnew⟩ := cells_split hsplit
      have hb : b < t.oldBuckets.size := hb
      unfold refill
      rw [hcur.oldBuckets, if_pos rfl]
      split
      · rename_i hmask
        have hmask : (t.oldBuckets.get b).occupiedMask s = true := hmask
        have hsaved : t.saved (b, s) = some ((t.oldBuckets.get b).keys s, (t.oldBuckets.get b).values s) :=
          saved_eq_some.mpr ⟨hb, hmask, rfl, rfl⟩
        have href : (KeyRef.old b s t.oldBuckets.storage).read cur = .ok ((t.oldBuckets.get b).keys s) := by
          rw [← hcur.oldBuckets, read_old, hcur.oldBuckets]
        -- the key is saved in one cell only, so it has not come back yet
        have hmem : cur.isMember H ((t.oldBuckets.get b).keys s) = false := by
          rw [Bool.eq_false_iff]
          intro hmem
          obtain ⟨w, hw⟩ := hcur.arranged.isMember_iff.mp hmem
          obtain ⟨d, hd, hw⟩ := (hcur.holds _ w).mp hw
          rw [honce d (b, s) _ w _ hw hsaved] at hd
          exact hnew hd
        intro cq hcq
        -- the first key goes into the cleared locator, every later one into a sure table
        have hcame : ∃ q, Came H P Wf ((t.oldBuckets.get b).keys s) ((t.oldBuckets.get b).values s) cur q ∧ cq = q.counted := by
          rcases hsure with rfl | hsure
          · exact first_insert hpow hsize hroom hcleared href ((hkeys _).mpr ⟨_, _, hsaved⟩) _ cq hcq
          · exact hsure.settled hP href hmem (fun m => seedless_stuck hns hcur.integrity m _) hcq
        obtain ⟨q, hcame, rfl⟩ := hcame
        exact ⟨hcur.put hcame.added hsaved hmem, .inr hcame.sure.counted⟩
      · rename_i hmask
        have hmask : ¬ (t.oldBuckets.get b).occupiedMask s = true := hmask
        exact Lib.Returns.ok ⟨hcur.skip (saved_eq_none.mpr fun _ => by simpa using hmask), hsure⟩
  refine (hfull.1.holds x u).trans ⟨?_, ?_⟩
  · rintro ⟨d, -, hd⟩
    exact ⟨d, hd⟩
  · rintro ⟨⟨b, s⟩, hc⟩
    exact ⟨(b, s), mem_cells.mpr (saved_eq_some.mp hc).1, hc⟩

omit [Inhabited V] in
theorem Sure.seedless (h : Sure H P Wf cp) : Sure H P.seedless Wf cp :=
  ⟨⟨h.arranged.pow, h.arranged.size, h.arranged.once, h.arranged.located, h.arranged.separated⟩, h.wf, h.keys⟩

/-- **A resize that is not disturbed** keeps the map. The insertion has made it, so it has room for a key. -/
theorem ResizedOnce.keeps_map (hP : P.Refillable Wf) (h : Sure H P Wf cp) (hg : ResizedOnce H P.toLocator lf cp g)
    (hrun : resizeCapacity H P.toLocator lf n cp cp.nextKeys true = .ok g) : g.toMap = cp.toMap := by
  have hg' := resize_sure hP (fun m _ => insert_sure hP m) h g hrun
  cases hg with
  | grown hg =>
      obtain ⟨m, next, -, hnext, hcase⟩ := resizeCapacity_cases hg
      cases hcase with
      | grown hlt _ hgrown =>
          exact (h.seedless.grow hP.seedless (LoadFactor.nextNbuckets_eq next hnext) hlt g hgrown).2
      | rebuilt _ _ _ hseed => cases hseed
  | @rebuilt m next seed l l' hnext hnot hl hseed hg =>
      obtain ⟨hwf, hbits⟩ := hP.resizeCapacity _ h.wf _ l hl
      obtain ⟨hwf', hbits'⟩ := hP.rowSeed l hwf _ hseed
      have hsaved : ({ setAside P.toLocator lf cp next l with hSeed := seed, locator := l' } : ControlPlaneLudo V P.State).saved
          = cp.content := saved_setAside lf cp next l
      have hholds := tryBuild_restores hP.seedless (fun _ _ hr => by cases hr) (LoadFactor.nextNbuckets_eq next hnext) rfl
        (resizeCapacity_room hrun hnext hnot) rfl hwf' (h.saved_keys next l seed l' (hbits'.trans hbits))
        (by rw [hsaved]; exact h.arranged.once) hg
      refine funext fun x => toMap_congr h.arranged.once hg'.arranged.once fun u => ?_
      rw [hholds x u, hsaved]

/-- **An undisturbed insertion** changes the map at its key, over the locator that the table really has. By induction on
    the resizes it makes. -/
theorem Undisturbed.keeps_others (hP : P.Refillable Wf) (hcalm : Undisturbed H P.toLocator lf k cp) :
    ∀ {n cq}, Sure H P Wf cp → insert H P.toLocator lf n cp (.value k) v = .ok cq →
      cq.toMap = Function.update cp.toMap k (some v) := by
  induction hcalm with
  | @settled cp hroom =>
      intro n cq h hok
      cases n with
      | zero =>
          unfold ControlPlaneLudo.insert at hok
          cases hok
      | succ n =>
          obtain ⟨k', hk', hcase⟩ := insert_cases hok
          cases hk'
          cases hcase with
          | member hmem hcq =>
              subst hcq
              exact (h.arranged.changeValue_member hmem v).toMap
          | resized hmem hfull => exact absurd ⟨hmem, .inl hfull⟩ hroom
          | placed hmem _ htarget hput hcq =>
              subst hcq
              exact (h.place hP hmem htarget v _ hput).added.toMap
          | moved hmem _ htarget hsearch hmove hcq =>
              subst hcq
              exact (h.move hP hmem htarget hsearch v _ hmove).added.toMap
          | crowded _ hmem _ htarget hsearch => exact absurd ⟨hmem, .inr ⟨htarget, hsearch⟩⟩ hroom
  | @resized cp g hneeds hg hrest ih =>
      intro n cq h hok
      -- the resize that the insertion makes is this one
      have hresize : ∀ {m g'}, resizeCapacity H P.toLocator lf m cp cp.nextKeys true = .ok g' →
          g' = g ∧ Sure H P Wf g ∧ g.toMap = cp.toMap := by
        intro m g' hg'
        obtain rfl := hg.unique hg'
        exact ⟨rfl, resize_sure hP (fun m _ => insert_sure hP m) h _ hg', hg.keeps_map hP h hg'⟩
      cases n with
      | zero =>
          unfold ControlPlaneLudo.insert at hok
          cases hok
      | succ n =>
          obtain ⟨k', hk', hcase⟩ := insert_cases hok
          cases hk'
          cases hcase with
          | member hmem =>
              rw [hneeds.1] at hmem
              cases hmem
          | resized _ _ hg' hq =>
              obtain ⟨rfl, hsure, hmap⟩ := hresize hg'
              rw [← hmap]
              exact ih hsure hq
          | placed _ hroom htarget =>
              rcases hneeds.2 with hfull | ⟨hnone, -⟩
              · exact absurd hfull hroom
              · rw [htarget] at hnone
                cases hnone
          | moved _ hroom _ hsearch =>
              rcases hneeds.2 with hfull | ⟨-, hnone⟩
              · exact absurd hfull hroom
              · rw [hsearch] at hnone
                cases hnone
          | crowded _ _ _ _ _ hg' hq hcq =>
              obtain ⟨rfl, hsure, hmap⟩ := hresize hg'
              subst hcq
              rw [← hmap]
              have hadded := ih hsure hq
              exact hadded

/-! ## Runs of undisturbed calls -/

/-- What the call does to the map. -/
def mapAfter (m : U64 → Option V) : IndexCall V → U64 → Option V
  | .insert _ k v => Function.update m k (some v)
  | .remove k => Function.update m k none
  | .changeValue k v => if (m k).isSome = true then Function.update m k (some v) else m
  | .resizeCapacity _ _ _ => m

/-- In the call no rebuild starts while another one puts its keys back. -/
def Calm (H : HashFn) (P : RemovableLocator) (lf : LoadFactor) (cp : ControlPlaneLudo V P.State) : IndexCall V → Prop
  | .insert _ k _ => Undisturbed H P.toLocator lf k cp
  | .remove _ => True
  | .changeValue _ _ => True
  | .resizeCapacity _ _ _ => False

/-- A run of calls that all return, and in which no rebuild is disturbed. -/
inductive CalmRun (H : HashFn) (P : RemovableLocator) (lf : LoadFactor) :
    ControlPlaneLudo V P.State → List (IndexCall V) → ControlPlaneLudo V P.State → Prop where
  | done {cp : ControlPlaneLudo V P.State} : CalmRun H P lf cp [] cp
  | step {cp cq cr : ControlPlaneLudo V P.State} {a : IndexCall V} {l : List (IndexCall V)} (hcalm : Calm H P lf cp a)
      (hcall : call H P lf cp a = .ok cq) (hrest : CalmRun H P lf cq l cr) : CalmRun H P lf cp (a :: l) cr

/-- An insertion into a free slot starts no rebuild. -/
theorem calm_of_free (hroom : ¬ cp.capacity < cp.nextKeys) (hfree : (cp.targetSlot H k).isSome = true) (depth : Nat) (v : V) :
    Calm H P lf cp (.insert depth k v) := by
  refine .settled ?_
  rintro ⟨-, hfull | ⟨hnone, -⟩⟩
  · exact hroom hfull
  · rw [hnone] at hfree
    cases hfree

theorem call_map (hP : P.Refillable Wf) (h : Sure H P Wf cp) {a : IndexCall V} (hcalm : Calm H P lf cp a) :
    Lib.Returns (fun cq => cq.toMap = mapAfter cp.toMap a) (call H P lf cp a) := by
  cases a with
  | insert depth k v => exact fun cq hcq => Undisturbed.keeps_others hP hcalm h hcq
  | remove k => exact fun cq hcq => (h.remove_spec hP k cq hcq).2
  | changeValue k v =>
      refine Lib.Returns.ok ?_
      change (cp.changeValue H k v).toMap = if _ then _ else _
      rw [← h.arranged.isMember_eq]
      by_cases hmem : cp.isMember H k = true
      · rw [if_pos hmem]
        exact (h.arranged.changeValue_member hmem v).toMap
      · rw [if_neg hmem, changeValue_absent (P := P.toLocator) (by simpa using hmem)]
  | resizeCapacity _ _ _ => exact absurd hcalm id

/-- **A calm run** leaves the map that its calls describe. -/
theorem CalmRun.toMap_eq (hP : P.Refillable Wf) {l : List (IndexCall V)} (hrun : CalmRun H P lf cp l cq)
    (h : Sure H P Wf cp) : Sure H P Wf cq ∧ cq.toMap = l.foldl mapAfter cp.toMap := by
  induction hrun with
  | done => exact ⟨h, rfl⟩
  | step hcalm hcall _ ih =>
      obtain ⟨hsure, hmap⟩ := ih (call_sure hP h _ _ hcall)
      refine ⟨hsure, ?_⟩
      rw [hmap, call_map hP h hcalm _ hcall]
      rfl

end ControlPlaneLudo

end Outback
