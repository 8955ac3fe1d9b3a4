import Outback.Bench.RemoteTable
import Outback.Ludo.Correctness.Calm
import Outback.Othello.Correctness.Exact

/-!
# `Othello.Correctness.LudoTable` — the Ludo table over its own Othello

`othelloLocator` is the Othello of the control plane, with the `rand()` calls that it shares with the row seeds. It can be
cleared and refilled (`othelloLocator_refillable`), so a table over it is sure in every state that calls lead to, whatever
seeds are drawn and however rebuilds nest. **`reached_served`**: the Othello has the keys of the table and no others, and
what `DataPlaneLudo(cp, pd)` makes of it finds the value of every stored key in a slot of the key's own. A bulk load in which
no rebuild disturbs another ends in the table that the servers are shown to work on (**`calm_load_loaded`**).
-/

namespace Outback

open ControlPlaneOthello (Bits ofBit)

/-- The Othello of the Ludo table, and `remove` of it. -/
@[reducible] def othelloLocator (H : HashFn) (rand : Nat → U64) (depth : Nat) : RemovableLocator where
  toLocator := (controlPlaneOthello H rand depth).locator rand
  remove := fun s k => do
    let r ← s.1.remove H 1 k
    .ok (r.2, s.2)

section Refillable

variable {H : HashFn} {rand : Nat → U64} {depth : Nat}

/-- The bits of the locator are those of the Othello. -/
theorem bitOf_othelloLocator {s : (othelloLocator H rand depth).State} (h : s.1.Bits H) :
    (othelloLocator H rand depth).bitOf s = s.1.bits := by
  funext k
  unfold RemovableLocator.bitOf
  change (if s.1.isMember H k = true then some (s.1.lookUp H 1 k == 1) else none) = s.1.bits k
  rw [h.isMember_eq]
  cases hb : s.1.bits k with
  | none => rfl
  | some b =>
      rw [h.lookUp_eq hb]
      rfl

/-- What an operation of the Othello does to its bits it does to those of the locator. -/
theorem bitOf_of_bits {s s' : (othelloLocator H rand depth).State} (h : s.1.Bits H) (h' : s'.1.Bits H)
    {f : (U64 → Option Bool) → U64 → Option Bool} (hf : s'.1.bits = f s.1.bits) :
    (othelloLocator H rand depth).bitOf s' = f ((othelloLocator H rand depth).bitOf s) := by
  rw [bitOf_othelloLocator h, bitOf_othelloLocator h', hf]

/-- A cleared table has no keys. It is built if it had none, or when one that it had is put back. -/
theorem ControlPlaneOthello.Bits.cleared {s : (othelloLocator H rand depth).State} (h : s.1.Bits H) :
    (othelloLocator H rand depth).Cleared (fun s => s.1.Bits H) s (s.1.clear, s.2) where
  bits := by
    funext k
    unfold RemovableLocator.bitOf
    rw [if_neg]
    change ¬ s.1.clear.isMember H k = true
    intro hmem
    exact absurd (ControlPlaneOthello.isMember_key_of hmem).1 (Nat.not_lt_zero _)
  empty := by
    intro hnone
    rw [bitOf_othelloLocator h] at hnone
    -- without keys nothing is cleared
    have hzero : s.1.nKeysInOthello = 0 := by
      by_contra hpos
      have hmem := h.1.isMember_key (Nat.pos_of_ne_zero hpos)
      rw [h.isMember_eq, hnone] at hmem
      cases hmem
    have hsame : s.1.clear = s.1 := by
      unfold ControlPlaneOthello.clear
      rw [← hzero]
    change s.1.clear.Bits H
    rw [hsame]
    exact h
  first := by
    intro k hk bi
    refine Lib.Returns.bind (h.1.refill_first (by decide) hk) ?_
    rintro r ⟨hbuilt, hmap, hvalues⟩
    have hbits : r.2.1.Bits H := ⟨hbuilt, hvalues _ (ControlPlaneOthello.ofBit_or bi)⟩
    refine Lib.Returns.ok ⟨hbits, ?_⟩
    have hupdate : r.2.1.toMap 1 = Function.update (s.1.clear.toMap 1) k (some (ofBit bi &&& lowMask 1)) := by
      rw [hmap]
      congr 1
    rw [bitOf_othelloLocator hbits, ControlPlaneOthello.bits_update hupdate]
    congr 1

theorem othelloLocator_refillable (H : HashFn) (rand : Nat → U64) (depth : Nat) :
    (othelloLocator H rand depth).Refillable fun s => s.1.Bits H where
  insert := by
    intro s h k bi hmem s' hs'
    have hnone : s.1.bits k = none := by
      have hk := (h.isMember_eq k).symm.trans hmem
      simpa using hk
    obtain ⟨hbits, hmap⟩ := (controlPlaneOthello_exact H rand depth).insert s.1 h s.2 k bi hnone s' hs'
    exact ⟨hbits, bitOf_of_bits h hbits (f := fun m => Function.update m k (some bi)) hmap⟩
  changeValue := by
    intro s h k bi hmem s' hs'
    obtain ⟨t, ht, hs'⟩ := Lib.bind_eq_ok.mp hs'
    cases hs'
    obtain ⟨hbits, hmap⟩ := (controlPlaneOthello_exact H rand depth).changeValue s.1 h k bi
      ((h.isMember_eq k).symm.trans hmem) t ht
    exact ⟨hbits, bitOf_of_bits h hbits (f := fun m => Function.update m k (some bi)) hmap⟩
  toggleInOthello := by
    intro s h k s' hs'
    obtain ⟨t, ht, hs'⟩ := Lib.bind_eq_ok.mp hs'
    cases hs'
    cases hb : s.1.bits k with
    | none =>
        -- "assert(isMember(k))"
        obtain ⟨r, hr, -⟩ := Lib.bind_eq_ok.mp ht
        have hmem : ¬ s.1.isMember H k = true := by
          rw [h.isMember_eq, hb]
          simp
        rw [ControlPlaneOthello.toggleInOthello, if_pos hmem] at hr
        cases hr
    | some b =>
        obtain ⟨hbits, hmap⟩ := (controlPlaneOthello_exact H rand depth).toggleInOthello s.1 h k b hb t ht
        refine ⟨hbits, ?_⟩
        have hupdate : (othelloLocator H rand depth).bitOf (t, s.2)
            = Function.update ((othelloLocator H rand depth).bitOf s) k (some !b) :=
          bitOf_of_bits h hbits (f := fun m => Function.update m k (some !b)) hmap
        rw [hupdate, bitOf_othelloLocator h, hb]
        rfl
  resizeCapacity := by
    intro s h n s' hs'
    obtain ⟨hbits, hmap⟩ := (controlPlaneOthello_exact H rand depth).resizeCapacity s.1 h s.2 n s' hs'
    exact ⟨hbits, bitOf_of_bits h hbits (f := id) hmap⟩
  remove := by
    intro s h k s' hs'
    obtain ⟨r, hr, hs'⟩ := Lib.bind_eq_ok.mp hs'
    cases hs'
    obtain ⟨_, hok, hbuilt, hmap, hvalues, -⟩ := h.1.remove_spec (by decide) k
    obtain rfl := Except.ok.inj (hok.symm.trans hr)
    -- what is left are bits
    have hbits : Bits H _ := ⟨hbuilt, hvalues _ h.2⟩
    refine ⟨hbits, bitOf_of_bits h hbits (f := fun m => Function.update m k none) ?_⟩
    funext x
    unfold ControlPlaneOthello.bits
    rw [hmap]
    by_cases hx : x = k
    · subst hx
      rw [Function.update_self, Function.update_self]
      rfl
    · rw [Function.update_of_ne hx, Function.update_of_ne hx]
  rowSeed := by
    rintro s h _ ⟨⟩
    exact ⟨h, bitOf_of_bits h h (f := id) rfl⟩
  clear := by
    rintro s h _ ⟨⟩
    exact h.cleared

end Refillable

/-! ## What the data planes answer -/

namespace ControlPlaneLudo

section Served

variable {V : Type} {H : HashFn} {rand : Nat → U64} {depth b : Nat} {s : Slot} {k : U64} {lf : LoadFactor}

/-- A new table over a new Othello. -/
theorem construct_othello_sure [Inhabited V] {n capacity : Nat} {l : (othelloLocator H rand depth).State}
    (hnew : (controlPlaneOthello H rand depth).new n = .ok l) :
    Lib.Returns (fun cp => Sure H (othelloLocator H rand depth) (fun s => s.1.Bits H) cp ∧ cp.toMap = fun _ => none)
      (construct (V := V) (othelloLocator H rand depth).toLocator lf l capacity) := by
  obtain ⟨hbits, hnone⟩ := (controlPlaneOthello_exact H rand depth).new n l hnew
  have habsent : ∀ x, (othelloLocator H rand depth).isMember l x = false := by
    intro x
    change l.1.isMember H x = false
    rw [hbits.isMember_eq, show ControlPlaneOthello.bits l.1 = fun _ => none from hnone]
    rfl
  exact construct_sure (othelloLocator_refillable H rand depth) hbits habsent capacity

variable {cp : ControlPlaneLudo V ((controlPlaneOthello H rand depth).locator rand).State}

/-- The data planes look a stored key up in its bucket, under the bucket's seed. -/
theorem Sure.lookupSlot_stored (h : Sure H (othelloLocator H rand depth) (fun s => s.1.Bits H) cp) {v : V}
    (hc : cp.content (b, s) = some (k, v)) :
    ((controlPlaneOthello H rand depth).dataPlane cp).lookupSlot H k = (b, seedSlot H (cp.buckets.get b).seed k) := by
  obtain ⟨bit, hbit, hcand⟩ := h.arranged.located b s k v hc
  have hbit : (othelloLocator H rand depth).bitOf cp.locator k = some bit := hbit
  rw [bitOf_othelloLocator h.wf] at hbit
  have hanswer : (controlPlaneOthello H rand depth).dpLookUp cp.locator.1 k = bit :=
    (controlPlaneOthello_exact H rand depth).dpLookUp cp.locator.1 h.wf k bit hbit
  have hrow : ((controlPlaneOthello H rand depth).dataPlane cp).row H k = b := by
    rw [← hcand]
    unfold DataPlaneLudo.row candidate
    rw [h.arranged.size]
    exact congrArg (fastMapToBuckets (H cp.hSeed k) cp.numBuckets) hanswer
  unfold DataPlaneLudo.lookupSlot DataPlaneLudo.slot
  rw [hrow]
  rfl

/-- No two stored keys share a slot. -/
theorem Sure.lookupSlot_inj (h : Sure H (othelloLocator H rand depth) (fun s => s.1.Bits H) cp) {k' : U64}
    (hk : (cp.toMap k).isSome = true) (hk' : (cp.toMap k').isSome = true)
    (heq : ((controlPlaneOthello H rand depth).dataPlane cp).lookupSlot H k
      = ((controlPlaneOthello H rand depth).dataPlane cp).lookupSlot H k') : k = k' := by
  obtain ⟨v, ⟨b, s⟩, hc⟩ := (isSome_toMap (P := othelloLocator H rand depth) h.arranged.once).mp hk
  obtain ⟨v', ⟨b', s'⟩, hc'⟩ := (isSome_toMap (P := othelloLocator H rand depth) h.arranged.once).mp hk'
  rw [h.lookupSlot_stored hc, h.lookupSlot_stored hc'] at heq
  obtain ⟨rfl, hslot⟩ := Prod.mk.inj heq
  obtain rfl := h.arranged.separated b s s' k v k' v' hc hc' hslot
  rw [hc] at hc'
  exact (Prod.mk.inj (Option.some.inj hc')).1

end Served

section Words

variable {H : HashFn} {rand : Nat → U64} {depth : Nat} {lf : LoadFactor}
  {cp : ControlPlaneLudo U64 ((controlPlaneOthello H rand depth).locator rand).State}

theorem stored_exact_iff (h : Sure H (othelloLocator H rand depth) (fun s => s.1.Bits H) cp) {b : Nat} {s : Slot} :
    ((controlPlaneOthello H rand depth).exact cp).Stored b s ↔
      cp.content (b, s) = some ((cp.buckets.get b).keys s, (cp.buckets.get b).values s) := by
  unfold Stored
  constructor
  · rintro ⟨hb, hmask⟩
    exact content_eq_some.mpr ⟨h.arranged.size ▸ hb, hmask, rfl, rfl⟩
  · intro hc
    obtain ⟨hb, hmask, -⟩ := content_eq_some.mp hc
    exact ⟨h.arranged.size ▸ hb, hmask⟩

theorem Sure.seedsSeparate (h : Sure H (othelloLocator H rand depth) (fun s => s.1.Bits H) cp) :
    ((controlPlaneOthello H rand depth).exact cp).SeedsSeparate H := by
  intro b s t hs ht hslot
  exact h.arranged.separated b s t _ _ _ _ ((stored_exact_iff h).mp hs) ((stored_exact_iff h).mp ht) hslot

/-- The word of a stored key is where the data planes look for it. -/
theorem Sure.word_stored (h : Sure H (othelloLocator H rand depth) (fun s => s.1.Bits H) cp) {k v : U64}
    (hk : cp.toMap k = some v) :
    (((controlPlaneOthello H rand depth).exact cp).remoteBuckets H).word
      (((controlPlaneOthello H rand depth).dataPlane cp).lookupSlot H k).1
      (((controlPlaneOthello H rand depth).dataPlane cp).lookupSlot H k).2 = bulkWord v := by
  obtain ⟨⟨b, s⟩, hc⟩ := (toMap_eq_some_iff h.arranged.once).mp hk
  obtain ⟨-, -, rfl, rfl⟩ := content_eq_some.mp hc
  rw [h.lookupSlot_stored hc]
  exact h.seedsSeparate.remoteBuckets_stored ((stored_exact_iff h).mpr hc)

end Words

/-! ## The table of a bulk load -/

section Load

/-- The insertions of `setup_ludo_table`. -/
def loadCalls (depth : Nat) (existKeys : List U64) : List (IndexCall U64) :=
  (List.range existKeys.length).map fun i => .insert depth (existKeys.getD i 0) (BitVec.ofNat 64 i)

/-- What insertions leave in a map has been in it, or was inserted. -/
theorem mem_of_mapAfter {V : Type} {k : U64} {v : V} (pairs : List (Nat × U64 × V)) {m : U64 → Option V}
    (h : (pairs.map fun e => IndexCall.insert e.1 e.2.1 e.2.2).foldl mapAfter m k = some v) :
    m k = some v ∨ ∃ depth, (depth, k, v) ∈ pairs := by
  induction pairs generalizing m with
  | nil => exact .inl h
  | cons e pairs ih =>
      rcases ih h with hnow | ⟨depth, hlater⟩
      · change Function.update m e.2.1 (some e.2.2) k = some v at hnow
        by_cases hk : k = e.2.1
        · subst hk
          rw [Function.update_self] at hnow
          cases hnow
          exact .inr ⟨e.1, List.mem_cons_self⟩
        · rw [Function.update_of_ne hk] at hnow
          exact .inl hnow
      · exact .inr ⟨depth, List.mem_cons_of_mem e hlater⟩

theorem loadCalls_toMap {depth : Nat} {existKeys : List U64} {k v : U64}
    (h : (loadCalls depth existKeys).foldl mapAfter (fun _ => none) k = some v) :
    ∃ i : Fin existKeys.length, k = existKeys.get i ∧ v = BitVec.ofNat 64 i := by
  have hpairs : loadCalls depth existKeys = ((List.range existKeys.length).map fun i =>
      (depth, existKeys.getD i 0, (BitVec.ofNat 64 i : U64))).map fun e => .insert e.1 e.2.1 e.2.2 := by
    unfold loadCalls
    rw [List.map_map]
    rfl
  rw [hpairs] at h
  rcases mem_of_mapAfter _ h with hnone | ⟨depth', hmem⟩
  · cases hnone
  · obtain ⟨i, hi, heq⟩ := List.mem_map.mp hmem
    have hlt := List.mem_range.mp hi
    simp only [Prod.mk.injEq] at heq
    obtain ⟨-, rfl, rfl⟩ := heq
    exact ⟨⟨i, hlt⟩, by simp [hlt], rfl⟩

variable {H : HashFn} {P : RemovableLocator} {lf : LoadFactor} {cp cq : ControlPlaneLudo U64 P.State}

/-- A calm run is a loop over its calls. -/
theorem CalmRun.foldlM_eq {l : List (IndexCall U64)} (h : CalmRun H P lf cp l cq) : l.foldlM (call H P lf) cp = .ok cq := by
  induction h with
  | done => rfl
  | step _ hcall _ ih =>
      rw [List.foldlM_cons, hcall]
      exact ih

/-- A calm bulk load is the loop of `setup_ludo_table`. -/
theorem insertAll_of_calm {depth : Nat} {existKeys : List U64} (h : CalmRun H P lf cp (loadCalls depth existKeys) cq) :
    insertAll H P.toLocator lf depth cp existKeys (BitVec.ofNat 64) existKeys.length = .ok cq := by
  rw [← h.foldlM_eq]
  unfold insertAll loadCalls
  rw [List.foldlM_map]
  refine Lib.foldlM_congr _ (fun i hi cp => ?_) cp
  have hlt := List.mem_range.mp hi
  rw [List.getElem?_eq_getElem hlt, List.getD_eq_getElem existKeys 0 hlt]
  rfl

theorem remove_numBuckets (cp : ControlPlaneLudo U64 P.State) (k : U64) :
    Lib.Returns (fun cq => cq.numBuckets = cp.numBuckets) (cp.remove H P k) := by
  rw [remove_eq]
  split
  · exact Lib.Returns.bind (Q := fun _ => True) (fun _ _ => trivial) fun _ _ => Lib.Returns.ok rfl
  · exact Lib.Returns.ok rfl

/-- The size keeps its form. -/
theorem CalmRun.sized {l : List (IndexCall U64)} (h : CalmRun H P lf cp l cq) (hsized : Sized cp.numBuckets) :
    Sized cq.numBuckets := by
  induction h with
  | done => exact hsized
  | @step cp cq cr a l hcalm hcall _ ih =>
      apply ih
      cases a with
      | insert depth k v => exact insert_sized depth cp _ v hsized cq hcall
      | remove k =>
          rw [remove_numBuckets cp k cq hcall]
          exact hsized
      | changeValue k v =>
          cases hcall
          rw [changeValue_numBuckets (P := P.toLocator)]
          exact hsized
      | resizeCapacity _ _ _ => exact absurd hcalm id

end Load

/-! ## Every run -/

/-- `rand()` gives the number of calls before. -/
def countingRand (i : Nat) : U64 := BitVec.ofNat 64 i

/-- An Othello with these seeds. -/
abbrev countingLocator : RemovableLocator := othelloLocator fastHasher64 countingRand 2

/-- A control plane of 64-bit values over it. -/
abbrev CountingLudo := ControlPlaneLudo U64 ((controlPlaneOthello fastHasher64 countingRand 2).locator countingRand).State

section Runs

variable {V : Type} {H : HashFn} {rand : Nat → U64} {depth : Nat} {lf : LoadFactor} {n capacity : Nat}
  {l : (othelloLocator H rand depth).State}

/-- **Every run of the index**, over the Othello that it really has, whatever seeds are drawn and however rebuilds nest:
    the Othello has the keys of the table and no others, and the data planes made of the table find the word of every
    stored key in a slot of the key's own. -/
theorem reached_served {empty cp : ControlPlaneLudo U64 ((controlPlaneOthello H rand depth).locator rand).State}
    (hnew : (controlPlaneOthello H rand depth).new n = .ok l)
    (hempty : construct (othelloLocator H rand depth).toLocator lf l capacity = .ok empty)
    (hrun : Lib.Reaches (call H (othelloLocator H rand depth) lf) Lib.anyStep empty cp) :
    (∀ k, cp.locator.1.isMember H k = (cp.toMap k).isSome) ∧
      (∀ k v, cp.toMap k = some v → (((controlPlaneOthello H rand depth).exact cp).remoteBuckets H).word
        (((controlPlaneOthello H rand depth).dataPlane cp).lookupSlot H k).1
        (((controlPlaneOthello H rand depth).dataPlane cp).lookupSlot H k).2 = bulkWord v) ∧
      ∀ k k', (cp.toMap k).isSome = true → (cp.toMap k').isSome = true →
        ((controlPlaneOthello H rand depth).dataPlane cp).lookupSlot H k
          = ((controlPlaneOthello H rand depth).dataPlane cp).lookupSlot H k' → k = k' := by
  have h := reached_sure (othelloLocator_refillable H rand depth) (construct_othello_sure hnew empty hempty).1 hrun
  exact ⟨h.isMember_eq, fun k v hk => h.word_stored hk, fun k k' hk hk' heq => h.lookupSlot_inj hk hk' heq⟩

/-- Two keys, a rebuild under a row seed, and a removal. -/
theorem reached_served_nine : ∃ (l : countingLocator.State) (empty cp : CountingLudo),
    (controlPlaneOthello fastHasher64 countingRand 2).new 0 = .ok l ∧
    construct countingLocator.toLocator defaultLoadFactor l 256 = .ok empty ∧
    Lib.Reaches (call fastHasher64 countingLocator defaultLoadFactor) Lib.anyStep empty cp ∧
    ∀ k, cp.locator.1.isMember fastHasher64 k = (cp.toMap k).isSome := by
  obtain ⟨l, hl, hload⟩ := Lib.exists_of_passes
    (x := (controlPlaneOthello fastHasher64 countingRand 2).new 0)
    (p := fun l => Lib.passes (fun empty : CountingLudo =>
      (Lib.runAlong (call fastHasher64 countingLocator defaultLoadFactor) Lib.anyStep
        [.insert 1 7 8, .insert 1 9 3, .resizeCapacity 4 100 true, .remove 7] empty).isSome)
      (construct countingLocator.toLocator defaultLoadFactor l 256)) (by decide +kernel)
  obtain ⟨empty, hempty, hrun⟩ := Lib.exists_of_passes hload
  obtain ⟨cp, hcp⟩ := Option.isSome_iff_exists.mp hrun
  exact ⟨l, empty, cp, hl, hempty, .along hcp, (reached_served hl hempty (.along hcp)).1⟩

/-- **What was just inserted is served**, also where the insertion has started rebuilds that disturbed each other. -/
theorem inserted_served {empty cp cq : ControlPlaneLudo U64 ((controlPlaneOthello H rand depth).locator rand).State}
    (hnew : (controlPlaneOthello H rand depth).new n = .ok l)
    (hempty : construct (othelloLocator H rand depth).toLocator lf l capacity = .ok empty)
    (hrun : Lib.Reaches (call H (othelloLocator H rand depth) lf) Lib.anyStep empty cp) {m : Nat} {k v : U64}
    (hok : insert H (othelloLocator H rand depth).toLocator lf m cp (.value k) v = .ok cq) :
    cq.toMap k = some v ∧ (((controlPlaneOthello H rand depth).exact cq).remoteBuckets H).word
      (((controlPlaneOthello H rand depth).dataPlane cq).lookupSlot H k).1
      (((controlPlaneOthello H rand depth).dataPlane cq).lookupSlot H k).2 = bulkWord v := by
  have hP := othelloLocator_refillable H rand depth
  have h := reached_sure hP (construct_othello_sure hnew empty hempty).1 hrun
  have hstored := insert_stores hP k v m h cq hok
  exact ⟨hstored, (insert_sure hP m cp _ v h cq hok).word_stored hstored⟩

theorem inserted_served_nine : ∃ (l : countingLocator.State) (empty cp cq : CountingLudo),
    (controlPlaneOthello fastHasher64 countingRand 2).new 0 = .ok l ∧
    construct countingLocator.toLocator defaultLoadFactor l 256 = .ok empty ∧
    Lib.Reaches (call fastHasher64 countingLocator defaultLoadFactor) Lib.anyStep empty cp ∧
    insert fastHasher64 countingLocator.toLocator defaultLoadFactor 1 cp (.value 9) 3 = .ok cq ∧ cq.toMap 9 = some 3 := by
  obtain ⟨l, hl, hload⟩ := Lib.exists_of_passes
    (x := (controlPlaneOthello fastHasher64 countingRand 2).new 0)
    (p := fun l => Lib.passes (fun empty : CountingLudo =>
      (Lib.runAlong (call fastHasher64 countingLocator defaultLoadFactor) Lib.anyStep
        [.insert 1 7 8, .resizeCapacity 4 100 true] empty).any fun cp : CountingLudo => Lib.passes (fun _ => true)
          (insert fastHasher64 countingLocator.toLocator defaultLoadFactor 1 cp (.value 9) 3))
      (construct countingLocator.toLocator defaultLoadFactor l 256)) (by decide +kernel)
  obtain ⟨empty, hempty, hrun⟩ := Lib.exists_of_passes hload
  obtain ⟨cp, hcp, hinsert⟩ := Lib.exists_along _ hrun
  obtain ⟨cq, hcq, -⟩ := Lib.exists_of_passes hinsert
  exact ⟨l, empty, cp, cq, hl, hempty, hcp, hcq, (inserted_served hl hempty hcp hcq).1⟩

/-- **A run of calls that no rebuild disturbs**: the index is the map that the calls describe, and the data planes made of
    it answer that map. -/
theorem calm_run_served {empty cp : ControlPlaneLudo U64 ((controlPlaneOthello H rand depth).locator rand).State}
    (hnew : (controlPlaneOthello H rand depth).new n = .ok l)
    (hempty : construct (othelloLocator H rand depth).toLocator lf l capacity = .ok empty) {calls : List (IndexCall U64)}
    (hrun : CalmRun H (othelloLocator H rand depth) lf empty calls cp) :
    cp.toMap = calls.foldl mapAfter (fun _ => none) ∧
      (∀ k, cp.locator.1.isMember H k = (calls.foldl mapAfter (fun _ => none) k).isSome) ∧
      ∀ k v, calls.foldl mapAfter (fun _ => none) k = some v →
        (((controlPlaneOthello H rand depth).exact cp).remoteBuckets H).word
          (((controlPlaneOthello H rand depth).dataPlane cp).lookupSlot H k).1
          (((controlPlaneOthello H rand depth).dataPlane cp).lookupSlot H k).2 = bulkWord v := by
  obtain ⟨hstart, hnone⟩ := construct_othello_sure hnew empty hempty
  obtain ⟨h, hmap⟩ := hrun.toMap_eq (othelloLocator_refillable H rand depth) hstart
  rw [hnone] at hmap
  refine ⟨hmap, fun k => ?_, fun k v hk => h.word_stored (hmap ▸ hk)⟩
  rw [← hmap]
  exact h.isMember_eq k

/-- **A calm bulk load is `Loaded`**: what the rest of the development assumes of the servers' table is what
    `setup_ludo_table` makes, over the Othello that the table really has, where no rebuild disturbs another. -/
theorem calm_load_loaded {empty cp : ControlPlaneLudo U64 ((controlPlaneOthello H rand depth).locator rand).State}
    (hnew : (controlPlaneOthello H rand depth).new n = .ok l)
    (hempty : construct (othelloLocator H rand depth).toLocator lf l capacity = .ok empty) {existKeys : List U64}
    (hbound : existKeys.length ≤ 2 ^ 32) {m : Nat}
    (hrun : CalmRun H (othelloLocator H rand depth) lf empty (loadCalls m existKeys) cp) :
    insertAll H (othelloLocator H rand depth).toLocator lf m empty existKeys (BitVec.ofNat 64) existKeys.length = .ok cp ∧
      Loaded H ((controlPlaneOthello H rand depth).exact cp) existKeys := by
  obtain ⟨hstart, hnone⟩ := construct_othello_sure hnew empty hempty
  obtain ⟨h, hmap⟩ := hrun.toMap_eq (othelloLocator_refillable H rand depth) hstart
  rw [hnone] at hmap
  have hsized : Sized cp.numBuckets := hrun.sized (construct_sized l capacity empty hempty)
  refine ⟨insertAll_of_calm hrun, h.arranged.loaded hsized (fun k bit hbit => ?_) hbound fun k v hk => ?_⟩
  · -- the data plane answers the bits of the registered keys
    have hbit : (othelloLocator H rand depth).bitOf cp.locator k = some bit := hbit
    rw [bitOf_othelloLocator h.wf] at hbit
    exact congrArg some ((controlPlaneOthello_exact H rand depth).dpLookUp cp.locator.1 h.wf k bit hbit)
  · rw [hmap] at hk
    exact loadCalls_toMap hk

/-- Two keys that share row 31 of 512. -/
theorem calm_load_loaded_pair : ∃ (l : countingLocator.State) (empty cp : CountingLudo),
    (controlPlaneOthello fastHasher64 countingRand 2).new 0 = .ok l ∧
    construct countingLocator.toLocator defaultLoadFactor l 1024 = .ok empty ∧
    CalmRun fastHasher64 countingLocator defaultLoadFactor empty (loadCalls 1 [0, 301]) cp ∧
    Loaded fastHasher64 ((controlPlaneOthello fastHasher64 countingRand 2).exact cp) [0, 301] := by
  have hfree : ∀ (cp : CountingLudo) (k : U64),
      (!decide (cp.capacity < cp.nextKeys) && (cp.targetSlot fastHasher64 k).isSome) = true →
      ∀ v, Calm fastHasher64 countingLocator defaultLoadFactor cp (.insert 1 k v) := by
    intro cp k h v
    simp only [Bool.and_eq_true, Bool.not_eq_true', decide_eq_false_iff_not] at h
    exact calm_of_free (P := countingLocator) h.1 h.2 1 v
  obtain ⟨l, hl, hload⟩ := Lib.exists_of_passes
    (x := (controlPlaneOthello fastHasher64 countingRand 2).new 0)
    (p := fun l => Lib.passes (fun empty : CountingLudo =>
      (!decide (empty.capacity < empty.nextKeys) && (empty.targetSlot fastHasher64 0).isSome) &&
      Lib.passes (fun cp : CountingLudo =>
          (!decide (cp.capacity < cp.nextKeys) && (cp.targetSlot fastHasher64 301).isSome) &&
          Lib.passes (fun _ => true) (call fastHasher64 countingLocator defaultLoadFactor cp (.insert 1 301 1)))
        (call fastHasher64 countingLocator defaultLoadFactor empty (.insert 1 0 0)))
      (construct countingLocator.toLocator defaultLoadFactor l 1024)) (by decide +kernel)
  obtain ⟨empty, hempty, htest⟩ := Lib.exists_of_passes hload
  obtain ⟨hroom, hfirst⟩ := Bool.and_eq_true_iff.mp htest
  obtain ⟨cp, hcp, htest⟩ := Lib.exists_of_passes hfirst
  obtain ⟨hroom', hsecond⟩ := Bool.and_eq_true_iff.mp htest
  obtain ⟨cq, hcq, -⟩ := Lib.exists_of_passes hsecond
  have hrun : CalmRun fastHasher64 countingLocator defaultLoadFactor empty (loadCalls 1 [0, 301]) cq :=
    .step (hfree empty 0 hroom 0) hcp (.step (hfree cp 301 hroom' 1) hcq .done)
  exact ⟨l, empty, cq, hl, hempty, hrun, (calm_load_loaded hl hempty (by decide) hrun).2⟩

/-- A key is inserted and its value changed. -/
theorem calm_run_served_seven : ∃ (l : countingLocator.State) (empty cp : CountingLudo),
    (controlPlaneOthello fastHasher64 countingRand 2).new 0 = .ok l ∧
    construct countingLocator.toLocator defaultLoadFactor l 256 = .ok empty ∧
    CalmRun fastHasher64 countingLocator defaultLoadFactor empty [.insert 1 7 8, .changeValue 7 5] cp ∧
    cp.toMap = [IndexCall.insert 1 7 8, .changeValue 7 5].foldl mapAfter (fun _ => none) := by
  obtain ⟨l, hl, hload⟩ := Lib.exists_of_passes
    (x := (controlPlaneOthello fastHasher64 countingRand 2).new 0)
    (p := fun l => Lib.passes (fun empty : CountingLudo =>
      (!decide (empty.capacity < empty.nextKeys) && (empty.targetSlot fastHasher64 7).isSome) &&
      Lib.passes (fun _ => true) (call fastHasher64 countingLocator defaultLoadFactor empty (.insert 1 7 8)))
      (construct countingLocator.toLocator defaultLoadFactor l 256)) (by decide +kernel)
  obtain ⟨empty, hempty, htest⟩ := Lib.exists_of_passes hload
  simp only [Bool.and_eq_true, Bool.not_eq_true', decide_eq_false_iff_not] at htest
  obtain ⟨⟨hroom, hfree⟩, hinsert⟩ := htest
  obtain ⟨cq, hcq, -⟩ := Lib.exists_of_passes hinsert
  have hcalm : Calm fastHasher64 countingLocator defaultLoadFactor empty (.insert 1 7 8) :=
    calm_of_free (P := countingLocator) hroom hfree 1 8
  have hlast : CalmRun fastHasher64 countingLocator defaultLoadFactor cq [.changeValue 7 5] (cq.changeValue fastHasher64 7 5) :=
    .step trivial rfl .done
  have hrun : CalmRun fastHasher64 countingLocator defaultLoadFactor empty [.insert 1 7 8, .changeValue 7 5]
      (cq.changeValue fastHasher64 7 5) := .step hcalm hcq hlast
  exact ⟨l, empty, _, hl, hempty, hrun, (calm_run_served hl hempty hrun).1⟩

end Runs

end ControlPlaneLudo

end Outback
