import Outback.Othello.Correctness.Calls

/-!
# `Othello.Correctness.Exact` — the locator of the Ludo table is an Othello

`controlPlaneOthello` are the operations that the Ludo control plane calls on its `ControlPlaneOthello<K, uint8_t, 1, 0, true>`,
and the `DataPlaneOthello` made from it. They are those of an updatable map from keys to one bit (`controlPlaneOthello_exact`),
as the development of the Ludo table assumes of its parameter `Othello`.

`clear` is not one of them: it forgets the keys and keeps the edges. What makes it safe where `tryBuild` calls it is that the
first key that is put back has been there before: its edge closes a cycle, and the control plane is built from nothing
(`Built.refill_spec`).
-/

namespace Outback

namespace ControlPlaneOthello

variable {H : HashFn} {rand : Nat → U64} {t : ControlPlaneOthello} {k v : U64} {b : Bool} {depth n : Nat}

/-- A table of bits. -/
def Bits (H : HashFn) (t : ControlPlaneOthello) : Prop := t.Built H 1 ∧ t.AllValues fun w => w = 0 ∨ w = 1

/-- The bit of each key. -/
def bits (t : ControlPlaneOthello) (k : U64) : Option Bool := (t.toMap 1 k).map (· == 1)

/-- `uint8_t(bi)`. -/
def ofBit (b : Bool) : U64 := if b then 1 else 0

theorem ofBit_or (b : Bool) : ofBit b = 0 ∨ ofBit b = 1 := by
  cases b with
  | false => exact .inl rfl
  | true => exact .inr rfl

theorem bits_update {t t' : ControlPlaneOthello} (h : t'.toMap 1 = Function.update (t.toMap 1) k (some (ofBit b &&& lowMask 1))) :
    t'.bits = Function.update t.bits k (some b) := by
  funext x
  unfold bits
  rw [h]
  by_cases hx : x = k
  · subst hx
    rw [Function.update_self, Function.update_self]
    cases b <;> rfl
  · rw [Function.update_of_ne hx, Function.update_of_ne hx]

theorem Bits.toMap_eq (h : t.Bits H) (hb : t.bits k = some b) : t.toMap 1 k = some (ofBit b) := by
  obtain ⟨v, hv, rfl⟩ := Option.map_eq_some_iff.mp hb
  obtain ⟨i, hi, -, rfl⟩ := h.1.distinct.exists_key hv
  rw [hv]
  rcases h.2 i hi with hzero | hone
  · rw [hzero]
    rfl
  · rw [hone]
    rfl

theorem Bits.isMember_eq (h : t.Bits H) (k : U64) : t.isMember H k = (t.bits k).isSome := by
  unfold bits
  rw [h.1.isMember_eq, Option.isSome_map]

theorem Bits.lookUp_eq (h : t.Bits H) (hb : t.bits k = some b) : (t.lookUp H 1 k == 1) = b := by
  rw [h.1.lookUp_eq (h.toMap_eq hb)]
  cases b <;> rfl

/-- A table after a rebuild. -/
theorem Bits.rebuilt (h : t.Bits H) {r : ControlPlaneOthello × Nat} (hr : Rebuilt H 1 t r) : r.1.Bits H ∧ r.1.bits = t.bits := by
  refine ⟨⟨hr.1, hr.2.allValues h.2⟩, ?_⟩
  unfold bits
  rw [hr.2.toMap_eq h.1.distinct hr.1.distinct]

/-! ## Putting keys back after `clear` -/

/-- The map of keys that are put in one after the other. -/
def mapOf (L : Nat) (l : List (U64 × U64)) (m : U64 → Option U64) : U64 → Option U64 :=
  l.foldl (fun m p => Function.update m p.1 (some (p.2 &&& lowMask L))) m

/-- **The first key that is put back** into a cleared table has been there: the table is built from nothing. -/
theorem Built.refill_first {L : Nat} (h : t.Built H L) (hL : L ≤ 60) (hmem : t.isMember H k = true) :
    Lib.Returns (fun r => r.2.1.Built H L ∧ r.2.1.toMap L = Function.update (fun _ => none) k (some (v &&& lowMask L)) ∧
        ∀ P : U64 → Prop, P v → r.2.1.AllValues P)
      (t.clear.insert H L rand depth n k v false) := by
  cases depth with
  | zero => exact Lib.Returns.error _
  | succ depth =>
      obtain ⟨hi, hk⟩ := isMember_key_of hmem
      generalize t.lookUpIndex H k = i at hi hk
      subst hk
      have hmb := h.sized.mb_pos
      have hsize := h.size_le
      have habsent : ¬ t.clear.isMember H (t.keys i) = true := by
        intro hmem
        exact absurd (isMember_key_of hmem).1 (Nat.not_lt_zero _)
      have hroom : ¬ (t.clear.keysSize ≤ t.clear.nKeysInOthello ∨ t.clear.mb ≤ t.clear.nKeysInOthello) := by
        change ¬ (t.keysSize ≤ 0 ∨ t.mb ≤ 0)
        omega
      have ha := h.sized.fst_lt (H := H) i
      have hb := h.sized.snd_lt (H := H) i
      -- the edge of the key is still there
      obtain ⟨res, s, hok, hsame, -⟩ := h.joined.wf.sameSet_spec (Nat.lt_add_right t.mb ha) hb (Nat.lt_succ_self _)
      obtain rfl : res = true := hsame.mpr ((h.joined.same _ _).mpr (.edge (Set.mem_Iio.mpr hi) (.of_ends _ i)))
      have hquestion : t.clear.isConnectedDFS (t.clear.getIndices H (t.keys i)).1 (t.clear.getIndices H (t.keys i)).2 =
          .ok (true, { t.clear with connectivityForest := s }) := by
        change (t.connectivityForest.sameSet (t.ma + t.mb + 1) (t.ends H i).1 (t.ends H i).2 >>= _) = _
        rw [hok]
        rfl
      rw [insert, if_neg habsent, if_neg hroom]
      dsimp only
      rw [hquestion]
      have hempty : t.clear.Distinct := fun j hj => absurd hj (Nat.not_lt_zero _)
      have hready : (appended { t.clear with connectivityForest := s } (t.keys i) v).Ready :=
        ⟨⟨h.sized.ma_pos, h.sized.mb_pos, h.sized.nodes_lt, h.sized.keys_lt⟩, by
          change 0 + 1 ≤ t.keysSize
          omega⟩
      obtain ⟨hdistinct, hmap⟩ := appended_toMap (L := L) hempty (k := t.keys i) (fun j hj => absurd hj (Nat.not_lt_zero _)) v
      refine (hready.build_spec hL).bind ?_
      rintro b ⟨hbuilt, hsame⟩
      have hcontent : (t.clear.appended (t.keys i) v).SameContent b.1 := ⟨hsame.size, hsame.keys, hsame.values⟩
      have hvalues : ∀ P : U64 → Prop, P v → b.1.AllValues P := fun P hv =>
        hcontent.allValues (AllValues.appended (fun j hj => absurd hj (Nat.not_lt_zero _)) hv)
      refine Lib.Returns.ok ⟨hbuilt, ?_, hvalues⟩
      rw [hcontent.toMap_eq hdistinct hbuilt.distinct, hmap]
      congr 1

/-- **Keys put back after `clear`**: if the first of them has been in the table, the table is built and has exactly these
    keys, whatever edges `clear` has left. -/
theorem Built.refill_spec {L : Nat} (h : t.Built H L) (hL : L ≤ 60) {p : U64 × U64} (hp : t.isMember H p.1 = true)
    (l : List (U64 × U64)) :
    Lib.Returns (fun s => s.1.Built H L ∧ s.1.toMap L = mapOf L (p :: l) fun _ => none)
      ((p :: l).foldlM (fun (s : ControlPlaneOthello × Nat) q => do
        let r ← s.1.insert H L rand depth s.2 q.1 q.2 false
        .ok r.2) (t.clear, n)) := by
  rw [List.foldlM_cons]
  have hfirst : Lib.Returns (fun s : ControlPlaneOthello × Nat => s.1.Built H L ∧ s.1.toMap L = mapOf L [p] fun _ => none)
      (t.clear.insert H L rand depth n p.1 p.2 false >>= fun r => .ok r.2) := by
    refine Lib.Returns.bind (h.refill_first hL hp) ?_
    rintro r ⟨hbuilt, hmap, -⟩
    exact Lib.Returns.ok ⟨hbuilt, hmap⟩
  refine hfirst.bind ?_
  rintro s ⟨hbuilt, hmap⟩
  refine Lib.Returns.foldlM_prefix
    (I := fun pre (s : ControlPlaneOthello × Nat) =>
      s.1.Built H L ∧ s.1.toMap L = mapOf L pre (mapOf L [p] fun _ => none)) l ⟨hbuilt, hmap⟩ ?_
  rintro pre q post s - ⟨hbuilt, hmap⟩
  refine Lib.Returns.bind (hbuilt.insert_spec hL) ?_
  rintro r ⟨hins, hstatus⟩
  refine Lib.Returns.ok ⟨hins.built, ?_⟩
  rw [hins.toMap (hstatus rfl), hmap]
  unfold mapOf
  rw [List.foldl_append]
  rfl

/-- Key 7 is put back with another value, and key 9 with it. -/
theorem refill_spec_seven : ∃ t n,
    construct fastHasher64 1 (fun i => BitVec.ofNat 64 i) 1 0 1 true [7] [1] = .ok (t, n) ∧
    Lib.Returns (fun s => s.1.toMap 1 = mapOf 1 [(7, 0), (9, 1)] fun _ => none)
      ([(7, 0), (9, 1)].foldlM (fun (s : ControlPlaneOthello × Nat) q => do
        let r ← s.1.insert fastHasher64 1 (fun i => BitVec.ofNat 64 i) 1 s.2 q.1 q.2 false
        .ok r.2) (t.clear, n)) := by
  obtain ⟨⟨t, n⟩, hok, hmem⟩ := Lib.exists_of_passes (p := fun r => r.1.isMember fastHasher64 7)
    (x := construct fastHasher64 1 (fun i => BitVec.ofNat 64 i) 1 0 1 true [7] [1]) (by decide +kernel)
  have hbuilt := (construct_spec (by decide) (by decide) _ hok).1
  exact ⟨t, n, hok, fun s hs => (hbuilt.refill_spec (by decide) (p := (7, 0)) hmem [(9, 1)] s hs).2⟩

end ControlPlaneOthello

open ControlPlaneOthello (Bits ofBit)

/-- The Othello of the Ludo table; a call nests at most `depth` rebuilds. -/
@[reducible] def controlPlaneOthello (H : HashFn) (rand : Nat → U64) (depth : Nat) : Othello where
  Table := ControlPlaneOthello
  new := fun n => ControlPlaneOthello.construct H 1 rand depth n 1 true [] []
  isMember := fun t k => t.isMember H k
  lookUp := fun t k => .ok (t.lookUp H 1 k == 1)
  insert := fun t n k bi => do
    let r ← t.insert H 1 rand depth n k (ofBit bi) false
    .ok r.2
  changeValue := fun t k bi => do
    let r ← t.changeValue H 1 k (ofBit bi)
    .ok r.2
  toggleInOthello := fun t k => do
    let r ← t.toggleInOthello H 1 k
    .ok r.2
  resizeCapacity := fun t n capacity => t.resizeCapacity H 1 rand depth n capacity false
  clear := fun t => t.clear
  dpLookUp := fun t k => Lib.passes (· == 1) ((DataPlaneOthello.ofControlPlane t).lookUp H 1 k)

/-- **The Othello of the Ludo table is an updatable map.** -/
@[reducible] def controlPlaneOthello_exact (H : HashFn) (rand : Nat → U64) (depth : Nat) :
    (controlPlaneOthello H rand depth).Exact where
  bits := ControlPlaneOthello.bits
  Wf := ControlPlaneOthello.Bits H
  new := by
    intro n r hr
    have hr : ControlPlaneOthello.construct H 1 rand depth n 1 true [] [] = .ok r := hr
    obtain ⟨hbuilt, hsize, -⟩ := ControlPlaneOthello.construct_spec (by decide : 1 ≤ 60) (by decide : 1 < 2 ^ 32) r hr
    have hsize : r.1.nKeysInOthello = 0 := hsize
    refine ⟨⟨hbuilt, fun i hi => absurd hi (by omega)⟩, ?_⟩
    funext k
    unfold ControlPlaneOthello.bits
    rw [ControlPlaneOthello.toMap_eq_none fun i hi => absurd hi (by omega)]
    rfl
  isMember := fun t h k => h.isMember_eq k
  lookUp := fun t h k b hb => Lib.Returns.ok (h.lookUp_eq hb)
  insert := by
    intro t h n k bi _
    refine Lib.Returns.bind (h.1.insert_spec (by decide)) ?_
    rintro r ⟨hins, hstatus⟩
    exact Lib.Returns.ok ⟨⟨hins.built, hins.values _ h.2 (ControlPlaneOthello.ofBit_or bi)⟩,
      ControlPlaneOthello.bits_update (hins.toMap (hstatus rfl))⟩
  changeValue := by
    intro t h k bi hk
    obtain ⟨r, hok, -, hbuilt, hsize, hmap, hvalues, -⟩ := h.1.changeValue_spec (by decide)
      ((h.isMember_eq k).trans hk) (ofBit bi)
    refine Lib.Returns.bind (Q := fun r' => r' = r) (fun r' hr' => ?_) ?_
    · exact Except.ok.inj (hr'.symm.trans hok)
    · rintro _ rfl
      refine Lib.Returns.ok ⟨⟨hbuilt, fun i hi => ?_⟩, ControlPlaneOthello.bits_update hmap⟩
      rw [hvalues]
      exact ControlPlaneOthello.AllValues.setValue h.2 _ (ControlPlaneOthello.ofBit_or bi) i (hsize ▸ hi)
  toggleInOthello := by
    intro t h k b hb
    obtain ⟨r, hok, -, hbuilt, -, hmap, hvalues, -⟩ := h.1.toggle_spec h.2 (h.toMap_eq hb)
    refine Lib.Returns.bind (Q := fun r' => r' = r) (fun r' hr' => ?_) ?_
    · exact Except.ok.inj (hr'.symm.trans hok)
    · rintro _ rfl
      refine Lib.Returns.ok ⟨⟨hbuilt, hvalues⟩, ControlPlaneOthello.bits_update ?_⟩
      rw [hmap]
      cases b <;> rfl
  resizeCapacity := by
    intro t h n capacity r hr
    have hsound : t.Sound H 1 false := ⟨h.1.size_le, h.1.sized.keys_lt, .inr ⟨h.1.sized, .inr h.1⟩⟩
    exact h.rebuilt (hsound.resizeCapacity_spec (by decide) r hr)
  dpLookUp := by
    intro t h k b hb
    change Lib.passes (fun v => v == 1) ((DataPlaneOthello.ofControlPlane t).lookUp H 1 k) = b
    rw [(DataPlaneOthello.mirrors_of_copy 1 t).lookUp_eq h.1 (h.toMap_eq hb)]
    cases b <;> rfl

end Outback
