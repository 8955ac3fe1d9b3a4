import Outback.Othello.Correctness.Build

/-!
# `Othello.Correctness.Update` — the map of an Othello and its updates

`toMap` is the map that the arrays `keys` and `values` stand for. A table that is built answers it: the keys it has are the
members, and `lookUp` gives their values (`Built.isMember_eq`, `Built.lookUp_eq`). `changeValue` and `toggleInOthello`
return in every built table (`Built.changeValue_spec`, `Built.toggle_spec`), `insert` returns unless it rebuilds without
end, and what they return is built again and maps as the call says (`Built.insert_spec`).
-/

namespace Outback

namespace ControlPlaneOthello

variable {H : HashFn} {L : Nat} {rand : Nat → U64} {t t' : ControlPlaneOthello} {i n depth : Nat} {k v w : U64}

/-- The map of the first `nKeysInOthello` keys, each with the lower `L` bits of its value. -/
def toMap (L : Nat) (t : ControlPlaneOthello) (k : U64) : Option U64 :=
  ((List.range t.nKeysInOthello).find? fun i => t.keys i == k).map fun i => t.values i &&& lowMask L

/-- The keys are distinct. -/
def Distinct (t : ControlPlaneOthello) : Prop := Set.InjOn t.keys (Set.Iio t.nKeysInOthello)

theorem Built.distinct (h : t.Built H L) : t.Distinct := h.linked.keys_inj

theorem Distinct.toMap_key (h : t.Distinct) (hi : i < t.nKeysInOthello) :
    t.toMap L (t.keys i) = some (t.values i &&& lowMask L) := by
  unfold toMap
  cases hfind : (List.range t.nKeysInOthello).find? fun j => t.keys j == t.keys i with
  | none =>
      rw [List.find?_eq_none] at hfind
      exact absurd (beq_self_eq_true _) (hfind i (List.mem_range.mpr hi))
  | some j =>
      have hj : j < t.nKeysInOthello := List.mem_range.mp (List.mem_of_find?_eq_some hfind)
      have hkey := List.find?_some hfind
      rw [h hj hi (beq_iff_eq.mp hkey)]
      rfl

theorem toMap_eq_none (hk : ∀ i < t.nKeysInOthello, t.keys i ≠ k) : t.toMap L k = none := by
  unfold toMap
  rw [Option.map_eq_none_iff, List.find?_eq_none]
  intro i hi
  rw [beq_iff_eq]
  exact hk i (List.mem_range.mp hi)

/-- A key in the map is one of the keys. -/
theorem Distinct.exists_key (h : t.Distinct) (hk : t.toMap L k = some v) :
    ∃ i < t.nKeysInOthello, t.keys i = k ∧ t.values i &&& lowMask L = v := by
  by_cases hex : ∃ i < t.nKeysInOthello, t.keys i = k
  · obtain ⟨i, hi, rfl⟩ := hex
    rw [h.toMap_key hi] at hk
    exact ⟨i, hi, rfl, Option.some.inj hk⟩
  · rw [toMap_eq_none fun i hi heq => hex ⟨i, hi, heq⟩] at hk
    cases hk

theorem SameContent.toMap_eq (h : t.SameContent t') (hd : t.Distinct) (hd' : t'.Distinct) : t'.toMap L = t.toMap L := by
  funext k
  by_cases hex : ∃ i < t.nKeysInOthello, t.keys i = k
  · obtain ⟨i, hi, rfl⟩ := hex
    rw [hd.toMap_key hi, ← h.keys i hi, hd'.toMap_key (h.size ▸ hi), h.values i hi]
  · rw [toMap_eq_none fun i hi heq => hex ⟨i, hi, heq⟩,
      toMap_eq_none fun i hi heq => hex ⟨i, h.size ▸ hi, (h.keys i (h.size ▸ hi)).symm.trans heq⟩]

/-- Every value in the table satisfies `P`. -/
def AllValues (P : U64 → Prop) (t : ControlPlaneOthello) : Prop := ∀ i < t.nKeysInOthello, P (t.values i)

/-- The same table with another value at one index. -/
@[reducible] def revalue (t : ControlPlaneOthello) (i : Nat) (v : U64) : ControlPlaneOthello :=
  { t with values := Function.update t.values i v }

theorem AllValues.setValue {P : U64 → Prop} (h : t.AllValues P) (i : Nat) (hv : P v) :
    (t.revalue i v).AllValues P := by
  intro j hj
  by_cases hji : j = i
  · subst hji
    change P (Function.update t.values j v j)
    rw [Function.update_self]
    exact hv
  · change P (Function.update t.values i v j)
    rw [Function.update_of_ne hji]
    exact h j hj

/-! ## Looking up -/

/-- **The index of a key** is where the key is. -/
theorem Built.lookUpIndex_key (h : t.Built H L) (hi : i < t.nKeysInOthello) : t.lookUpIndex H (t.keys i) = i := by
  have hfit := h.filled.index i hi
  have hlt : i < 2 ^ 32 := by
    have := h.size_le
    have := h.sized.keys_lt
    omega
  unfold lookUpIndex
  change (t.indMem (t.ends H i).1 ^^^ t.indMem (t.ends H i).2).toNat = i
  rw [hfit, BitVec.toNat_ofNat, Nat.mod_eq_of_lt hlt]

theorem Built.isMember_key (h : t.Built H L) (hi : i < t.nKeysInOthello) : t.isMember H (t.keys i) = true := by
  unfold isMember
  rw [h.lookUpIndex_key hi]
  simp [hi]

theorem isMember_key_of (hmem : t.isMember H k = true) :
    t.lookUpIndex H k < t.nKeysInOthello ∧ t.keys (t.lookUpIndex H k) = k := by
  unfold isMember at hmem
  rw [Bool.and_eq_true, decide_eq_true_eq, beq_iff_eq] at hmem
  exact hmem

/-- **The members** are the keys of the map. -/
theorem Built.isMember_eq (h : t.Built H L) (k : U64) : t.isMember H k = (t.toMap L k).isSome := by
  by_cases hmem : t.isMember H k = true
  · obtain ⟨hi, hk⟩ := isMember_key_of hmem
    rw [hmem, ← hk, h.distinct.toMap_key hi]
    rfl
  · have hnone : t.toMap L k = none := toMap_eq_none fun i hi heq => hmem (heq ▸ h.isMember_key hi)
    rw [hnone]
    simpa using hmem

/-- **`lookUp` gives the value** of every key in the map. -/
theorem Built.lookUp_eq (h : t.Built H L) (hk : t.toMap L k = some v) : t.lookUp H L k = v := by
  obtain ⟨i, hi, rfl, rfl⟩ := h.distinct.exists_key hk
  exact h.filled.value i hi

theorem Built.not_member (h : t.Built H L) (hmem : t.isMember H k = false) : ∀ i < t.nKeysInOthello, t.keys i ≠ k := by
  rintro i hi rfl
  rw [h.isMember_key hi] at hmem
  cases hmem

/-! ## Changing a value -/

/-- The nodes on the side of one end of an edge, each once. -/
theorem Linked.getHalfTree_spec {E : Set Nat} (h : t.Linked H E) (hs : t.Sized) (hi : i ∈ E)
    (hindex : t.lookUpIndex H (t.keys i) = i) (startFromA prependTheOtherEnd : Bool) :
    ∃ l, t.getHalfTree H (t.keys i) startFromA prependTheOtherEnd =
        .ok ((if prependTheOtherEnd then [if startFromA then (t.ends H i).2 else (t.ends H i).1] else []) ++ l) ∧
      l.Nodup ∧
      ∀ x, x ∈ l ↔ Lib.Conn (t.ends H) (E \ {i}) (if startFromA then (t.ends H i).1 else (t.ends H i).2) x := by
  unfold getHalfTree
  rw [hindex]
  change ∃ l, Lib.treeSearch t.cells _ _ _ [(some i, if startFromA then (t.ends H i).1 else (t.ends H i).2)]
    (if prependTheOtherEnd then
      [if startFromA then (t.ends H i).2 else (t.ends H i).1, if startFromA then (t.ends H i).1 else (t.ends H i).2]
      else [if startFromA then (t.ends H i).1 else (t.ends H i).2]) = _ ∧ _
  generalize hother : (if startFromA then (t.ends H i).2 else (t.ends H i).1) = other
  generalize hstart : (if startFromA then (t.ends H i).1 else (t.ends H i).2) = start
  have hj : Lib.Joins (t.ends H) i start other := by
    rw [← hstart, ← hother]
    cases startFromA with
    | true => exact .inl rfl
    | false => exact .inr rfl
  have hvisits : Lib.Visits (t.ends H) (E \ {i}) start
      (fun D l => ∃ l', l = (if prependTheOtherEnd then [other] else []) ++ l' ∧ l'.Nodup ∧ ∀ x, x ∈ l' ↔ x ∈ D)
      (fun _ _ nextNode result => result ++ [nextNode]) := by
    rintro D _ x e y _ _ _ hy _ _ _ ⟨l', rfl, hnodup, hmem⟩
    refine ⟨l' ++ [y], List.append_assoc .., ?_, fun z => ?_⟩
    · rw [List.nodup_append]
      refine ⟨hnodup, List.nodup_singleton y, ?_⟩
      rintro z hz _ hy' rfl
      rw [List.mem_singleton.mp hy'] at hz
      exact hy ((hmem y).mp hz)
    · rw [List.mem_append, List.mem_singleton, hmem, Finset.mem_insert, or_comm]
  obtain ⟨s, D, hok, ⟨l, rfl, hnodup, hmem⟩, hD⟩ := h.search_half hs hi hj hvisits
    (s := if prependTheOtherEnd then [other, start] else [start])
    ⟨[start], by cases prependTheOtherEnd <;> rfl, List.nodup_singleton start, fun x => by simp⟩
  exact ⟨l, hok, hnodup, fun x => (hmem x).trans (hD x)⟩

/-- The values of the other keys stay. -/
theorem Built.setValue (h : t.Built H L) (hi : i < t.nKeysInOthello) (v : U64) :
    (t.revalue i v).Linked H (Set.Iio t.nKeysInOthello) ∧ (t.revalue i v).Sized ∧
      (t.revalue i v).toMap L = Function.update (t.toMap L) (t.keys i) (some (v &&& lowMask L)) := by
  have hd : (t.revalue i v).Distinct := h.distinct
  refine ⟨⟨h.linked.listsA, h.linked.listsB, h.linked.forest, h.linked.bound⟩,
    ⟨h.sized.ma_pos, h.sized.mb_pos, h.sized.nodes_lt, h.sized.keys_lt⟩, ?_⟩
  funext k
  by_cases hex : ∃ j < t.nKeysInOthello, t.keys j = k
  · obtain ⟨j, hj, rfl⟩ := hex
    refine (hd.toMap_key (L := L) hj).trans ?_
    by_cases hji : j = i
    · subst hji
      rw [Function.update_self]
      exact congrArg (fun x => some (x &&& lowMask L)) (Function.update_self ..)
    · have hne : t.keys j ≠ t.keys i := fun heq => hji (h.distinct hj hi heq)
      rw [Function.update_of_ne hne, h.distinct.toMap_key hj]
      exact congrArg (fun x => some (x &&& lowMask L)) (Function.update_of_ne hji ..)
  · have hnone : ∀ j < t.nKeysInOthello, t.keys j ≠ k := fun j hj heq => hex ⟨j, hj, heq⟩
    rw [Function.update_of_ne (hnone i hi).symm, toMap_eq_none hnone]
    exact toMap_eq_none hnone

/-- The difference is positive, or there is none. -/
theorem toInt_pos_or_zero (hL : L ≤ 60) {c : U64} (hc : c &&& lowMask L = c) : 0 < c.toInt ∨ c = 0 := by
  have hmsb : c.msb = false := by
    rw [BitVec.msb_eq_getLsbD_last, ← hc, and_lowMask_getLsbD (hL.trans (by decide))]
    rw [decide_eq_false (by omega)]
    rfl
  rw [BitVec.toInt_eq_toNat_of_msb hmsb]
  by_cases hzero : c.toNat = 0
  · exact .inr (BitVec.eq_of_toNat_eq hzero)
  · exact .inl (by omega)

/-- The table `t'` has the nodes of `t`, and their cells with `c` added at the nodes `l`. -/
structure Followed (L : Nat) (c : U64) (l : List Nat) (t t' : ControlPlaneOthello) : Prop where
  ma : t'.ma = t.ma
  mb : t'.mb = t.mb
  hab : t'.hab = t.hab
  nodup : l.Nodup
  masked : c &&& lowMask L = c
  cells : Lib.Flipped {x | x ∈ l} c (t.cell L) (t'.cell L)

/-- **The nodes that `getHalfTree` returns** are those that the difference has been added to. -/
theorem Linked.halfTree_followed {c : U64} {m : OthelloMem} {im : Nat → U32} (h : t.Linked H E) (hs : t.Sized) (hL : L ≤ 60)
    (hi : i ∈ E) (hindex : (t.relabel m im).lookUpIndex H (t.keys i) = i)
    (hside : Sided H L E i (t.ends H i).1 c t (t.relabel m im)) :
    ∃ l, (t.relabel m im).getHalfTree H (t.keys i) (decide (0 < c.toInt)) false = .ok l ∧
      Followed L c l t (t.relabel m im) := by
  obtain ⟨l, hok, hnodup, hmem⟩ := (h.relabel : (t.relabel m im).Linked H E).getHalfTree_spec hs.relabel hi hindex
    (decide (0 < c.toInt)) false
  refine ⟨l, hok, rfl, rfl, rfl, hnodup, hside.masked, ?_⟩
  rcases toInt_pos_or_zero hL hside.masked with hpos | rfl
  · have hset : {x | x ∈ l} = {z | Lib.Conn (t.ends H) (E \ {i}) (t.ends H i).1 z} := by
      ext x
      refine (hmem x).trans ?_
      rw [decide_eq_true hpos]
      exact Iff.rfl
    rw [hset]
    exact hside.flipped
  · -- nothing has changed, whichever side it is
    have hsame : ∀ x, (t.relabel m im).cell L x = t.cell L x := by
      intro x
      by_cases hx : x ∈ {z | Lib.Conn (t.ends H) (E \ {i}) (t.ends H i).1 z}
      · rw [hside.flipped.mem x hx]
        exact BitVec.xor_zero
      · exact hside.flipped.notMem x hx
    exact ⟨fun x _ => (hsame x).trans BitVec.xor_zero.symm, fun x _ => hsame x⟩

/-- **A new value of a key**: its edge is fitted again. -/
theorem Built.fixValue (h : t.Built H L) (hL : L ≤ 60) (hi : i < t.nKeysInOthello) (v : U64) :
    ∃ m im c l, (t.revalue i v).fixHalfTreeDFS L true false i (t.ends H i).1 (t.ends H i).2 =
        .ok ((t.revalue i v).relabel m im, c) ∧
      ((t.revalue i v).relabel m im).Built H L ∧
      ((t.revalue i v).relabel m im).toMap L =
        Function.update (t.toMap L) (t.keys i) (some (v &&& lowMask L)) ∧
      ((t.revalue i v).relabel m im).getHalfTree H (t.keys i) (decide (0 < c.toInt)) false =
        .ok l ∧
      Followed L c l t ((t.revalue i v).relabel m im) ∧
      c = (t.values i &&& lowMask L) ^^^ (v &&& lowMask L) := by
  obtain ⟨hlinked, hs, hmap⟩ := h.setValue hi v
  have hsub : Set.Iio t.nKeysInOthello \ {i} ⊆ Set.Iio t.nKeysInOthello := Set.sdiff_subset
  obtain ⟨m, im, c, hok, hfilled, hside, hc⟩ := hlinked.fixHalfTree_fits hs hL hi true false
    (h.filled.value.mono hsub) (h.filled.index.mono hsub)
    (fun j hj => congrArg (· &&& lowMask L) (Function.update_of_ne hj.2 ..)) (fun _ _ => rfl) (fun hfalse => by cases hfalse)
    (fun _ => h.filled.index i hi)
  have hbuilt : ((t.revalue i v).relabel m im).Built H L :=
    ⟨⟨h.sized.ma_pos, h.sized.mb_pos, h.sized.nodes_lt, h.sized.keys_lt⟩, h.size_le,
      ⟨hlinked.listsA, hlinked.listsB, hlinked.forest, hlinked.bound⟩, ⟨h.joined.wf, h.joined.same⟩,
      ⟨hfilled.value, hfilled.index⟩⟩
  obtain ⟨l, hhalf, hfollowed⟩ := hlinked.halfTree_followed hs hL hi (hbuilt.lookUpIndex_key hi) hside
  refine ⟨m, im, c, l, hok, hbuilt, hmap, hhalf,
    ⟨rfl, rfl, rfl, hfollowed.nodup, hfollowed.masked, hfollowed.cells⟩, ?_⟩
  -- the difference of the two values, as the cells had the old one
  have hold : t.cell L (t.ends H i).1 ^^^ t.cell L (t.ends H i).2 = t.values i &&& lowMask L := h.filled.value i hi
  have hself : (t.revalue i v).values i = v := Function.update_self ..
  rw [hself, if_pos rfl] at hc
  rw [hc, ← hold, BitVec.xor_assoc, BitVec.xor_comm (t.cell L (t.ends H i).2)]
  rfl

/-- **`changeValue`** returns for every key of the table, and updates the map at it. -/
theorem Built.changeValue_spec (h : t.Built H L) (hL : L ≤ 60) (hmem : t.isMember H k = true) (v : U64) :
    ∃ r, t.changeValue H L k v = .ok r ∧ r.1.status = 0 ∧ r.2.Built H L ∧ r.2.nKeysInOthello = t.nKeysInOthello ∧
      r.2.toMap L = Function.update (t.toMap L) k (some (v &&& lowMask L)) ∧
      r.2.values = Function.update t.values (t.lookUpIndex H k) v ∧
      Followed L r.1.xorTemplate r.1.cc t r.2 := by
  obtain ⟨hi, hk⟩ := isMember_key_of hmem
  generalize hindex : t.lookUpIndex H k = i at hi hk
  subst hk
  obtain ⟨m, im, c, l, hok, hbuilt, hmap, hhalf, hfollowed, -⟩ := h.fixValue hL hi v
  have hat : t.changeValueAt H L i v = .ok ((t.revalue i v).relabel m im, c) := by
    unfold changeValueAt
    rw [if_neg (not_not.mpr hi)]
    exact hok
  unfold changeValue
  rw [if_neg (by rw [hmem]; simp), hindex, hat]
  -- no half tree is returned when the value stays the same
  by_cases hc : c ≠ 0
  · refine ⟨({ xorTemplate := c, cc := l }, _), ?_, rfl, hbuilt, rfl, hmap, rfl, hfollowed⟩
    change (if c ≠ 0 then _ else _) = _
    rw [if_pos hc]
    change (getHalfTree H _ (t.keys i) (decide (0 < c.toInt)) false >>= _) = _
    rw [hhalf]
    rfl
  · obtain rfl := not_not.mp hc
    have hcells : Lib.Flipped {x | x ∈ ([] : List Nat)} 0 (t.cell L) (((t.revalue i v).relabel m im).cell L) := by
      refine ⟨fun x hx => absurd hx List.not_mem_nil, fun x _ => ?_⟩
      by_cases hx : x ∈ l
      · exact (hfollowed.cells.mem x hx).trans BitVec.xor_zero
      · exact hfollowed.cells.notMem x hx
    refine ⟨({ xorTemplate := 0 }, _), rfl, rfl, hbuilt, rfl, hmap, rfl, rfl, rfl, rfl, List.nodup_nil, hfollowed.masked, hcells⟩

/-- **`toggleInOthello`** returns for every key of the table, and toggles its bit if it is one. -/
theorem Built.toggle_spec (h : t.Built H 1) (hbits : t.AllValues fun w => w = 0 ∨ w = 1) (hk : t.toMap 1 k = some v) :
    ∃ r, t.toggleInOthello H 1 k = .ok r ∧ r.1.status = 0 ∧ r.2.Built H 1 ∧ r.2.nKeysInOthello = t.nKeysInOthello ∧
      r.2.toMap 1 = Function.update (t.toMap 1) k (some (v ^^^ 1)) ∧ (r.2.AllValues fun w => w = 0 ∨ w = 1) ∧
      Followed 1 r.1.xorTemplate r.1.cc t r.2 := by
  obtain ⟨i, hi, rfl, rfl⟩ := h.distinct.exists_key hk
  obtain ⟨m, im, c, l, hok, hbuilt, hmap, hhalf, hfollowed, hc⟩ := h.fixValue (by decide) hi (if t.values i = 0 then 1 else 0)
  -- the two values of a bit differ by one
  have hone : c = 1 ∧ (if t.values i = 0 then 1 else 0) &&& lowMask 1 = (t.values i &&& lowMask 1) ^^^ 1 := by
    rcases hbits i hi with heq | heq
    · rw [hc, heq]
      exact ⟨rfl, rfl⟩
    · rw [hc, heq]
      exact ⟨rfl, rfl⟩
  obtain ⟨rfl, hvalue⟩ := hone
  refine ⟨({ xorTemplate := 1, cc := l }, _), ?_, rfl, hbuilt, rfl, ?_, ?_, hfollowed⟩
  · unfold toggleInOthello
    rw [if_neg (by rw [h.isMember_key hi]; simp), h.lookUpIndex_key hi]
    change (fixHalfTreeDFS 1 true false _ i (t.ends H i).1 (t.ends H i).2 >>= _) = _
    rw [hok]
    change (getHalfTree H _ (t.keys i) (decide (0 < (1 : U64).toInt)) false >>= _) = _
    rw [hhalf]
    rfl
  · rw [hmap, hvalue]
  · refine AllValues.setValue hbits i ?_
    split
    · exact .inr rfl
    · exact .inl rfl

/-! ## Inserting -/

/-- The table with one more key. -/
@[reducible] def appended (t : ControlPlaneOthello) (k v : U64) : ControlPlaneOthello :=
  { t.append k v with nKeysInOthello := t.nKeysInOthello + 1 }

theorem append_keys_of_lt (hi : i < t.nKeysInOthello) : (t.append k v).keys i = t.keys i := Function.update_of_ne hi.ne ..

theorem append_values_of_lt (hi : i < t.nKeysInOthello) : (t.append k v).values i = t.values i :=
  Function.update_of_ne hi.ne ..

/-- A key that was not there is there now. -/
theorem appended_toMap (h : t.Distinct) (hk : ∀ i < t.nKeysInOthello, t.keys i ≠ k) (v : U64) :
    (t.appended k v).Distinct ∧
      (t.appended k v).toMap L = Function.update (t.toMap L) k (some (v &&& lowMask L)) := by
  have hlast : (t.appended k v).keys t.nKeysInOthello = k := Function.update_self ..
  have hold : ∀ i < t.nKeysInOthello, (t.appended k v).keys i = t.keys i := fun i hi => append_keys_of_lt (v := v) hi
  have hcases : ∀ i < (t.appended k v).nKeysInOthello, i < t.nKeysInOthello ∨ i = t.nKeysInOthello :=
    fun i hi => Nat.lt_or_eq_of_le (Nat.le_of_lt_succ hi)
  have hd : (t.appended k v).Distinct := by
    intro i hi j hj heq
    rcases hcases i hi with hi | rfl
    · rcases hcases j hj with hj | rfl
      · rw [hold i hi, hold j hj] at heq
        exact h hi hj heq
      · rw [hold i hi, hlast] at heq
        exact absurd heq (hk i hi)
    · rcases hcases j hj with hj | rfl
      · rw [hlast, hold j hj] at heq
        exact absurd heq.symm (hk j hj)
      · rfl
  refine ⟨hd, ?_⟩
  funext x
  by_cases hex : ∃ i < (t.appended k v).nKeysInOthello, (t.appended k v).keys i = x
  · obtain ⟨i, hi, rfl⟩ := hex
    rw [hd.toMap_key hi]
    rcases hcases i hi with hi | rfl
    · rw [hold i hi, Function.update_of_ne (hk i hi), h.toMap_key hi]
      exact congrArg (fun w => some (w &&& lowMask L)) (append_values_of_lt (k := k) hi)
    · rw [hlast, Function.update_self]
      exact congrArg (fun w => some (w &&& lowMask L)) (Function.update_self ..)
  · have hne : x ≠ k := by
      rintro rfl
      exact hex ⟨t.nKeysInOthello, Nat.lt_succ_self _, hlast⟩
    rw [Function.update_of_ne hne, toMap_eq_none fun i hi heq => hex ⟨i, hi, heq⟩,
      toMap_eq_none fun i hi heq => hex ⟨i, Nat.lt_succ_of_lt hi, (hold i hi).trans heq⟩]

theorem AllValues.appended {P : U64 → Prop} (h : t.AllValues P) (hv : P v) : (t.appended k v).AllValues P := by
  intro i hi
  rcases Nat.lt_or_eq_of_le (Nat.le_of_lt_succ hi) with hi | rfl
  · change P ((t.append k v).values i)
    rw [append_values_of_lt hi]
    exact h i hi
  · change P (Function.update t.values t.nKeysInOthello v t.nKeysInOthello)
    rw [Function.update_self]
    exact hv

theorem SameContent.allValues {P : U64 → Prop} (h : t.SameContent t') (hP : t.AllValues P) : t'.AllValues P := by
  intro i hi
  rw [h.values i (h.size ▸ hi)]
  exact hP i (h.size ▸ hi)

/-- The disjoint set after a question. -/
theorem Built.question (h : t.Built H L) (a b : Nat) (ha : a < t.ma + t.mb) (hb : b < t.ma + t.mb) :
    ∃ res s, t.isConnectedDFS a b = .ok (res, { t with connectivityForest := s }) ∧
      (res = true ↔ Lib.Conn (t.ends H) (Set.Iio t.nKeysInOthello) a b) ∧
      ({ t with connectivityForest := s } : ControlPlaneOthello).Built H L := by
  obtain ⟨res, s, hok, hiff, hwf, hkept⟩ := h.joined.wf.sameSet_spec ha hb (Nat.lt_succ_self _)
  refine ⟨res, s, ?_, hiff.trans (h.joined.same a b), ⟨h.sized.ma_pos, h.sized.mb_pos, h.sized.nodes_lt, h.sized.keys_lt⟩,
    h.size_le, ⟨h.linked.listsA, h.linked.listsB, h.linked.forest, h.linked.bound⟩,
    ⟨hwf, fun x y => (hkept.same h.joined.wf.total).trans (h.joined.same x y)⟩, ⟨h.filled.value, h.filled.index⟩⟩
  unfold isConnectedDFS turns
  rw [hok]
  rfl

theorem Iio_succ (n : Nat) : Set.Iio (n + 1) = Insert.insert n (Set.Iio n) := by
  ext i
  rw [Set.mem_insert_iff, Set.mem_Iio, Set.mem_Iio]
  omega

/-- **An acyclic insertion**: the edge joins two components, and the cells on one side of it are fixed. -/
theorem Built.addKey_spec (h : t.Built H L) (hL : L ≤ 60) (hroom : t.nKeysInOthello < t.keysSize)
    (hnot : ¬ Lib.Conn (t.ends H) (Set.Iio t.nKeysInOthello) (t.getIndices H k).1 (t.getIndices H k).2) :
    ∃ t₁ m im c l, (t.append k v).addEdge t.nKeysInOthello (t.getIndices H k).1 (t.getIndices H k).2 = .ok t₁ ∧
      t₁.fixHalfTreeDFS L true true t.nKeysInOthello (t.getIndices H k).1 (t.getIndices H k).2 = .ok (t₁.relabel m im, c) ∧
      t₁.nKeysInOthello = t.nKeysInOthello ∧
      ({ t₁.relabel m im with nKeysInOthello := t.nKeysInOthello + 1 } : ControlPlaneOthello).Built H L ∧
      (t.appended k v).SameContent { t₁.relabel m im with nKeysInOthello := t.nKeysInOthello + 1 } ∧
      getHalfTree H { t₁.relabel m im with nKeysInOthello := t.nKeysInOthello + 1 } k (decide (0 < c.toInt)) false = .ok l ∧
      Followed L c l t { t₁.relabel m im with nKeysInOthello := t.nKeysInOthello + 1 } := by
  have hlt : ∀ i ∈ Set.Iio t.nKeysInOthello, i < t.keysSize := fun i hi => (Set.mem_Iio.mp hi).trans hroom
  have hends : ∀ i ∈ Set.Iio t.nKeysInOthello, (t.append k v).ends H i = t.ends H i := by
    intro i hi
    unfold ends
    rw [append_keys_of_lt hi]
    rfl
  have hkey : (t.append k v).keys t.nKeysInOthello = k := Function.update_self ..
  have hlast : (t.append k v).ends H t.nKeysInOthello = t.getIndices H k := by
    unfold ends
    rw [hkey]
    rfl
  have hs : (t.append k v).Sized := ⟨h.sized.ma_pos, h.sized.mb_pos, h.sized.nodes_lt, h.sized.keys_lt⟩
  have hlinked : (t.append k v).Linked H (Set.Iio t.nKeysInOthello) :=
    h.linked.transport rfl rfl (fun _ _ => rfl) (fun _ _ => rfl) hends hlt
  have hjoined : (t.append k v).Joined H (Set.Iio t.nKeysInOthello) := h.joined.transport rfl rfl rfl hends
  have hfilled : (t.append k v).Filled H L (Set.Iio t.nKeysInOthello) :=
    h.filled.transport rfl rfl hends fun i hi => append_values_of_lt hi
  -- the new key is no edge yet, so the old ones connect what they did
  have hnot' : ¬ Lib.Conn ((t.append k v).ends H) (Set.Iio t.nKeysInOthello) ((t.append k v).ends H t.nKeysInOthello).1
      ((t.append k v).ends H t.nKeysInOthello).2 := by
    rw [hlast, conn_congr hends]
    exact hnot
  obtain ⟨head, nextA, nextB, s, hadd, hlinked₁, hjoined₁, -, -⟩ :=
    hlinked.addEdge_spec hs hjoined (lt_irrefl t.nKeysInOthello) hroom hnot'
  have hs₁ : ((t.append k v).relink head nextA nextB s).Sized := ⟨hs.ma_pos, hs.mb_pos, hs.nodes_lt, hs.keys_lt⟩
  have hsub : Insert.insert t.nKeysInOthello (Set.Iio t.nKeysInOthello) \ {t.nKeysInOthello} ⊆ Set.Iio t.nKeysInOthello := by
    rintro i ⟨hi, hne⟩
    exact (Set.mem_insert_iff.mp hi).resolve_left hne
  have hmem : t.nKeysInOthello ∈ Insert.insert t.nKeysInOthello (Set.Iio t.nKeysInOthello) := Set.mem_insert _ _
  -- both cells of the new edge are fixed: its value and its index
  obtain ⟨m, im, c, hfix, hfilled₁, hside, -⟩ := hlinked₁.fixHalfTree_fits hs₁ hL hmem true true
    (hfilled.value.mono hsub) (hfilled.index.mono hsub) (fun _ _ => rfl) (fun _ _ => rfl) (fun hfalse => by cases hfalse)
    (fun hfalse => by cases hfalse)
  have hbuilt : ({ (t.append k v).relink head nextA nextB s |>.relabel m im with
      nKeysInOthello := t.nKeysInOthello + 1 } : ControlPlaneOthello).Built H L := by
    refine ⟨⟨hs.ma_pos, hs.mb_pos, hs.nodes_lt, hs.keys_lt⟩, hroom, ?_, ?_, ?_⟩
    · change Linked H _ (Set.Iio (t.nKeysInOthello + 1))
      rw [Iio_succ]
      exact ⟨hlinked₁.listsA, hlinked₁.listsB, hlinked₁.forest, hlinked₁.bound⟩
    · change Joined H _ (Set.Iio (t.nKeysInOthello + 1))
      rw [Iio_succ]
      exact ⟨hjoined₁.wf, hjoined₁.same⟩
    · change Filled H L _ (Set.Iio (t.nKeysInOthello + 1))
      rw [Iio_succ]
      exact ⟨hfilled₁.value, hfilled₁.index⟩
  have hindex := hbuilt.lookUpIndex_key (Nat.lt_succ_self t.nKeysInOthello)
  obtain ⟨l, hhalf, hfollowed⟩ := hlinked₁.halfTree_followed hs₁ hL hmem hindex hside
  rw [hlast] at hadd
  have hfix' : ((t.append k v).relink head nextA nextB s).fixHalfTreeDFS L true true t.nKeysInOthello (t.getIndices H k).1
      (t.getIndices H k).2 = .ok (((t.append k v).relink head nextA nextB s).relabel m im, c) := by
    rw [← hlast]
    exact hfix
  have hhalf' : getHalfTree H { (t.append k v).relink head nextA nextB s |>.relabel m im with
      nKeysInOthello := t.nKeysInOthello + 1 } k (decide (0 < c.toInt)) false = .ok l := by
    rw [← hkey]
    exact hhalf
  exact ⟨_, m, im, c, l, hadd, hfix', rfl, hbuilt, ⟨rfl, fun _ _ => rfl, fun _ _ => rfl⟩, hhalf',
    ⟨rfl, rfl, rfl, hfollowed.nodup, hfollowed.masked, hfollowed.cells⟩⟩

/-- The table takes the key as it is: the key is there, or it is an edge between two components and there is room. -/
def Takes (H : HashFn) (t : ControlPlaneOthello) (k : U64) : Prop :=
  t.isMember H k = true ∨ (t.nKeysInOthello < t.keysSize ∧ t.nKeysInOthello < t.mb ∧
    ¬ Lib.Conn (t.ends H) (Set.Iio t.nKeysInOthello) (t.getIndices H k).1 (t.getIndices H k).2)

/-- What an insertion leaves: the map with the key, or the map as it was where a rebuild was needed and not allowed. Where
    nothing has been rebuilt the data plane can follow. -/
structure Inserted (H : HashFn) (L : Nat) (k v : U64) (t : ControlPlaneOthello)
    (r : OthelloUpdateResult × ControlPlaneOthello × Nat) : Prop where
  built : r.2.1.Built H L
  toMap : 0 ≤ r.1.status → r.2.1.toMap L = Function.update (t.toMap L) k (some (v &&& lowMask L))
  unchanged : r.1.status < 0 → r.2.1.toMap L = t.toMap L ∧ t.toMap L k = none
  values : ∀ P : U64 → Prop, t.AllValues P → P v → r.2.1.AllValues P
  followed : r.1.status ≤ 0 → Followed L r.1.xorTemplate r.1.cc t r.2.1

theorem Followed.refl (L : Nat) (t : ControlPlaneOthello) : Followed L 0 [] t t :=
  ⟨rfl, rfl, rfl, List.nodup_nil, BitVec.zero_and, ⟨fun _ hx => absurd hx List.not_mem_nil, fun _ _ => rfl⟩⟩

/-- Nothing but the disjoint set has changed. -/
theorem Inserted.of_refused (h : t.Built H L) {status : Int} (hneg : status < 0) (hk : t.toMap L k = none) (v : U64) (n : Nat) :
    Inserted H L k v t ({ status := status }, t, n) where
  built := h
  toMap := fun hnonneg => absurd hnonneg (not_le.mpr hneg)
  unchanged := fun _ => ⟨rfl, hk⟩
  values := fun _ hP _ => hP
  followed := fun _ => .refl L t

/-- **A key that the table takes** is inserted without a rebuild. -/
theorem Built.insert_taken (h : t.Built H L) (hL : L ≤ 60) (htakes : t.Takes H k) (rand : Nat → U64) (v : U64)
    (depth n : Nat) (doNotRebuild : Bool) :
    ∃ r, insert H L rand (depth + 1) t n k v doNotRebuild = .ok r ∧ Inserted H L k v t r ∧ r.1.status = 0 := by
  by_cases hmem : t.isMember H k = true
  · obtain ⟨r, hok, hstatus, hbuilt, hsize, hmap, hvalues, hfollowed⟩ := h.changeValue_spec hL hmem v
    refine ⟨(r.1, r.2, n), ?_, ⟨hbuilt, fun _ => hmap, fun hneg => ?_, fun P hP hv => ?_, fun _ => hfollowed⟩, hstatus⟩
    · rw [insert, if_pos hmem, hok]
      rfl
    · rw [hstatus] at hneg
      exact absurd hneg (by decide)
    · have hrev : (t.revalue (t.lookUpIndex H k) v).AllValues P := hP.setValue _ hv
      intro i hi
      rw [hvalues]
      exact hrev i (hsize ▸ hi)
  · obtain ⟨hroom, hmb, hnot⟩ := htakes.resolve_left hmem
    have hnew := h.not_member (by simpa using hmem : t.isMember H k = false)
    have ha := t.getIndices_fst_lt H k h.sized.ma_pos
    have hb := t.getIndices_snd H k h.sized.mb_pos
    obtain ⟨res, s, hquestion, hconn, hbuilt₁⟩ := h.question _ _ (Nat.lt_add_right _ ha) hb.2
    -- the key is taken, so the question whether it closes a cycle is answered with no
    obtain rfl : res = false := by
      cases res with
      | true => exact absurd (hconn.mp rfl) hnot
      | false => rfl
    obtain ⟨t₁, m, im, c, l, hadd, hfix, hn, hbuilt, hsame, hhalf, hfollowed⟩ := hbuilt₁.addKey_spec (v := v) hL hroom hnot
    obtain ⟨hdistinct, hmap⟩ := appended_toMap (L := L) h.distinct hnew v
    have hcontent : (t.appended k v).SameContent { t₁.relabel m im with nKeysInOthello := t.nKeysInOthello + 1 } :=
      ⟨hsame.size, hsame.keys, hsame.values⟩
    refine ⟨({ xorTemplate := c, cc := l }, _, n), ?_, ⟨hbuilt, fun _ => ?_, fun hneg => absurd hneg (lt_irrefl 0),
      fun P hP hv => hcontent.allValues (hP.appended hv), fun _ => ⟨hfollowed.ma, hfollowed.mb, hfollowed.hab,
        hfollowed.nodup, hfollowed.masked, hfollowed.cells⟩⟩, rfl⟩
    · rw [insert, if_neg hmem, if_neg (by omega)]
      dsimp only
      rw [hquestion]
      change (addEdge _ _ _ _ >>= _) = _
      rw [hadd]
      change (fixHalfTreeDFS L true true t₁ t₁.nKeysInOthello _ _ >>= _) = _
      rw [hn, hfix]
      change (getHalfTree H { t₁.relabel m im with nKeysInOthello := t₁.nKeysInOthello + 1 } k _ false >>= _) = _
      rw [hn, hhalf]
      rfl
    · rw [hcontent.toMap_eq hdistinct hbuilt.distinct]
      exact hmap

/-- **A key that the table does not take** is refused where no rebuild is allowed. -/
theorem Built.insert_refused (h : t.Built H L) (hnot : ¬ t.Takes H k) (rand : Nat → U64) (v : U64) (depth n : Nat) :
    ∃ r, insert H L rand (depth + 1) t n k v true = .ok r ∧ Inserted H L k v t r ∧ r.1.status < 0 := by
  have hmem : ¬ t.isMember H k = true := fun hmem => hnot (.inl hmem)
  have hnone := toMap_eq_none (L := L) (h.not_member (by simpa using hmem : t.isMember H k = false))
  by_cases hfull : t.keysSize ≤ t.nKeysInOthello ∨ t.mb ≤ t.nKeysInOthello
  · refine ⟨({ status := -2 }, t, n), ?_, .of_refused h (by decide) hnone v n, Int.negSucc_lt_zero 1⟩
    rw [insert, if_neg hmem, if_pos hfull]
    rfl
  · have ha := t.getIndices_fst_lt H k h.sized.ma_pos
    have hb := t.getIndices_snd H k h.sized.mb_pos
    obtain ⟨res, s, hquestion, hconn, hbuilt₁⟩ := h.question _ _ (Nat.lt_add_right _ ha) hb.2
    -- there is room, so the key was refused for its cycle
    obtain rfl : res = true := by
      by_contra hres
      refine hnot (.inr ⟨by omega, by omega, fun hc => hres (hconn.mpr hc)⟩)
    refine ⟨({ status := -1 }, { t with connectivityForest := s }, n), ?_, ?_, Int.negSucc_lt_zero 0⟩
    · rw [insert, if_neg hmem, if_neg hfull]
      dsimp only
      rw [hquestion]
      rfl
    · have hins := Inserted.of_refused hbuilt₁ (show (-1 : Int) < 0 by decide) hnone v n
      exact ⟨hins.built, hins.toMap, hins.unchanged, hins.values,
        fun hle => ⟨rfl, rfl, rfl, List.nodup_nil, BitVec.zero_and, (hins.followed hle).cells⟩⟩

/-- **`insert`** leaves a table that is built, with the key in its map. -/
theorem Built.insert_spec (hL : L ≤ 60) : ∀ {depth : Nat} {t : ControlPlaneOthello} {n : Nat} {doNotRebuild : Bool},
    t.Built H L → Lib.Returns (fun r => Inserted H L k v t r ∧ (doNotRebuild = false → 0 ≤ r.1.status))
      (insert H L rand depth t n k v doNotRebuild) := by
  intro depth
  induction depth with
  | zero => exact fun _ => Lib.Returns.error _
  | succ depth ih =>
      intro t n doNotRebuild h
      by_cases htakes : t.Takes H k
      · obtain ⟨r, hok, hins, hstatus⟩ := h.insert_taken hL htakes rand v depth n doNotRebuild
        rw [hok]
        exact Lib.Returns.ok ⟨hins, fun _ => hstatus.ge⟩
      cases doNotRebuild with
      | true =>
          obtain ⟨r, hok, hins, -⟩ := h.insert_refused htakes rand v depth n
          rw [hok]
          exact Lib.Returns.ok ⟨hins, fun hfalse => by cases hfalse⟩
      | false =>
          have hmem : ¬ t.isMember H k = true := fun hmem => htakes (.inl hmem)
          have hnew := h.not_member (by simpa using hmem : t.isMember H k = false)
          rw [insert, if_neg hmem]
          by_cases hfull : t.keysSize ≤ t.nKeysInOthello ∨ t.mb ≤ t.nKeysInOthello
          · -- enlarged and rebuilt, then inserted
            rw [if_pos hfull]
            have hsound : t.Sound H L true := ⟨h.size_le, h.sized.keys_lt, .inr ⟨h.sized, .inl rfl⟩⟩
            refine (hsound.resizeCapacity_spec hL).bind ?_
            rintro e ⟨hbuilt, hsame⟩
            refine (ih hbuilt).bind ?_
            rintro r ⟨hins, hstatus⟩
            rw [if_neg (not_lt.mpr (hstatus rfl))]
            refine Lib.Returns.ok ⟨⟨hins.built, fun _ => ?_, fun hneg => absurd hneg (not_lt.mpr (by decide : (0 : Int) ≤ 2)),
              fun P hP hv => hins.values P (hsame.allValues hP) hv, fun hle => absurd hle (not_le.mpr (by decide : (0 : Int) < 2))⟩,
              fun _ => (by decide : (0 : Int) ≤ 2)⟩
            rw [← hsame.toMap_eq h.distinct hbuilt.distinct]
            exact hins.toMap (hstatus rfl)
          · -- appended and rebuilt
            rw [if_neg hfull]
            have ha := t.getIndices_fst_lt H k h.sized.ma_pos
            have hb := t.getIndices_snd H k h.sized.mb_pos
            obtain ⟨res, s, hquestion, hconn, -⟩ := h.question _ _ (Nat.lt_add_right _ ha) hb.2
            obtain rfl : res = true := by
              by_contra hres
              refine htakes (.inr ⟨by omega, by omega, fun hc => hres (hconn.mpr hc)⟩)
            dsimp only
            rw [hquestion]
            have hready : (appended { t with connectivityForest := s } k v).Ready :=
              ⟨⟨h.sized.ma_pos, h.sized.mb_pos, h.sized.nodes_lt, h.sized.keys_lt⟩, not_le.mp fun hle => hfull (.inl hle)⟩
            obtain ⟨hdistinct, hmap⟩ := appended_toMap (L := L) h.distinct hnew v
            refine (hready.build_spec hL).bind ?_
            rintro b ⟨hbuilt, hsame⟩
            have hcontent : (t.appended k v).SameContent b.1 := ⟨hsame.size, hsame.keys, hsame.values⟩
            refine Lib.Returns.ok ⟨⟨hbuilt, fun _ => ?_, fun hneg => absurd hneg (not_lt.mpr (by decide : (0 : Int) ≤ 1)),
              fun P hP hv => hcontent.allValues (hP.appended hv), fun hle => absurd hle (not_le.mpr (by decide : (0 : Int) < 1))⟩,
              fun _ => (by decide : (0 : Int) ≤ 1)⟩
            rw [hcontent.toMap_eq hdistinct hbuilt.distinct]
            exact hmap

end ControlPlaneOthello

end Outback
