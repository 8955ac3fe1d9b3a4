import Outback.Othello.Correctness.Update

/-!
# `Othello.Correctness.Remove` — taking a key out of an Othello

`remove` unlinks the edge of the key, gives the index of the key to the last one, and points the nodes of the two components
that the edge had held together at two roots. The table is built again, with the map without the key and with the cells
that it had (`Built.remove_spec`), so the data plane has nothing to follow.
-/

namespace Outback

namespace ControlPlaneOthello

variable {H : HashFn} {L : Nat} {t t' : ControlPlaneOthello} {E : Set Nat} {i j last root x y z : Nat} {k v : U64}

/-! ## The lists -/

/-- **An edge is taken out** of the lists of its two nodes. -/
theorem Linked.redirect_out (h : t.Linked H E) (hs : t.Sized) (hi : i ∈ E) :
    ∃ head nextA nextB,
      t.redirectBoth i (t.ends H i).1 (t.ends H i).2 (t.nextAtA i) (t.nextAtB i) =
        .ok (t.relink head nextA nextB t.connectivityForest) ∧
      (t.relink head nextA nextB t.connectivityForest).Linked H (E \ {i}) := by
  have ha := hs.fst_lt (H := H) i
  have hb := hs.le_snd (H := H) i
  have hne : (t.ends H i).2 ≠ (t.ends H i).1 := by omega
  have hV : ∀ j ∈ E, j ∈ Finset.range t.keysSize := fun j hj => Finset.mem_range.mpr (h.bound j hj)
  have hfuel : (Finset.range t.keysSize).card ≤ t.keysSize + 1 := by
    rw [Finset.card_range]
    exact Nat.le_succ _
  obtain ⟨da, hda, hA, -⟩ := h.listsA.unlink LudoFault.othello hi ha hV hfuel
  obtain ⟨db, hdb, hB, -⟩ := h.listsB.unlink LudoFault.othello hi hb hV hfuel
  refine ⟨Function.update (Function.update t.head (t.ends H i).1 da.1) (t.ends H i).2 db.1, da.2, db.2, ?_, ⟨?_, ?_, ?_, ?_⟩⟩
  · unfold redirectBoth
    rw [hda]
    change (Lib.redirect t.nextAtB i LudoFault.othello (t.keysSize + 1)
      (Function.update t.head (t.ends H i).1 da.1 (t.ends H i).2) (t.nextAtB i) >>= _) = _
    rw [Function.update_of_ne hne, hdb]
    rfl
  · refine hA.congr (fun x hx => ?_) (fun _ _ => rfl) (fun _ _ => rfl) fun _ _ => rfl
    refine Function.update_of_ne ?_ ..
    rintro rfl
    exact absurd hx (Nat.not_lt.mpr hb)
  · refine hB.congr (fun x hx => ?_) (fun _ _ => rfl) (fun _ _ => rfl) fun _ _ => rfl
    rw [Function.update_comm hne.symm]
    refine Function.update_of_ne ?_ ..
    rintro rfl
    exact absurd hx (Nat.not_le.mpr ha)
  · exact h.forest.mono Set.sdiff_subset
  · exact fun j hj => h.bound j hj.1

/-- The key at index `last` also at index `i`. -/
@[reducible] def copied (t : ControlPlaneOthello) (i last : Nat) : ControlPlaneOthello :=
  { t with keys := Function.update t.keys i (t.keys last), values := Function.update t.values i (t.values last) }

/-- Where a key of the table after the removal was before it. -/
def origin (i last j : Nat) : Nat := if j = i then last else j

theorem copied_keys (t : ControlPlaneOthello) (i last j : Nat) : (t.copied i last).keys j = t.keys (origin i last j) := by
  unfold origin
  split
  · rename_i hj
    subst hj
    exact Function.update_self ..
  · rename_i hj
    exact Function.update_of_ne hj ..

theorem copied_values (t : ControlPlaneOthello) (i last j : Nat) :
    (t.copied i last).values j = t.values (origin i last j) := by
  unfold origin
  split
  · rename_i hj
    subst hj
    exact Function.update_self ..
  · rename_i hj
    exact Function.update_of_ne hj ..

theorem copied_ends (t : ControlPlaneOthello) (i last j : Nat) : (t.copied i last).ends H j = t.ends H (origin i last j) := by
  unfold ends
  rw [copied_keys]

theorem origin_of_ne (h : j ≠ i) : origin i last j = j := if_neg h

theorem origin_self : origin i last i = last := if_pos rfl

theorem origin_injOn : Set.InjOn (origin i last) (Insert.insert i (E \ {last})) := by
  intro x hx y hy heq
  by_cases hxi : x = i
  · by_cases hyi : y = i
    · exact hxi.trans hyi.symm
    · rw [hxi, origin_self, origin_of_ne hyi] at heq
      exact absurd heq.symm ((Set.mem_insert_iff.mp hy).resolve_left hyi).2
  · by_cases hyi : y = i
    · rw [hyi, origin_self, origin_of_ne hxi] at heq
      exact absurd heq ((Set.mem_insert_iff.mp hx).resolve_left hxi).2
    · rwa [origin_of_ne hxi, origin_of_ne hyi] at heq

theorem origin_mem (hlast : last ∈ E) (hj : j ∈ Insert.insert i (E \ {last})) : origin i last j ∈ E := by
  by_cases hji : j = i
  · rw [hji, origin_self]
    exact hlast
  · rw [origin_of_ne hji]
    exact ((Set.mem_insert_iff.mp hj).resolve_left hji).1

/-- **The last edge gets the index `i`** in the lists of its two nodes. -/
theorem Linked.redirect_moved (h : t.Linked H E) (hs : t.Sized) (hlast : last ∈ E) (hi : i ∉ E) (hsize : i < t.keysSize) :
    ∃ head nextA nextB,
      redirectBoth { t.copied i last with
          nextAtA := Function.update t.nextAtA i (t.nextAtA last)
          nextAtB := Function.update t.nextAtB i (t.nextAtB last) } last (t.ends H last).1 (t.ends H last).2
        (some (i, (t.ends H last).2)) (some (i, (t.ends H last).1)) =
        .ok ((t.copied i last).relink head nextA nextB t.connectivityForest) ∧
      ((t.copied i last).relink head nextA nextB t.connectivityForest).Linked H (Insert.insert i (E \ {last})) := by
  have ha := hs.fst_lt (H := H) last
  have hb := hs.le_snd (H := H) last
  have hne : (t.ends H last).2 ≠ (t.ends H last).1 := by omega
  have hV : ∀ j ∈ E, j ∈ Finset.range t.keysSize := fun j hj => Finset.mem_range.mpr (h.bound j hj)
  have hfuel : (Finset.range t.keysSize).card ≤ t.keysSize + 1 := by
    rw [Finset.card_range]
    exact Nat.le_succ _
  have hself : (t.copied i last).ends H i = t.ends H last := by rw [copied_ends, origin_self]
  have hothers : ∀ j ∈ E, (t.copied i last).ends H j = t.ends H j := by
    intro j hj
    rw [copied_ends, origin_of_ne]
    rintro rfl
    exact hi hj
  -- in the lists of both nodes `i` comes to stand where `last` stood
  obtain ⟨da, hda, hA⟩ := h.listsA.rename LudoFault.othello (fun j => ((t.copied i last).ends H j).1)
    (fun j => ((t.copied i last).ends H j).2) hlast hi ha hV hfuel (congrArg Prod.fst hself)
    (congrArg Prod.snd hself) fun j hj => ⟨congrArg Prod.fst (hothers j hj), congrArg Prod.snd (hothers j hj)⟩
  obtain ⟨db, hdb, hB⟩ := h.listsB.rename LudoFault.othello (fun j => ((t.copied i last).ends H j).2)
    (fun j => ((t.copied i last).ends H j).1) hlast hi hb hV hfuel (congrArg Prod.snd hself)
    (congrArg Prod.fst hself) fun j hj => ⟨congrArg Prod.snd (hothers j hj), congrArg Prod.fst (hothers j hj)⟩
  refine ⟨Function.update (Function.update t.head (t.ends H last).1 da.1) (t.ends H last).2 db.1, da.2, db.2, ?_,
    ⟨?_, ?_, ?_, ?_⟩⟩
  · unfold redirectBoth
    dsimp only
    rw [hda]
    change (Lib.redirect (Function.update t.nextAtB i (t.nextAtB last)) last LudoFault.othello (t.keysSize + 1)
      (Function.update t.head (t.ends H last).1 da.1 (t.ends H last).2) (some (i, (t.ends H last).1)) >>= _) = _
    rw [Function.update_of_ne hne, hdb]
    rfl
  · refine hA.congr (fun x hx => ?_) (fun _ _ => rfl) (fun _ _ => rfl) fun _ _ => rfl
    refine Function.update_of_ne ?_ ..
    rintro rfl
    exact absurd hx (Nat.not_lt.mpr hb)
  · refine hB.congr (fun x hx => ?_) (fun _ _ => rfl) (fun _ _ => rfl) fun _ _ => rfl
    change Function.update (Function.update t.head (t.ends H last).1 da.1) (t.ends H last).2 db.1 x = _
    rw [Function.update_comm hne.symm]
    refine Function.update_of_ne ?_ ..
    rintro rfl
    exact absurd hx (Nat.not_le.mpr ha)
  · exact h.forest.reindex (origin i last) (fun j hj => origin_mem hlast hj) origin_injOn
      fun j _ => (copied_ends t i last j).symm
  · intro j hj
    rcases Set.mem_insert_iff.mp hj with rfl | hj
    · exact hsize
    · exact h.bound j hj.1

/-- **`moveLast`** keeps the lists and the cells of the nodes, for the index `i` instead of `last`. -/
theorem Linked.moveLast_spec (h : t.Linked H E) (hs : t.Sized) (hL : L ≤ 60) (hf : t.Filled H L E) (hlast : last ∈ E)
    (hi : i ∉ E) (hsize : i < t.keysSize) :
    ∃ head nextA nextB m im,
      t.moveLast H L i last = .ok ((t.copied i last).relink head nextA nextB t.connectivityForest |>.relabel m im) ∧
      ((t.copied i last).relink head nextA nextB t.connectivityForest).Linked H (Insert.insert i (E \ {last})) ∧
      ((t.copied i last).relink head nextA nextB t.connectivityForest |>.relabel m im).Filled H L
        (Insert.insert i (E \ {last})) ∧
      ∀ x, memGet L 0 m x = t.cell L x := by
  obtain ⟨head, nextA, nextB, hok, hlinked⟩ := h.redirect_moved hs hlast hi hsize
  have hs₁ : ((t.copied i last).relink head nextA nextB t.connectivityForest).Sized :=
    ⟨hs.ma_pos, hs.mb_pos, hs.nodes_lt, hs.keys_lt⟩
  have hends : ∀ j, ((t.copied i last).relink head nextA nextB t.connectivityForest).ends H j = t.ends H (origin i last j) :=
    copied_ends t i last
  have hself : ((t.copied i last).relink head nextA nextB t.connectivityForest).ends H i = t.ends H last := by
    rw [hends, origin_self]
  have hmem : i ∈ Insert.insert i (E \ {last}) := Set.mem_insert _ _
  have hold : ∀ j ∈ Insert.insert i (E \ {last}) \ {i}, j ∈ E ∧ origin i last j = j :=
    fun j hj => ⟨((Set.mem_insert_iff.mp hj.1).resolve_left hj.2).1, origin_of_ne hj.2⟩
  have hval : Lib.Fits (((t.copied i last).relink head nextA nextB t.connectivityForest).ends H)
      (Insert.insert i (E \ {last}) \ {i}) (t.cell L) (fun j => t.values j &&& lowMask L) := by
    intro j hj
    obtain ⟨hjE, hj⟩ := hold j hj
    rw [hends, hj]
    exact hf.value j hjE
  have hidx : Lib.Fits (((t.copied i last).relink head nextA nextB t.connectivityForest).ends H)
      (Insert.insert i (E \ {last}) \ {i}) t.indMem (fun j => BitVec.ofNat 32 j) := by
    intro j hj
    obtain ⟨hjE, hj⟩ := hold j hj
    rw [hends, hj]
    exact hf.index j hjE
  -- the cells already fit the value, only the index of the moved key is written
  have hkeep : t.cell L (t.ends H last).1 ^^^ t.cell L (t.ends H last).2 = (t.copied i last).values i &&& lowMask L := by
    rw [copied_values, origin_self]
    exact hf.value last hlast
  obtain ⟨m, im, c, hfix, hfilled, hside, hc⟩ := hlinked.fixHalfTree_fits hs₁ hL hmem false true hval hidx
    (fun j hj => congrArg (· &&& lowMask L) ((copied_values t i last j).trans (by rw [(hold j hj).2]))) (fun _ _ => rfl)
    (fun _ => by rw [hself]; exact hkeep) (fun hfalse => by cases hfalse)
  refine ⟨head, nextA, nextB, m, im, ?_, hlinked, hfilled, fun x => ?_⟩
  · have hkey : Function.update t.keys i (t.keys last) last = t.keys last :=
      Function.update_of_ne (fun heq : last = i => hi (heq ▸ hlast)) ..
    rw [hself] at hfix
    unfold moveLast
    dsimp only
    rw [hkey]
    change (redirectBoth _ last (t.ends H last).1 (t.ends H last).2 (some (i, (t.ends H last).2))
      (some (i, (t.ends H last).1)) >>= _) = _
    rw [hok]
    change (fixHalfTreeDFS L false true _ i (t.ends H last).1 (t.ends H last).2 >>= _) = _
    rw [hfix]
    rfl
  -- the difference that is added on one side is zero
  · by_cases hx : Lib.Conn (((t.copied i last).relink head nextA nextB t.connectivityForest).ends H)
      (Insert.insert i (E \ {last}) \ {i}) (((t.copied i last).relink head nextA nextB t.connectivityForest).ends H i).1 x
    · refine (hside.flipped.mem x hx).trans ?_
      rw [hc]
      exact BitVec.xor_zero
    · exact hside.flipped.notMem x hx

/-! ## The components -/

/-- **`connectDFS`** points every node of one tree at one of them, and no other node. -/
theorem Linked.connectDFS_spec (h : t.Linked H E) (hs : t.Sized) (hx : x < t.ma + t.mb) :
    ∃ r s, t.connectDFS x = .ok { t with connectivityForest := s } ∧ Lib.Conn (t.ends H) E x r ∧
      (∀ z, Lib.Conn (t.ends H) E x z → s z = some r) ∧
      ∀ z, ¬ Lib.Conn (t.ends H) E x z → s z = t.connectivityForest z := by
  obtain ⟨l, hl, -, hmem⟩ := h.list_at hs x
  unfold connectDFS
  cases hhead : t.head x with
  | none =>
      -- no edge at `x`
      have hnil : l = [] := by
        cases l with
        | nil => rfl
        | cons p l => cases hhead.symm.trans hl.1
      have hnone : ∀ e ∈ E, ∀ y, ¬ Lib.Joins (t.ends H) e x y := by
        intro e he y hj
        have hin := (hmem e y).mpr ⟨he, hj⟩
        rw [hnil] at hin
        exact List.not_mem_nil hin
      have hself : ∀ z, Lib.Conn (t.ends H) E x z ↔ z = x := by
        intro z
        constructor
        · intro hc
          refine hc.closed (D := {u | u = x}) ?_ rfl
          rintro e he u v hj rfl
          exact absurd hj (hnone e he v)
        · rintro rfl
          exact .refl z
      refine ⟨x, _, rfl, .refl x, fun z hz => ?_, fun z hz => ?_⟩
      · rw [(hself z).mp hz]
        exact Function.update_self ..
      · exact Function.update_of_ne (fun heq => hz ((hself z).mpr heq)) ..
  | some cell =>
      dsimp only
      -- behind the first node of B a neighbour becomes the root
      generalize hroot : (if t.ma < x then cell.2 else x) = root
      have hcell : cell.1 ∈ E ∧ Lib.Joins (t.ends H) cell.1 x cell.2 := by
        refine (hmem cell.1 cell.2).mp ?_
        cases l with
        | nil => cases hhead.symm.trans hl
        | cons p l =>
            obtain rfl := Option.some.inj (hhead.symm.trans hl.1)
            exact List.mem_cons_self
      have hconn : Lib.Conn (t.ends H) E x root := by
        rw [← hroot]
        split
        · exact .edge hcell.1 hcell.2
        · exact .refl x
      have hvisits : Lib.Visits (t.ends H) E root
          (fun D s => (∀ z ∈ D, s z = some root) ∧ ∀ z ∉ D, s z = t.connectivityForest z)
          (fun _ _ nextNode s => DisjointSet.set s nextNode root) := by
        rintro D s u e y _ _ _ hy _ _ _ ⟨hin, hout⟩
        refine ⟨fun z hz => ?_, fun z hz => ?_⟩
        · rcases Finset.mem_insert.mp hz with rfl | hz
          · exact Function.update_self ..
          · exact (Function.update_of_ne (fun heq : z = y => hy (heq ▸ hz)) ..).trans (hin z hz)
        · rw [Finset.mem_insert, not_or] at hz
          exact (Function.update_of_ne hz.1 ..).trans (hout z hz.2)
      obtain ⟨s, D, hok, ⟨hin, hout⟩, hD⟩ := h.search_all hs (hs.conn_lt hx hconn) hvisits
        (s := t.connectivityForest.set root root) ⟨fun z hz => by
          rw [Finset.mem_singleton.mp hz]
          exact Function.update_self .., fun z hz => Function.update_of_ne (fun heq => hz (Finset.mem_singleton.mpr heq)) ..⟩
      have hiff : ∀ z, z ∈ D ↔ Lib.Conn (t.ends H) E x z := fun z =>
        (hD z).trans ⟨hconn.trans, hconn.symm.trans⟩
      refine ⟨root, s, ?_, hconn, fun z hz => hin z ((hiff z).mpr hz), fun z hz => hout z fun hzD => hz ((hiff z).mp hzD)⟩
      rw [hok]
      rfl

/-! ## Removing a key -/

/-- The table without the edge `i`, whose index the last key has now. The disjoint set is still that of all edges. -/
structure Unlinked (H : HashFn) (L i : Nat) (t t' : ControlPlaneOthello) : Prop where
  ma : t'.ma = t.ma
  mb : t'.mb = t.mb
  hab : t'.hab = t.hab
  keysSize : t'.keysSize = t.keysSize
  forest : t'.connectivityForest = t.connectivityForest
  size : t'.nKeysInOthello = t.nKeysInOthello - 1
  linked : t'.Linked H (Set.Iio (t.nKeysInOthello - 1))
  filled : t'.Filled H L (Set.Iio (t.nKeysInOthello - 1))
  keys : ∀ j < t.nKeysInOthello - 1, t'.keys j = t.keys (origin i (t.nKeysInOthello - 1) j)
  values : ∀ j < t.nKeysInOthello - 1, t'.values j = t.values (origin i (t.nKeysInOthello - 1) j)
  cells : ∀ x, t'.cell L x = t.cell L x

/-- The table with one key less. -/
@[reducible] def shortened (t : ControlPlaneOthello) : ControlPlaneOthello :=
  { t with nKeysInOthello := t.nKeysInOthello - 1 }

theorem insert_Iio_diff (hi : i < last) : Insert.insert i ((Set.Iio (last + 1) \ {i}) \ {last}) = Set.Iio last := by
  ext j
  simp only [Set.mem_insert_iff, Set.mem_sdiff, Set.mem_Iio, Set.mem_singleton_iff]
  omega

/-- **The edge of the key is unlinked**, and the last key is moved to its index. -/
theorem Built.unlink_spec (h : t.Built H L) (hL : L ≤ 60) (hi : i < t.nKeysInOthello) :
    ∃ t₁ t₂, t.shortened.redirectBoth i (t.ends H i).1 (t.ends H i).2 (t.nextAtA i)
        (t.nextAtB i) = .ok t₁ ∧
      (if i ≠ t.nKeysInOthello - 1 then t₁.moveLast H L i (t.nKeysInOthello - 1) else .ok t₁) = .ok t₂ ∧
      Unlinked H L i t t₂ := by
  obtain ⟨last, hn⟩ : ∃ last, t.nKeysInOthello = last + 1 := ⟨t.nKeysInOthello - 1, by omega⟩
  have hlinked₀ : t.shortened.Linked H (Set.Iio t.nKeysInOthello) :=
    ⟨h.linked.listsA, h.linked.listsB, h.linked.forest, h.linked.bound⟩
  have hs₀ : t.shortened.Sized :=
    ⟨h.sized.ma_pos, h.sized.mb_pos, h.sized.nodes_lt, h.sized.keys_lt⟩
  obtain ⟨head, nextA, nextB, hok, hlinked⟩ := hlinked₀.redirect_out hs₀ hi
  have hfilled : (t.shortened.relink head nextA nextB t.connectivityForest).Filled H L
      (Set.Iio t.nKeysInOthello \ {i}) :=
    ⟨h.filled.value.mono Set.sdiff_subset, h.filled.index.mono Set.sdiff_subset⟩
  refine ⟨t.shortened.relink head nextA nextB t.connectivityForest, ?_⟩
  -- the last key goes, or the last key takes the index of the one that goes
  by_cases hlast : i = t.nKeysInOthello - 1
  · have hset : Set.Iio t.nKeysInOthello \ {i} = Set.Iio (t.nKeysInOthello - 1) := by
      ext j
      simp only [Set.mem_sdiff, Set.mem_Iio, Set.mem_singleton_iff]
      omega
    rw [hset] at hlinked hfilled
    refine ⟨_, hok, if_neg (not_not.mpr hlast), rfl, rfl, rfl, rfl, rfl, rfl, hlinked, hfilled, fun j hj => ?_, fun j hj => ?_,
      fun _ => rfl⟩
    · rw [origin_of_ne (by omega)]
    · rw [origin_of_ne (by omega)]
  · have hlastmem : t.nKeysInOthello - 1 ∈ Set.Iio t.nKeysInOthello \ {i} := by
      simp only [Set.mem_sdiff, Set.mem_Iio, Set.mem_singleton_iff]
      omega
    have hs₁ : (t.shortened.relink head nextA nextB t.connectivityForest).Sized :=
      ⟨h.sized.ma_pos, h.sized.mb_pos, h.sized.nodes_lt, h.sized.keys_lt⟩
    obtain ⟨head', nextA', nextB', m, im, hmove, hlinked₂, hfilled₂, hcells⟩ := hlinked.moveLast_spec hs₁ hL hfilled hlastmem
      (fun hmem => hmem.2 rfl) (h.linked.bound i hi)
    have hset : Insert.insert i ((Set.Iio t.nKeysInOthello \ {i}) \ {t.nKeysInOthello - 1}) =
        Set.Iio (t.nKeysInOthello - 1) := by
      rw [hn]
      exact insert_Iio_diff (by omega)
    rw [hset] at hlinked₂ hfilled₂
    exact ⟨_, hok, (if_pos hlast).trans hmove, rfl, rfl, rfl, rfl, rfl, rfl,
      ⟨hlinked₂.listsA, hlinked₂.listsB, hlinked₂.forest, hlinked₂.bound⟩, hfilled₂,
      fun j _ => copied_keys t i _ j, fun j _ => copied_values t i _ j, hcells⟩

theorem Unlinked.indices_eq (h : Unlinked H L i t t') (k : U64) : t'.getIndices H k = t.getIndices H k := by
  unfold OthelloCommon.getIndices
  rw [h.hab, h.ma, h.mb]

theorem Unlinked.ends_eq (h : Unlinked H L i t t') (hj : j < t.nKeysInOthello - 1) :
    t'.ends H j = t.ends H (origin i (t.nKeysInOthello - 1) j) := by
  unfold ends
  rw [h.indices_eq, h.keys j hj]

/-- The keys that are left are the keys but `i`. -/
theorem exists_origin (hi : i ≤ last) (hj : j ≤ last) (hji : j ≠ i) : ∃ j' < last, origin i last j' = j := by
  by_cases hjl : j = last
  · exact ⟨i, by omega, origin_self.trans hjl.symm⟩
  · exact ⟨j, by omega, origin_of_ne hji⟩

theorem origin_le (hj : j < last) : origin i last j ≤ last ∧ (i ≤ last → origin i last j ≠ i) := by
  unfold origin
  split <;> omega

/-- The nodes are connected as they are without the edge. -/
theorem Unlinked.conn_iff (h : Unlinked H L i t t') (hi : i < t.nKeysInOthello) :
    Lib.Conn (t'.ends H) (Set.Iio (t.nKeysInOthello - 1)) x y ↔ Lib.Conn (t.ends H) (Set.Iio t.nKeysInOthello \ {i}) x y := by
  constructor
  · refine fun hc => hc.of_ends fun j hj => ⟨origin i (t.nKeysInOthello - 1) j, ?_, (h.ends_eq hj).symm⟩
    obtain ⟨hle, hne⟩ := origin_le (i := i) hj
    exact ⟨Set.mem_Iio.mpr (by omega), hne (by omega)⟩
  · refine fun hc => hc.of_ends fun j hj => ?_
    have hjn := Set.mem_Iio.mp hj.1
    obtain ⟨j', hj', horigin⟩ : ∃ j' < t.nKeysInOthello - 1, origin i (t.nKeysInOthello - 1) j' = j :=
      exists_origin (by omega) (by omega) hj.2
    exact ⟨j', hj', by rw [h.ends_eq hj', horigin]⟩

/-- The map without the key. -/
theorem Unlinked.toMap_eq (h : Unlinked H L i t t') (hd : t.Distinct) (hi : i < t.nKeysInOthello) :
    t'.Distinct ∧ t'.toMap L = Function.update (t.toMap L) (t.keys i) none := by
  have hd' : t'.Distinct := by
    have hinj := h.linked.keys_inj
    rw [← h.size] at hinj
    exact hinj
  refine ⟨hd', ?_⟩
  funext x
  -- `x` is a key that is left, the key that went, or no key
  by_cases hex : ∃ j < t.nKeysInOthello - 1, t'.keys j = x
  · obtain ⟨j, hj, rfl⟩ := hex
    obtain ⟨hle, hne⟩ := origin_le (i := i) hj
    have hlt : origin i (t.nKeysInOthello - 1) j < t.nKeysInOthello := by omega
    rw [hd'.toMap_key (h.size.symm ▸ hj), h.keys j hj, h.values j hj, Function.update_of_ne, hd.toMap_key hlt]
    exact fun heq => hne (by omega) (hd hlt hi heq)
  · rw [toMap_eq_none fun j hj heq => hex ⟨j, h.size ▸ hj, heq⟩]
    by_cases hx : x = t.keys i
    · rw [hx, Function.update_self]
    · rw [Function.update_of_ne hx, toMap_eq_none]
      rintro j hj rfl
      obtain ⟨j', hj', horigin⟩ : ∃ j' < t.nKeysInOthello - 1, origin i (t.nKeysInOthello - 1) j' = j :=
        exists_origin (by omega) (by omega) (fun heq => hx (heq ▸ rfl))
      exact hex ⟨j', hj', by rw [h.keys j' hj', horigin]⟩

/-- **The disjoint set is repaired** by the two searches from the nodes of the edge. -/
theorem Unlinked.connect_spec (h : Unlinked H L i t t') (hb : t.Built H L) (hi : i < t.nKeysInOthello) :
    ∃ s₁ s₂, t'.connectDFS (t.ends H i).1 = .ok { t' with connectivityForest := s₁ } ∧
      connectDFS { t' with connectivityForest := s₁ } (t.ends H i).2 = .ok { t' with connectivityForest := s₂ } ∧
      ({ t' with connectivityForest := s₂ } : ControlPlaneOthello).Built H L := by
  have hs : t'.Sized := ⟨h.ma ▸ hb.sized.ma_pos, h.mb ▸ hb.sized.mb_pos, by rw [h.ma, h.mb]; exact hb.sized.nodes_lt,
    h.keysSize ▸ hb.sized.keys_lt⟩
  have hx : (t.ends H i).1 < t'.ma + t'.mb := by
    rw [h.ma, h.mb]
    exact Nat.lt_add_right _ (hb.sized.fst_lt i)
  have hy : (t.ends H i).2 < t'.ma + t'.mb := by
    rw [h.ma, h.mb]
    exact hb.sized.snd_lt i
  obtain ⟨ra, s₁, hok₁, hra, hin₁, hout₁⟩ := h.linked.connectDFS_spec hs hx
  have hlinked₁ : ({ t' with connectivityForest := s₁ } : ControlPlaneOthello).Linked H (Set.Iio (t.nKeysInOthello - 1)) :=
    ⟨h.linked.listsA, h.linked.listsB, h.linked.forest, h.linked.bound⟩
  obtain ⟨rb, s₂, hok₂, hrb, hin₂, hout₂⟩ := hlinked₁.connectDFS_spec ⟨hs.ma_pos, hs.mb_pos, hs.nodes_lt, hs.keys_lt⟩ hy
  refine ⟨s₁, s₂, hok₁, hok₂, ?_⟩
  -- the component of the edge falls into the components of its nodes
  have hj : Lib.Joins (t.ends H) i (t.ends H i).1 (t.ends H i).2 := .of_ends _ i
  have hnot := hb.linked.forest.not_conn hi hj
  have hinsert : Insert.insert i (Set.Iio t.nKeysInOthello \ {i}) = Set.Iio t.nKeysInOthello := by
    rw [Set.insert_sdiff_singleton, Set.insert_eq_of_mem (Set.mem_Iio.mpr hi)]
  have hsame : ∀ u v, Lib.Same t.connectivityForest u v ↔
      Lib.Conn (t.ends H) (Insert.insert i (Set.Iio t.nKeysInOthello \ {i})) u v := by
    rw [hinsert]
    exact hb.joined.same
  have hiff : ∀ u v, Lib.Conn (t'.ends H) (Set.Iio (t.nKeysInOthello - 1)) u v ↔
      Lib.Conn (t.ends H) (Set.Iio t.nKeysInOthello \ {i}) u v := fun u v => h.conn_iff hi
  have hcut : Lib.Cut (t.ends H) (Set.Iio t.nKeysInOthello \ {i}) (t.ends H i).1 (t.ends H i).2 ra rb t.connectivityForest s₂ := by
    refine ⟨(hiff _ _).mp hra, (hiff _ _).mp hrb, fun z hz => ?_, fun z hz => hin₂ z ((hiff _ _).mpr hz), fun z hza hzb => ?_⟩
    · refine (hout₂ z fun hzb => ?_).trans (hin₁ z ((hiff _ _).mpr hz))
      exact hnot (hz.trans ((hiff _ _).mp hzb).symm)
    · rw [← h.forest]
      exact (hout₂ z fun hc => hzb ((hiff _ _).mp hc)).trans (hout₁ z fun hc => hza ((hiff _ _).mp hc))
  have htotal := hcut.total hj hnot hb.joined.wf.total hsame
  -- an edge does not leave the nodes of the table
  have hlt : ∀ u w, u < t.ma + t.mb → Lib.Conn (t.ends H) (Set.Iio t.nKeysInOthello \ {i}) u w → w < t.ma + t.mb :=
    fun u w hu hc => hb.sized.conn_lt hu hc
  refine ⟨⟨hs.ma_pos, hs.mb_pos, hs.nodes_lt, hs.keys_lt⟩, ?_, ?_, ?_, ?_⟩
  · change t'.nKeysInOthello ≤ t'.keysSize
    rw [h.size, h.keysSize]
    exact (Nat.sub_le _ _).trans hb.size_le
  · change Linked H _ (Set.Iio t'.nKeysInOthello)
    rw [h.size]
    exact ⟨h.linked.listsA, h.linked.listsB, h.linked.forest, h.linked.bound⟩
  · change Joined H _ (Set.Iio t'.nKeysInOthello)
    rw [h.size]
    refine ⟨⟨htotal, fun u w hu => ?_⟩, fun u w => (hcut.same hj hnot hb.joined.wf.total hsame).trans (hiff u w).symm⟩
    change u < t'.ma + t'.mb ∧ w < t'.ma + t'.mb
    rw [h.ma, h.mb] at hx hy ⊢
    by_cases hua : Lib.Conn (t.ends H) (Set.Iio t.nKeysInOthello \ {i}) (t.ends H i).1 u
    · obtain rfl := Option.some.inj ((hcut.left u hua).symm.trans hu)
      exact ⟨hlt _ _ hx hua, hlt _ _ hx hcut.left_root⟩
    · by_cases hub : Lib.Conn (t.ends H) (Set.Iio t.nKeysInOthello \ {i}) (t.ends H i).2 u
      · obtain rfl := Option.some.inj ((hcut.right u hub).symm.trans hu)
        exact ⟨hlt _ _ hy hub, hlt _ _ hy hcut.right_root⟩
      · exact hb.joined.wf.bound u w ((hcut.others u hua hub).symm.trans hu)
  · change Filled H L _ (Set.Iio t'.nKeysInOthello)
    rw [h.size]
    exact ⟨h.filled.value, h.filled.index⟩

/-- What `remove` does with the key at index `i`. -/
theorem Built.remove_key (h : t.Built H L) (hL : L ≤ 60) (hi : i < t.nKeysInOthello) :
    ∃ t' s marks, Unlinked H L i t t' ∧ ({ t' with connectivityForest := s } : ControlPlaneOthello).Built H L ∧
      t.remove H L (t.keys i) = .ok ({ marks := marks }, { t' with connectivityForest := s }) := by
  obtain ⟨t₁, t₂, hok₁, hok₂, hun⟩ := h.unlink_spec hL hi
  obtain ⟨s₁, s₂, hs₁, hs₂, hbuilt⟩ := hun.connect_spec h hi
  let marks : Int × Int := (if isEmpty L { t₂ with connectivityForest := s₂ } (t.ends H i).1 then (t.ends H i).1 else -1,
    if isEmpty L { t₂ with connectivityForest := s₂ } (t.ends H i).2 then (t.ends H i).2 else -1)
  refine ⟨t₂, s₂, marks, hun, hbuilt, ?_⟩
  unfold remove
  dsimp only
  rw [h.lookUpIndex_key hi, if_neg (by rw [not_or, not_not, not_not]; exact ⟨hi, rfl⟩)]
  change (t.shortened.redirectBoth i (t.ends H i).1 (t.ends H i).2 (t.nextAtA i) (t.nextAtB i) >>= _) = _
  rw [hok₁]
  -- `moveLast` is called, or not
  by_cases hlast : i ≠ t.nKeysInOthello - 1
  · rw [if_pos hlast] at hok₂
    simp only [if_pos hlast, bind, Except.bind, hok₂]
    change Except.bind (t₂.connectDFS (t.ends H i).1) _ = _
    rw [hs₁]
    change Except.bind (connectDFS _ (t.ends H i).2) _ = _
    rw [hs₂]
    rfl
  · rw [if_neg hlast] at hok₂
    obtain rfl := Except.ok.inj hok₂
    simp only [if_neg hlast, bind, Except.bind]
    change Except.bind (t₁.connectDFS (t.ends H i).1) _ = _
    rw [hs₁]
    change Except.bind (connectDFS _ (t.ends H i).2) _ = _
    rw [hs₂]
    rfl

/-- **`remove`** returns, and leaves a table that is built, with the map without the key and with the same cells. -/
theorem Built.remove_spec (h : t.Built H L) (hL : L ≤ 60) (k : U64) :
    ∃ r, t.remove H L k = .ok r ∧ r.2.Built H L ∧ r.2.toMap L = Function.update (t.toMap L) k none ∧
      (∀ P : U64 → Prop, t.AllValues P → r.2.AllValues P) ∧ r.1.cc = [] ∧ Followed L r.1.xorTemplate r.1.cc t r.2 := by
  by_cases hex : ∃ i < t.nKeysInOthello, t.keys i = k
  · obtain ⟨i, hi, rfl⟩ := hex
    obtain ⟨t', s, marks, hun, hbuilt, hok⟩ := h.remove_key hL hi
    refine ⟨_, hok, hbuilt, (hun.toMap_eq h.distinct hi).2, fun P hP j hj => ?_, rfl, hun.ma, hun.mb, hun.hab, List.nodup_nil,
      BitVec.zero_and, fun x hx => absurd hx List.not_mem_nil, fun x _ => hun.cells x⟩
    have hj' : j < t.nKeysInOthello - 1 := by
      rw [← hun.size]
      exact hj
    have hle := (origin_le (i := i) hj').1
    change P (t'.values j)
    rw [hun.values j hj']
    exact hP _ (by omega)
  · have hnew : ∀ i < t.nKeysInOthello, t.keys i ≠ k := fun i hi heq => hex ⟨i, hi, heq⟩
    refine ⟨({}, t), ?_, h, ?_, fun P hP => hP, rfl, .refl L t⟩
    · unfold remove
      exact if_pos (not_or_of_imp (hnew _))
    · rw [← toMap_eq_none (L := L) hnew, Function.update_eq_self]

end ControlPlaneOthello

end Outback
