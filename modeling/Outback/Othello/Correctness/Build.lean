import Outback.Othello.Correctness.Fill

/-!
# `Othello.Correctness.Build` — building the forest of all keys

`addEdge` adds an edge between two components to the lists and to the disjoint set. `testHash` adds the edges of all keys,
and succeeds exactly when they form a forest (`testHash_spec`); so does `tryBuild`, and then the table is `Built`: every key
has its value and its index. `build` and `resizeCapacity` end with a table that is built, whatever seeds they draw and
however often they enlarge it, and keep the keys and their values (`build_spec`, `resizeCapacity_spec`).
-/

namespace Outback

namespace ControlPlaneOthello

variable {H : HashFn} {L : Nat} {rand : Nat → U64} {t t' t'' : ControlPlaneOthello} {E : Set Nat} {i n depth : Nat}

/-- The same table with other lists and components. -/
@[reducible] def relink (t : ControlPlaneOthello) (head nextA nextB : Nat → Option OthelloCPCell) (s : DisjointSet) :
    ControlPlaneOthello :=
  { t with head := head, nextAtA := nextA, nextAtB := nextB, connectivityForest := s }

/-- The keys are edges, all of them linked, joined and filled. -/
structure Built (H : HashFn) (L : Nat) (t : ControlPlaneOthello) : Prop where
  sized : t.Sized
  size_le : t.nKeysInOthello ≤ t.keysSize
  linked : t.Linked H (Set.Iio t.nKeysInOthello)
  joined : t.Joined H (Set.Iio t.nKeysInOthello)
  filled : t.Filled H L (Set.Iio t.nKeysInOthello)

/-- The same keys in the same places, with the same values. -/
structure SameContent (t t' : ControlPlaneOthello) : Prop where
  size : t'.nKeysInOthello = t.nKeysInOthello
  keys : ∀ i < t.nKeysInOthello, t'.keys i = t.keys i
  values : ∀ i < t.nKeysInOthello, t'.values i = t.values i

theorem SameContent.refl (t : ControlPlaneOthello) : t.SameContent t := ⟨rfl, fun _ _ => rfl, fun _ _ => rfl⟩

theorem SameContent.trans (h : t.SameContent t') (h' : t'.SameContent t'') : t.SameContent t'' where
  size := h'.size.trans h.size
  keys := fun i hi => (h'.keys i (h.size ▸ hi)).trans (h.keys i hi)
  values := fun i hi => (h'.values i (h.size ▸ hi)).trans (h.values i hi)

/-! ## Adding edges -/

/-- Nothing is linked and nothing is joined after a reset. -/
theorem reset_linked (t : ControlPlaneOthello) : (t.resetBuildState L).Linked H ∅ where
  listsA := .empty
  listsB := .empty
  forest := Lib.forest_empty
  bound := fun i hi => absurd hi (Set.notMem_empty i)

theorem reset_joined (t : ControlPlaneOthello) : (t.resetBuildState L).Joined H ∅ where
  wf := DisjointSet.reset_wf _
  same := by
    intro x y
    rw [Lib.conn_empty]
    exact Lib.same_iff Lib.leads_none Lib.leads_none

/-- **`addEdge`** adds an edge between two components. -/
theorem Linked.addEdge_spec (h : t.Linked H E) (hs : t.Sized) (hj : t.Joined H E) (hi : i ∉ E) (hsize : i < t.keysSize)
    (hnot : ¬ Lib.Conn (t.ends H) E (t.ends H i).1 (t.ends H i).2) :
    ∃ head nextA nextB s, t.addEdge i (t.ends H i).1 (t.ends H i).2 = .ok (t.relink head nextA nextB s) ∧
      (t.relink head nextA nextB s).Linked H (Insert.insert i E) ∧
      (t.relink head nextA nextB s).Joined H (Insert.insert i E) ∧
      s.Rooted (t.ends H i).1 ∧ ∀ x, t.connectivityForest.Rooted x → s.Rooted x := by
  have ha := hs.fst_lt (H := H) i
  have hb := hs.le_snd (H := H) i
  have hb' := hs.snd_lt (H := H) i
  obtain ⟨s, hok, hwf, hrooted, hroots, hsame⟩ := hj.wf.merge_spec (Nat.lt_add_right _ ha) hb' (Nat.lt_succ_self _)
  -- the list of the node of B is not the one that changes first
  have hne : (t.ends H i).2 ≠ (t.ends H i).1 := by omega
  let headA := Function.update t.head (t.ends H i).1 (some (i, (t.ends H i).2))
  have hheadB : headA (t.ends H i).2 = t.head (t.ends H i).2 := Function.update_of_ne hne ..
  refine ⟨Function.update headA (t.ends H i).2 (some (i, (t.ends H i).1)),
    Function.update t.nextAtA i (t.head (t.ends H i).1), Function.update t.nextAtB i (t.head (t.ends H i).2), s, ?_,
    ⟨?_, ?_, ?_, ?_⟩, ⟨hwf, ?_⟩, hrooted, hroots⟩
  · rw [← hheadB]
    unfold addEdge turns
    rw [hok]
    rfl
  · refine (h.listsA.push hi).congr (fun x hx => ?_) (fun _ _ => rfl) (fun _ _ => rfl) fun _ _ => rfl
    refine Function.update_of_ne ?_ ..
    rintro rfl
    exact absurd hx (Nat.not_lt.mpr hb)
  · refine (h.listsB.push hi).congr (fun x hx => ?_) (fun _ _ => rfl) (fun _ _ => rfl) fun _ _ => rfl
    by_cases hxb : x = (t.ends H i).2
    · subst hxb
      exact (Function.update_self ..).trans (Function.update_self (t.ends H i).2 (some (i, (t.ends H i).1)) t.head).symm
    · refine (Function.update_of_ne hxb ..).trans ((Function.update_of_ne ?_ ..).trans (Function.update_of_ne hxb ..).symm)
      rintro rfl
      exact absurd hx (Nat.not_le.mpr ha)
  · exact h.forest.insert (.of_ends _ i) hnot
  · intro j hjE
    rcases Set.mem_insert_iff.mp hjE with rfl | hjE
    · exact hsize
    · exact h.bound j hjE
  · intro x y
    refine (hsame x y).trans ?_
    rw [hj.same, hj.same, hj.same, hj.same, hj.same]
    exact (Lib.conn_insert (.of_ends (t.ends H) i)).symm

/-- **`testHash` succeeds exactly when the edges form a forest**, and then they are linked and joined. -/
theorem testHash_spec : ∀ (l : List Nat) {t : ControlPlaneOthello} {E : Set Nat}, t.Linked H E → t.Sized → t.Joined H E →
    (∀ i ∈ E, t.connectivityForest.Rooted (t.ends H i).1) → l.Nodup → (∀ i ∈ l, i ∉ E ∧ i < t.keysSize) →
    ∃ res head nextA nextB s, testHash H l t = .ok (res, t.relink head nextA nextB s) ∧
      (res = true ↔ Lib.Forest (t.ends H) (E ∪ {i | i ∈ l})) ∧
      (res = true → (t.relink head nextA nextB s).Linked H (E ∪ {i | i ∈ l}) ∧
        (t.relink head nextA nextB s).Joined H (E ∪ {i | i ∈ l}) ∧
        ∀ i ∈ E ∪ {i | i ∈ l}, s.Rooted (t.ends H i).1) := by
  intro l
  induction l with
  | nil =>
      intro t E h hs hj hrooted _ _
      have hE : E ∪ {i | i ∈ ([] : List Nat)} = E := by
        ext i
        simp
      refine ⟨true, _, _, _, _, rfl, ?_, ?_⟩
      · rw [hE]
        exact ⟨fun _ => h.forest, fun _ => rfl⟩
      · intro _
        rw [hE]
        exact ⟨⟨h.listsA, h.listsB, h.forest, h.bound⟩, ⟨hj.wf, hj.same⟩, hrooted⟩
  | cons i l ih =>
      intro t E h hs hj hrooted hnodup hl
      obtain ⟨hi, hsize⟩ := hl i List.mem_cons_self
      have ha := hs.fst_lt (H := H) i
      have hb := hs.snd_lt (H := H) i
      have hE : E ∪ {j | j ∈ i :: l} = Insert.insert i E ∪ {j | j ∈ l} := by
        ext j
        simp only [Set.mem_union, Set.mem_ofPred_eq, List.mem_cons, Set.mem_insert_iff]
        tauto
      obtain ⟨same, s, hsok, hsame, hwf, hkept⟩ := hj.wf.sameSet_spec (Nat.lt_add_right _ ha) hb (Nat.lt_succ_self _)
      have hconn : same = true ↔ Lib.Conn (t.ends H) E (t.ends H i).1 (t.ends H i).2 := hsame.trans (hj.same _ _)
      cases same with
      | true =>
          refine ⟨false, t.head, t.nextAtA, t.nextAtB, s, ?_, ?_, fun hfalse => by cases hfalse⟩
          · unfold testHash turns
            change (t.connectivityForest.sameSet (t.ma + t.mb + 1) (t.ends H i).1 (t.ends H i).2 >>= _) = _
            rw [hsok]
            rfl
          · -- the ends of `i` are connected without it
            refine ⟨fun hfalse => (by cases hfalse), fun hforest => ?_⟩
            refine absurd ((hconn.mp rfl).mono ?_) (hforest.not_conn (.inr List.mem_cons_self) (.of_ends _ i))
            intro j hjE
            exact ⟨.inl hjE, fun heq => hi (heq ▸ hjE)⟩
      | false =>
          have hnot : ¬ Lib.Conn (t.ends H) E (t.ends H i).1 (t.ends H i).2 := fun hc => by cases hconn.mpr hc
          have h₁ : (t.relink t.head t.nextAtA t.nextAtB s).Linked H E := ⟨h.listsA, h.listsB, h.forest, h.bound⟩
          have hj₁ : (t.relink t.head t.nextAtA t.nextAtB s).Joined H E :=
            ⟨hwf, fun x y => (hkept.same hj.wf.total).trans (hj.same x y)⟩
          have hs₁ : (t.relink t.head t.nextAtA t.nextAtB s).Sized := ⟨hs.ma_pos, hs.mb_pos, hs.nodes_lt, hs.keys_lt⟩
          obtain ⟨head, nextA, nextB, s', hadd, h₂, hj₂, hself, hroots⟩ := h₁.addEdge_spec hs₁ hj₁ hi hsize hnot
          have hs₂ : (t.relink head nextA nextB s').Sized := ⟨hs.ma_pos, hs.mb_pos, hs.nodes_lt, hs.keys_lt⟩
          have hrooted₂ : ∀ j ∈ Insert.insert i E, s'.Rooted (t.ends H j).1 := by
            intro j hjE
            rcases Set.mem_insert_iff.mp hjE with rfl | hjE
            · exact hself
            · exact hroots _ (hkept.rooted (hrooted j hjE))
          have hl₂ : ∀ j ∈ l, j ∉ Insert.insert i E ∧ j < t.keysSize := by
            intro j hjl
            obtain ⟨hjE, hjs⟩ := hl j (List.mem_cons_of_mem i hjl)
            refine ⟨fun hmem => ?_, hjs⟩
            rcases Set.mem_insert_iff.mp hmem with rfl | hmem
            · exact (List.nodup_cons.mp hnodup).1 hjl
            · exact hjE hmem
          obtain ⟨res, head', nextA', nextB', s'', hok, hiff, hres⟩ :=
            ih h₂ hs₂ hj₂ hrooted₂ (List.nodup_cons.mp hnodup).2 hl₂
          rw [hE]
          refine ⟨res, head', nextA', nextB', s'', ?_, hiff, hres⟩
          have hadd' : (t.relink t.head t.nextAtA t.nextAtB s).addEdge i (t.ends H i).1 (t.ends H i).2 =
            .ok (t.relink head nextA nextB s') := hadd
          unfold testHash turns
          change (t.connectivityForest.sameSet (t.ma + t.mb + 1) (t.ends H i).1 (t.ends H i).2 >>= _) = _
          rw [hsok]
          change ((t.relink t.head t.nextAtA t.nextAtB s).addEdge i (t.ends H i).1 (t.ends H i).2 >>= _) = _
          rw [hadd']
          exact hok

/-! ## Building -/

/-- A forest has no parallel edges, so keys that are edges of one are distinct. -/
theorem Linked.keys_inj (h : t.Linked H E) : Set.InjOn t.keys E := by
  intro i hi j hj heq
  by_contra hne
  refine h.forest.not_conn hi (.of_ends _ i) (.edge ⟨hj, fun hji => hne hji.symm⟩ ?_)
  refine .inl ?_
  unfold ends
  rw [heq]

/-- The table is ready to be built: there is room for its keys. -/
structure Ready (t : ControlPlaneOthello) : Prop extends t.Sized where
  size_le : t.nKeysInOthello ≤ t.keysSize

theorem Built.ready (h : t.Built H L) : t.Ready := ⟨h.sized, h.size_le⟩

/-- **`tryBuild` succeeds exactly when the edges of the keys form a forest.** Then the table is built. -/
theorem Ready.tryBuild_spec (h : t.Ready) (hL : L ≤ 60) :
    ∃ res m im head nextA nextB s, t.tryBuild H L = .ok (res, (t.relabel m im).relink head nextA nextB s) ∧
      (res = true ↔ Lib.Forest (t.ends H) (Set.Iio t.nKeysInOthello)) ∧
      (res = true → ((t.relabel m im).relink head nextA nextB s).Built H L) := by
  have hs₀ : (t.resetBuildState L).Sized := ⟨h.ma_pos, h.mb_pos, h.nodes_lt, h.keys_lt⟩
  unfold tryBuild
  dsimp only
  -- `tryBuild` returns at once when there is no key
  by_cases hzero : t.nKeysInOthello = 0
  · have hempty : Set.Iio t.nKeysInOthello = ∅ := by
      rw [hzero]
      ext i
      simp
    refine ⟨true, _, _, _, _, _, _, if_pos hzero, ?_, fun _ => ⟨?_, h.size_le, ?_, ?_, ?_⟩⟩
    · rw [hempty]
      exact ⟨fun _ => Lib.forest_empty, fun _ => rfl⟩
    · exact ⟨h.ma_pos, h.mb_pos, h.nodes_lt, h.keys_lt⟩
    · change Linked H _ (Set.Iio t.nKeysInOthello)
      rw [hempty]
      exact reset_linked (L := L) t
    · change Joined H _ (Set.Iio t.nKeysInOthello)
      rw [hempty]
      exact reset_joined (L := L) t
    · change Filled H L _ (Set.Iio t.nKeysInOthello)
      rw [hempty]
      exact ⟨fun i hi => absurd hi (Set.notMem_empty i), fun i hi => absurd hi (Set.notMem_empty i)⟩
  · have hnone : ∀ i ∈ (∅ : Set Nat), (t.resetBuildState L).connectivityForest.Rooted ((t.resetBuildState L).ends H i).1 :=
      fun i hi => absurd hi (Set.notMem_empty i)
    have hroom : ∀ i ∈ List.range t.nKeysInOthello, i ∉ (∅ : Set Nat) ∧ i < (t.resetBuildState L).keysSize :=
      fun i hi => ⟨Set.notMem_empty i, (List.mem_range.mp hi).trans_le h.size_le⟩
    have hall : (∅ : Set Nat) ∪ {i | i ∈ List.range t.nKeysInOthello} = Set.Iio t.nKeysInOthello := by
      ext i
      simp
    obtain ⟨res, head, nextA, nextB, s, hok, hiff, hres⟩ := testHash_spec (List.range t.nKeysInOthello) (reset_linked t) hs₀
      (reset_joined t) hnone List.nodup_range hroom
    rw [hall] at hiff hres
    have hok' : testHash H (List.range (t.resetBuildState L).nKeysInOthello) (t.resetBuildState L) =
        .ok (res, (t.resetBuildState L).relink head nextA nextB s) := hok
    rw [if_neg (show ¬(t.resetBuildState L).nKeysInOthello = 0 from hzero), hok']
    cases res with
    | false => exact ⟨false, _, _, _, _, _, _, rfl, hiff, fun hfalse => by cases hfalse⟩
    | true =>
        obtain ⟨hlinked, hjoined, hrooted⟩ := hres rfl
        have hs₁ : ((t.resetBuildState L).relink head nextA nextB s).Sized :=
          ⟨h.ma_pos, h.mb_pos, h.nodes_lt, h.keys_lt⟩
        obtain ⟨m, im, hfill, hfilled⟩ := hlinked.fillValue_spec hs₁ hjoined hL hrooted
        refine ⟨true, m, im, head, nextA, nextB, s, ?_, hiff, fun _ => ?_⟩
        · change (((t.resetBuildState L).relink head nextA nextB s).fillValue L >>= _) = _
          rw [hfill]
          rfl
        · exact ⟨⟨h.ma_pos, h.mb_pos, h.nodes_lt, h.keys_lt⟩, h.size_le,
            ⟨hlinked.listsA, hlinked.listsB, hlinked.forest, hlinked.bound⟩, ⟨hjoined.wf, hjoined.same⟩,
            ⟨hfilled.value, hfilled.index⟩⟩

/-- The tries of one round all return, and a try that succeeds builds the table with the keys it has. -/
theorem Ready.rehash_spec (rand : Nat → U64) (hL : L ≤ 60) : ∀ (tries : Nat) {t : ControlPlaneOthello} (n : Nat), t.Ready →
    ∃ r, rehash H L rand tries t n = .ok r ∧ t.SameContent r.2.1 ∧ r.2.1.Ready ∧ (r.1 = true → r.2.1.Built H L) := by
  intro tries
  induction tries with
  | zero => exact fun n h => ⟨_, rfl, .refl _, h, fun hfalse => by cases hfalse⟩
  | succ tries ih =>
      intro t n h
      have h₁ : ({ t with hab := drawSeed rand n } : ControlPlaneOthello).Ready :=
        ⟨⟨h.ma_pos, h.mb_pos, h.nodes_lt, h.keys_lt⟩, h.size_le⟩
      obtain ⟨res, m, im, head, nextA, nextB, s, hok, -, hbuilt⟩ := h₁.tryBuild_spec (H := H) hL
      rw [rehash, hok]
      cases res with
      | true =>
          refine ⟨_, rfl, ⟨rfl, fun _ _ => rfl, fun _ _ => rfl⟩, ?_, fun _ => hbuilt rfl⟩
          exact ⟨⟨h.ma_pos, h.mb_pos, h.nodes_lt, h.keys_lt⟩, h.size_le⟩
      | false =>
          have h₂ : (({ t with hab := drawSeed rand n } : ControlPlaneOthello).relabel m im |>.relink head nextA nextB s).Ready :=
            ⟨⟨h.ma_pos, h.mb_pos, h.nodes_lt, h.keys_lt⟩, h.size_le⟩
          obtain ⟨r, hr, hsame, hrest⟩ := ih (n + 2) h₂
          exact ⟨r, hr, ⟨hsame.size, hsame.keys, hsame.values⟩, hrest⟩

/-! ## Sizes -/

/-- Rounding takes away less than one part in `2 ^ 52`. -/
theorem le_roundTo53 (p : Nat) : p ≤ roundTo53 p + p / 2 ^ 52 := by
  unfold roundTo53
  split
  · exact Nat.le_add_right _ _
  · rename_i hp
    -- `p` has more than 53 bits
    have hpos : p ≠ 0 := by
      rintro rfl
      exact hp (by decide)
    have hlog : 2 ^ p.log2 ≤ p := Nat.log2_self_le hpos
    have h52 : 52 ≤ p.log2 := by
      rw [Nat.le_log2 hpos]
      omega
    have hs : 2 ^ (p.log2 - 52) ≤ p / 2 ^ 52 := by
      rw [Nat.le_div_iff_mul_le (by decide), ← Nat.pow_add, Nat.sub_add_cancel h52]
      exact hlog
    have hu : 0 < 2 ^ (p.log2 - 52) := Nat.two_pow_pos _
    dsimp only
    generalize 2 ^ (p.log2 - 52) = u at hs hu
    have hdiv := Nat.div_add_mod p u
    have hmod : p % u < u := Nat.mod_lt p hu
    rw [Nat.mul_comm] at hdiv
    split
    · rw [Nat.succ_mul]
      omega
    · omega

/-- Array A is not smaller than array B. -/
theorem le_nextMa (mb : Nat) : mb ≤ nextMa mb := by
  unfold nextMa
  have h := le_roundTo53 (6004829527158177 * mb)
  rw [Nat.le_div_iff_mul_le (by decide)]
  omega

theorem le_doubleUntil (target : Nat) : ∀ fuel n,
    target ≤ doubleUntil target fuel n ∨ doubleUntil target fuel n = n * 2 ^ fuel := by
  intro fuel
  induction fuel with
  | zero => exact fun n => .inr (by simp [doubleUntil])
  | succ fuel ih =>
      intro n
      rw [doubleUntil]
      split
      · rcases ih (n * 2) with h | h
        · exact .inl h
        · refine .inr (h.trans ?_)
          rw [Nat.pow_succ, Nat.mul_assoc, Nat.mul_comm 2]
      · rename_i hn
        exact .inl (Nat.not_lt.mp hn)

/-- Array B has room for the target, unless it is too large. -/
theorem le_nextMb (compact : Bool) (target : Nat) (h : nextMb compact target < 2 ^ 32) : target ≤ nextMb compact target := by
  unfold nextMb at h ⊢
  cases compact with
  | true => exact le_rfl
  | false =>
      rw [if_neg (by simp)] at h ⊢
      rcases le_doubleUntil target 32 256 with hle | heq
      · exact hle
      · rw [heq] at h
        omega

/-- With the new room there is room for the target. -/
theorem reserve_room (t : ControlPlaneOthello) (target : Nat) (hkeys : t.keysSize < 2 ^ 32)
    (htarget : target < 2 ^ 31 ∨ (t.compact = true ∧ target < 2 ^ 32)) :
    target ≤ (t.reserve target).keysSize ∧ t.keysSize ≤ (t.reserve target).keysSize ∧ (t.reserve target).keysSize < 2 ^ 32 := by
  unfold reserve
  split
  · rename_i hlt
    have hmod : target ≤ target * (if t.compact then 1 else 2) % 2 ^ 32 := by
      rcases htarget with htarget | ⟨hcompact, htarget⟩
      · split
        · rw [Nat.mul_one, Nat.mod_eq_of_lt (by omega)]
        · rw [Nat.mod_eq_of_lt (by omega)]
          omega
      · rw [if_pos hcompact, Nat.mul_one, Nat.mod_eq_of_lt htarget]
    have hlt' : target * (if t.compact then 1 else 2) % 2 ^ 32 < 2 ^ 32 := Nat.mod_lt _ (by decide)
    dsimp only
    omega
  · rename_i hle
    exact ⟨Nat.not_lt.mp hle, le_rfl, hkeys⟩

theorem reserve_sameContent {target : Nat} (h : t.nKeysInOthello ≤ t.keysSize) : t.SameContent (t.reserve target) := by
  unfold reserve
  split
  · exact ⟨rfl, fun i hi => if_pos (hi.trans_le h), fun i hi => if_pos (hi.trans_le h)⟩
  · exact .refl t

/-- Room for more keys does not touch the edges. -/
theorem Built.reserve (h : t.Built H L) {target : Nat} (hkeys : t.keysSize ≤ (t.reserve target).keysSize)
    (hlt : (t.reserve target).keysSize < 2 ^ 32) : (t.reserve target).Built H L := by
  unfold ControlPlaneOthello.reserve at hkeys hlt ⊢
  split
  · rename_i hroom
    rw [if_pos hroom] at hkeys hlt
    have hold : ∀ i ∈ Set.Iio t.nKeysInOthello, i < t.keysSize := fun i hi => (Set.mem_Iio.mp hi).trans_le h.size_le
    have hends : ∀ i ∈ Set.Iio t.nKeysInOthello, t.getIndices H (resized t.keysSize 0 t.keys i) = t.ends H i := by
      intro i hi
      unfold resized ends
      rw [if_pos (hold i hi)]
    exact ⟨⟨h.sized.ma_pos, h.sized.mb_pos, h.sized.nodes_lt, hlt⟩, h.size_le.trans hkeys,
      h.linked.transport rfl rfl (fun i hi => if_pos (hold i hi)) (fun i hi => if_pos (hold i hi)) hends
        fun i hi => (hold i hi).trans_le hkeys,
      h.joined.transport rfl rfl rfl hends, h.filled.transport rfl rfl hends fun i hi => if_pos (hold i hi)⟩
  · exact h

/-! ## Building until it succeeds -/

/-- What a call that may rebuild returns: a table that is built, with the same content. -/
def Rebuilt (H : HashFn) (L : Nat) (t : ControlPlaneOthello) (r : ControlPlaneOthello × Nat) : Prop :=
  r.1.Built H L ∧ t.SameContent r.1

/-- A table before its first build has no nodes. -/
structure Sound (H : HashFn) (L : Nat) (t : ControlPlaneOthello) (forceBuild : Bool) : Prop where
  size_le : t.nKeysInOthello ≤ t.keysSize
  keys_lt : t.keysSize < 2 ^ 32
  nodes : t.ma = 0 ∨ (t.Sized ∧ (forceBuild = true ∨ t.Built H L))

/-- **`resizeCapacity`**, over a `build` that builds. -/
theorem Sound.resizeCapacityWith_spec {rebuild : ControlPlaneOthello → Nat → LudoExec (ControlPlaneOthello × Nat)}
    {forceBuild : Bool} {capacity : Nat} (h : t.Sound H L forceBuild)
    (hrebuild : ∀ {t n}, t.Ready → Lib.Returns (Rebuilt H L t) (rebuild t n)) :
    Lib.Returns (Rebuilt H L t) (resizeCapacityWith L rebuild t n capacity forceBuild) := by
  unfold resizeCapacityWith
  dsimp only
  generalize htarget : max t.nKeysInOthello (max capacity 256) = target
  by_cases hmany : 2 ^ 32 ≤ nextMa (nextMb t.compact target) + nextMb t.compact target
  · rw [if_pos hmany]
    exact Lib.Returns.error _
  · rw [if_neg hmany]
    have hma := le_nextMa (nextMb t.compact target)
    have hmb := le_nextMb t.compact target (by omega)
    have h256 : 256 ≤ target := by omega
    have hkeys : t.nKeysInOthello ≤ target := by omega
    obtain ⟨hroom, hgrow, hlt⟩ := reserve_room t target h.keys_lt (.inl (by omega))
    have hsame : t.SameContent (t.reserve target) := reserve_sameContent h.size_le
    have hsize : (t.reserve target).nKeysInOthello ≤ (t.reserve target).keysSize := by
      rw [hsame.size]
      omega
    have hma' : (t.reserve target).ma = t.ma := by
      unfold ControlPlaneOthello.reserve
      split
      · rfl
      · rfl
    have hmb' : (t.reserve target).mb = t.mb := by
      unfold ControlPlaneOthello.reserve
      split
      · rfl
      · rfl
    split
    · have hready : ((t.reserve target).resizeNodes L (nextMa (nextMb t.compact target)) (nextMb t.compact target)).Ready :=
        ⟨⟨show 0 < nextMa _ by omega, show 0 < nextMb _ _ by omega, show nextMa _ + nextMb _ _ < _ by omega, hlt⟩, hsize⟩
      intro r hr
      obtain ⟨hbuilt, hcontent⟩ := hrebuild hready r hr
      exact ⟨hbuilt, hsame.trans (⟨hcontent.size, hcontent.keys, hcontent.values⟩ : (t.reserve target).SameContent r.1)⟩
    · rename_i hstay
      obtain ⟨hsized, hforce⟩ := h.nodes.resolve_left fun hzero => hstay (.inl (by rw [hma']; omega))
      split
      · have hready : (t.reserve target).Ready :=
          ⟨⟨hma'.symm ▸ hsized.ma_pos, hmb'.symm ▸ hsized.mb_pos, by rw [hma', hmb']; exact hsized.nodes_lt, hlt⟩, hsize⟩
        intro r hr
        obtain ⟨hbuilt, hcontent⟩ := hrebuild hready r hr
        exact ⟨hbuilt, hsame.trans hcontent⟩
      · rename_i hnot
        exact Lib.Returns.ok ⟨(hforce.resolve_left hnot).reserve hgrow hlt, hsame⟩

/-- **`build` builds**, whatever seeds it draws. -/
theorem Ready.build_spec (hL : L ≤ 60) : ∀ {depth : Nat} {t : ControlPlaneOthello} {n : Nat}, t.Ready →
    Lib.Returns (Rebuilt H L t) (build H L rand depth t n) := by
  intro depth
  induction depth with
  | zero => exact fun _ => Lib.Returns.error _
  | succ depth ih =>
      intro t n h
      obtain ⟨r, hr, hsame, hready, hbuilt⟩ := Ready.rehash_spec (H := H) rand hL MAX_REHASH n h
      rw [build, hr]
      change Lib.Returns _ (if r.1 then _ else _)
      split
      · rename_i hres
        exact Lib.Returns.ok ⟨hbuilt hres, hsame⟩
      · -- enlarged and built, the table is built once more
        have hsound : r.2.1.Sound H L true := ⟨hready.size_le, hready.keys_lt, .inr ⟨hready.toSized, .inl rfl⟩⟩
        refine (hsound.resizeCapacityWith_spec ih).bind ?_
        rintro e ⟨hbuilt', hsame'⟩
        intro r' hr'
        obtain ⟨hbuilt'', hsame''⟩ := ih hbuilt'.ready r' hr'
        exact ⟨hbuilt'', hsame.trans (hsame'.trans hsame'')⟩

theorem Sound.resizeCapacity_spec (hL : L ≤ 60) {forceBuild : Bool} {capacity : Nat} (h : t.Sound H L forceBuild) :
    Lib.Returns (Rebuilt H L t) (resizeCapacity H L rand depth t n capacity forceBuild) :=
  h.resizeCapacityWith_spec (Ready.build_spec hL)

theorem getD_take {l : List U64} {i n : Nat} (hi : i < n) : (l.take n).getD i 0 = l.getD i 0 := by
  rw [List.getD_eq_getElem?_getD, List.getD_eq_getElem?_getD, List.getElem?_take_of_lt hi]

/-- **A new control plane** is built, with the keys and the values that it is made of. -/
theorem construct_spec (hL : L ≤ 60) {keyCapacity : Nat} {compact : Bool} {keys values : List U64}
    (hcapacity : keyCapacity < 2 ^ 32) :
    Lib.Returns (fun r => r.1.Built H L ∧ r.1.nKeysInOthello = min (min keys.length values.length) keyCapacity ∧
        ∀ i < min (min keys.length values.length) keyCapacity, r.1.keys i = keys.getD i 0 ∧ r.1.values i = values.getD i 0)
      (construct H L rand depth n keyCapacity compact keys values) := by
  have hsound : ∀ t : ControlPlaneOthello, t.ma = 0 → t.nKeysInOthello = t.keysSize → t.keysSize < 2 ^ 32 →
      t.Sound H L true := fun t hma hsize hlt => ⟨hsize.le, hlt, .inl hma⟩
  have hlt : min (min keys.length values.length) keyCapacity < 2 ^ 32 := (Nat.min_le_right _ _).trans_lt hcapacity
  intro r hr
  obtain ⟨hbuilt, hsame⟩ := Sound.resizeCapacity_spec hL (hsound _ rfl rfl hlt) r hr
  exact ⟨hbuilt, hsame.size, fun i hi => ⟨(hsame.keys i hi).trans (getD_take hi), (hsame.values i hi).trans (getD_take hi)⟩⟩

/-! ## Every try -/

/-- **`tryBuild` returns**, and returns `true` exactly when the edges of the keys form a forest: whatever the seeds, and
    whatever an earlier try has left in the table. -/
theorem tryBuild_true_iff (h : t.Ready) (hL : L ≤ 60) : ∃ res t', t.tryBuild H L = .ok (res, t') ∧ t.SameContent t' ∧
    (res = true ↔ Lib.Forest (t.ends H) (Set.Iio t.nKeysInOthello)) ∧ (res = true → t'.Built H L) := by
  obtain ⟨res, m, im, head, nextA, nextB, s, hok, hiff, hbuilt⟩ := h.tryBuild_spec (H := H) hL
  exact ⟨res, _, hok, ⟨rfl, fun _ _ => rfl, fun _ _ => rfl⟩, hiff, hbuilt⟩

/-- Two keys under another seed than that of their table. -/
theorem tryBuild_true_iff_two : ∃ t n res t',
    construct fastHasher64 4 (fun i => BitVec.ofNat 64 i) 1 0 2 true [7, 9] [5, 3] = .ok (t, n) ∧
    ({ t with hab := 3 } : ControlPlaneOthello).tryBuild fastHasher64 4 = .ok (res, t') ∧
      (res = true ↔
        Lib.Forest (({ t with hab := 3 } : ControlPlaneOthello).ends fastHasher64) (Set.Iio t.nKeysInOthello)) := by
  obtain ⟨⟨t, n⟩, hok, -⟩ := Lib.exists_of_passes (p := fun _ => true)
    (x := construct fastHasher64 4 (fun i => BitVec.ofNat 64 i) 1 0 2 true [7, 9] [5, 3]) (by decide +kernel)
  have hready := (construct_spec (by decide) (by decide) _ hok).1.ready
  obtain ⟨res, t', hres, -, hiff, -⟩ := tryBuild_true_iff (H := fastHasher64) (L := 4) (t := { t with hab := 3 })
    ⟨⟨hready.ma_pos, hready.mb_pos, hready.nodes_lt, hready.keys_lt⟩, hready.size_le⟩ (by decide)
  exact ⟨t, n, res, t', hok, hres, hiff⟩

end ControlPlaneOthello

end Outback
