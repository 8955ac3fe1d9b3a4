import Outback.Lib.XorLabels
import Outback.Othello.ControlPlane

/-!
# `Othello.Correctness.Trees` — the edges of an Othello and the searches through them

`ends` are the two nodes of each key. `Linked` says of a set of keys that the linked lists hold exactly these edges and that
they form a forest; `Joined` that the disjoint set has its components; `Filled` that the cells give every key its value
and its index. Each search of the control plane is the search through a tree of `Lib.TreeSearch`: over all edges
(`search_all`), or over all but one, from an end of that one (`search_half`).
-/

namespace Outback

namespace ControlPlaneOthello

variable (H : HashFn) (L : Nat)

/-- The two nodes of the key at an index. -/
def ends (t : ControlPlaneOthello) (i : Nat) : Nat × Nat := t.getIndices H (t.keys i)

/-- There are nodes, and their numbers are 32-bit words. -/
structure Sized (t : ControlPlaneOthello) : Prop where
  ma_pos : 0 < t.ma
  mb_pos : 0 < t.mb
  nodes_lt : t.ma + t.mb < 2 ^ 32
  keys_lt : t.keysSize < 2 ^ 32

/-- The lists hold the edges of the keys `E`, and these form a forest. -/
structure Linked (t : ControlPlaneOthello) (E : Set Nat) : Prop where
  listsA : Lib.Listed t.nextAtA t.head {x | x < t.ma} (fun i => (t.ends H i).1) (fun i => (t.ends H i).2) E
  listsB : Lib.Listed t.nextAtB t.head {x | t.ma ≤ x} (fun i => (t.ends H i).2) (fun i => (t.ends H i).1) E
  forest : Lib.Forest (t.ends H) E
  bound : ∀ i ∈ E, i < t.keysSize

/-- The disjoint set has the components of the edges `E`. -/
structure Joined (t : ControlPlaneOthello) (E : Set Nat) : Prop where
  wf : t.connectivityForest.Wf (t.ma + t.mb)
  same : ∀ x y, Lib.Same t.connectivityForest x y ↔ Lib.Conn (t.ends H) E x y

/-- The value of a node's cell. -/
def cell (t : ControlPlaneOthello) (x : Nat) : U64 := memGet L 0 t.mem x

/-- The cells give every key of `E` its value and its index. -/
structure Filled (t : ControlPlaneOthello) (E : Set Nat) : Prop where
  value : Lib.Fits (t.ends H) E (t.cell L) (fun i => t.values i &&& lowMask L)
  index : Lib.Fits (t.ends H) E t.indMem (fun i => BitVec.ofNat 32 i)

variable {H L} {t : ControlPlaneOthello} {E : Set Nat} {x y i k : Nat}

theorem Sized.fst_lt (h : t.Sized) (i : Nat) : (t.ends H i).1 < t.ma := t.getIndices_fst_lt H _ h.ma_pos

theorem Sized.le_snd (h : t.Sized) (i : Nat) : t.ma ≤ (t.ends H i).2 := (t.getIndices_snd H _ h.mb_pos).1

theorem Sized.snd_lt (h : t.Sized) (i : Nat) : (t.ends H i).2 < t.ma + t.mb := (t.getIndices_snd H _ h.mb_pos).2

/-- The ends of an edge, from the side of array A. -/
theorem Sized.joins_of_lt (h : t.Sized) (hx : x < t.ma) :
    Lib.Joins (t.ends H) i x y ↔ (t.ends H i).1 = x ∧ (t.ends H i).2 = y := by
  constructor
  · rintro (heq | heq)
    · rw [heq]
      exact ⟨rfl, rfl⟩
    · have := h.le_snd (H := H) i
      rw [heq] at this
      exact absurd this (Nat.not_le.mpr hx)
  · rintro ⟨rfl, rfl⟩
    exact .inl rfl

/-- The ends of an edge, from the side of array B. -/
theorem Sized.joins_of_le (h : t.Sized) (hx : t.ma ≤ x) :
    Lib.Joins (t.ends H) i x y ↔ (t.ends H i).2 = x ∧ (t.ends H i).1 = y := by
  constructor
  · rintro (heq | heq)
    · have := h.fst_lt (H := H) i
      rw [heq] at this
      exact absurd this (Nat.not_lt.mpr hx)
    · rw [heq]
      exact ⟨rfl, rfl⟩
  · rintro ⟨rfl, rfl⟩
    exact .inr rfl

/-- The nodes of an edge are nodes. -/
theorem Sized.joins_lt (h : t.Sized) (hj : Lib.Joins (t.ends H) i x y) : x < t.ma + t.mb := by
  have h1 := h.fst_lt (H := H) i
  have h2 := h.snd_lt (H := H) i
  rcases hj with heq | heq
  · rw [heq] at h1
    exact Nat.lt_add_right _ h1
  · rw [heq] at h2
    exact h2

theorem Sized.conn_lt (h : t.Sized) (hx : x < t.ma + t.mb) (hconn : Lib.Conn (t.ends H) E x y) : y < t.ma + t.mb :=
  hconn.closed (D := {z | z < t.ma + t.mb}) (fun _ _ _ _ hj _ => h.joins_lt hj.symm) hx

/-- **The list at a node** holds the edges at the node. -/
theorem Linked.list_at (h : t.Linked H E) (hs : t.Sized) (x : Nat) :
    ∃ l, Lib.Chain (if x < t.ma then t.nextAtA else t.nextAtB) (t.head x) l ∧ (l.map Prod.fst).Nodup ∧
      ∀ i y, (i, y) ∈ l ↔ i ∈ E ∧ Lib.Joins (t.ends H) i x y := by
  by_cases hx : x < t.ma
  · obtain ⟨l, hl, hnodup, hmem⟩ := h.listsA x hx
    refine ⟨l, by rwa [if_pos hx], hnodup, fun i y => ?_⟩
    rw [hmem, hs.joins_of_lt hx]
  · obtain ⟨l, hl, hnodup, hmem⟩ := h.listsB x (Nat.not_lt.mp hx)
    refine ⟨l, by rwa [if_neg hx], hnodup, fun i y => ?_⟩
    rw [hmem, hs.joins_of_le (Nat.not_lt.mp hx)]

/-- Walking the list of a node. -/
theorem Linked.cells_eq (h : t.Linked H E) (hs : t.Sized) (x : Nat) :
    ∃ l, t.cells x = .ok l ∧ (l.map Prod.fst).Nodup ∧ ∀ i y, (i, y) ∈ l ↔ i ∈ E ∧ Lib.Joins (t.ends H) i x y := by
  obtain ⟨l, hl, hnodup, hmem⟩ := h.list_at hs x
  have hlen : l.length ≤ (Finset.range t.keysSize).card :=
    Lib.length_le_card (fun i hi => Finset.mem_range.mpr (h.bound i hi)) hnodup fun p hp => ((hmem p.1 p.2).mp hp).1
  rw [Finset.card_range] at hlen
  exact ⟨l, hl.walk_eq (Nat.lt_succ_of_le hlen), hnodup, hmem⟩

/-! ## Tables with the same edges -/

section Transport

variable {t' : ControlPlaneOthello}

theorem conn_congr (hends : ∀ i ∈ E, t'.ends H i = t.ends H i) :
    Lib.Conn (t'.ends H) E x y ↔ Lib.Conn (t.ends H) E x y := by
  constructor
  · exact fun hc => hc.of_ends fun i hi => ⟨i, hi, (hends i hi).symm⟩
  · exact fun hc => hc.of_ends fun i hi => ⟨i, hi, hends i hi⟩

theorem Linked.transport (h : t.Linked H E) (hma : t'.ma = t.ma) (hhead : t'.head = t.head)
    (hA : ∀ i ∈ E, t'.nextAtA i = t.nextAtA i) (hB : ∀ i ∈ E, t'.nextAtB i = t.nextAtB i)
    (hends : ∀ i ∈ E, t'.ends H i = t.ends H i) (hbound : ∀ i ∈ E, i < t'.keysSize) : t'.Linked H E where
  listsA := by
    rw [hma, hhead]
    exact h.listsA.congr (fun _ _ => rfl) hA (fun i hi => congrArg Prod.fst (hends i hi))
      fun i hi => congrArg Prod.snd (hends i hi)
  listsB := by
    rw [hma, hhead]
    exact h.listsB.congr (fun _ _ => rfl) hB (fun i hi => congrArg Prod.snd (hends i hi))
      fun i hi => congrArg Prod.fst (hends i hi)
  forest := h.forest.reindex id (fun _ hi => hi) (fun _ _ _ _ heq => heq) fun i hi => (hends i hi).symm
  bound := hbound

theorem Joined.transport (h : t.Joined H E) (hma : t'.ma = t.ma) (hmb : t'.mb = t.mb)
    (hforest : t'.connectivityForest = t.connectivityForest) (hends : ∀ i ∈ E, t'.ends H i = t.ends H i) : t'.Joined H E where
  wf := by
    rw [hma, hmb, hforest]
    exact h.wf
  same := by
    intro x y
    rw [hforest, conn_congr hends]
    exact h.same x y

theorem Filled.transport (h : t.Filled H L E) (hmem : t'.mem = t.mem) (hind : t'.indMem = t.indMem)
    (hends : ∀ i ∈ E, t'.ends H i = t.ends H i) (hvalues : ∀ i ∈ E, t'.values i = t.values i) : t'.Filled H L E where
  value := by
    intro i hi
    unfold cell
    dsimp only
    rw [hends i hi, hmem, hvalues i hi]
    exact h.value i hi
  index := by
    intro i hi
    rw [hends i hi, hind]
    exact h.index i hi

end Transport

/-! ## Searches -/

section Search

variable {σ : Type} {I : Finset Nat → σ → Prop} {visit : Nat → Nat → Nat → σ → σ} {start : Nat} {s : σ}

/-- A search over all edges. -/
theorem Linked.search_all (h : t.Linked H E) (hs : t.Sized) (hstart : start < t.ma + t.mb)
    (hI : Lib.Visits (t.ends H) E start I visit) (h0 : I {start} s) :
    ∃ s' D, Lib.treeSearch t.cells visit .othello t.turns [(none, start)] s = .ok s' ∧ I D s' ∧
      ∀ x, x ∈ D ↔ Lib.Conn (t.ends H) E start x := by
  refine Lib.treeSearch_rule (V := Finset.range (t.ma + t.mb)) h.forest ?_ (fun _ _ => Option.some_ne_none _) ?_ hI h0 ?_
  · intro x hx
    exact Finset.mem_range.mpr (hs.conn_lt hstart hx)
  · intro x _
    obtain ⟨l, hl, hnodup, hmem⟩ := h.cells_eq hs x
    refine ⟨l, hl, hnodup, fun e y => ?_⟩
    rw [hmem]
    constructor
    · rintro ⟨he, hj⟩
      exact ⟨hj, .inl he⟩
    · rintro ⟨hj, he | ⟨hnone, -⟩⟩
      · exact ⟨he, hj⟩
      · cases hnone
  · rw [Finset.card_range]
    exact Nat.lt_succ_self _

/-- A search over all edges but `k`, from an end of `k`. -/
theorem Linked.search_half (h : t.Linked H E) (hs : t.Sized) (hk : k ∈ E) (hj : Lib.Joins (t.ends H) k start y)
    (hI : Lib.Visits (t.ends H) (E \ {k}) start I visit) (h0 : I {start} s) :
    ∃ s' D, Lib.treeSearch t.cells visit .othello t.turns [(some k, start)] s = .ok s' ∧ I D s' ∧
      ∀ x, x ∈ D ↔ Lib.Conn (t.ends H) (E \ {k}) start x := by
  refine Lib.treeSearch_rule (V := Finset.range (t.ma + t.mb)) (h.forest.mono Set.sdiff_subset) ?_ ?_ ?_ hI h0 ?_
  · intro x hx
    exact Finset.mem_range.mpr (hs.conn_lt (hs.joins_lt hj) hx)
  · rintro e ⟨-, hne⟩ heq
    exact hne (Option.some.inj heq)
  · intro x hx
    obtain ⟨l, hl, hnodup, hmem⟩ := h.cells_eq hs x
    refine ⟨l, hl, hnodup, fun e z => ?_⟩
    rw [hmem]
    constructor
    · rintro ⟨he, hje⟩
      refine ⟨hje, ?_⟩
      by_cases hek : e = k
      · -- the other end of `k` is not connected to this one
        subst hek
        refine .inr ⟨rfl, ?_⟩
        rcases hj.unique hje with ⟨rfl, -⟩ | ⟨rfl, -⟩
        · rfl
        · exact absurd hx (h.forest.not_conn hk hj)
      · exact .inl ⟨he, hek⟩
    · rintro ⟨hje, ⟨he, -⟩ | ⟨heq, -⟩⟩
      · exact ⟨he, hje⟩
      · obtain rfl := Option.some.inj heq
        exact ⟨hk, hje⟩
  · rw [Finset.card_range]
    exact Nat.lt_succ_self _

end Search

end ControlPlaneOthello

end Outback
