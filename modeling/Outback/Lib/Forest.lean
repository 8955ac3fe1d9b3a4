import Mathlib.Logic.Relation
import Mathlib.Order.BooleanAlgebra.Set

/-!
# `Lib.Forest` — multigraphs without cycles

A multigraph is a function `ends` from edges to pairs of nodes, and every statement is about a set `E` of its edges.
`Conn ends E` is connectedness by edges of `E`; `Forest ends E` says that every edge of `E` is a bridge, so there are
neither cycles nor loops nor parallel edges.

* `conn_insert` — what one more edge connects (`conn_insert_left`, `conn_insert_outside`: inside and outside its component);
* `Forest.insert` — an edge between two nodes that are not connected closes no cycle;
* `Forest.reindex` — the edges may be renumbered;
* `Forest.one_edge` — from a connected set of nodes at most one edge leads to a given node outside.
-/

namespace Outback.Lib

variable {N K K' : Type*} {ends : K → N × N} {ends' : K' → N × N} {E F : Set K} {e f : K} {a b x y z : N}

/-- The edge `e` joins `x` and `y`. -/
def Joins (ends : K → N × N) (e : K) (x y : N) : Prop := ends e = (x, y) ∨ ends e = (y, x)

theorem Joins.symm (h : Joins ends e x y) : Joins ends e y x := Or.symm h

theorem Joins.of_ends (ends : K → N × N) (e : K) : Joins ends e (ends e).1 (ends e).2 := .inl rfl

/-- An edge joins one pair of nodes only. -/
theorem Joins.unique (h : Joins ends e a b) (h' : Joins ends e x y) : (x = a ∧ y = b) ∨ (x = b ∧ y = a) := by
  unfold Joins at h h'
  rcases h with h | h
  · rw [h] at h'
    rcases h' with h' | h'
    · cases h'
      exact .inl ⟨rfl, rfl⟩
    · cases h'
      exact .inr ⟨rfl, rfl⟩
  · rw [h] at h'
    rcases h' with h' | h'
    · cases h'
      exact .inr ⟨rfl, rfl⟩
    · cases h'
      exact .inl ⟨rfl, rfl⟩

/-- The other end of an edge. -/
theorem Joins.right_unique (h : Joins ends e x y) (h' : Joins ends e x z) : z = y := by
  rcases h.unique h' with ⟨-, hz⟩ | ⟨hx, hz⟩
  · exact hz
  · exact hz.trans hx

/-! ## Connectedness -/

/-- `x` and `y` are connected by edges of `E`. -/
def Conn (ends : K → N × N) (E : Set K) : N → N → Prop :=
  Relation.ReflTransGen fun x y => ∃ e ∈ E, Joins ends e x y

theorem Conn.refl (x : N) : Conn ends E x x := Relation.ReflTransGen.refl

theorem Conn.edge (he : e ∈ E) (h : Joins ends e x y) : Conn ends E x y := Relation.ReflTransGen.single ⟨e, he, h⟩

theorem Conn.trans (h : Conn ends E x y) (h' : Conn ends E y z) : Conn ends E x z := Relation.ReflTransGen.trans h h'

theorem Conn.symm (h : Conn ends E x y) : Conn ends E y x := by
  induction h with
  | refl => exact .refl x
  | tail _ hedge ih =>
      obtain ⟨e, he, hj⟩ := hedge
      exact (Conn.edge he hj.symm).trans ih

theorem Conn.mono (hsub : E ⊆ F) (h : Conn ends E x y) : Conn ends F x y := by
  refine Relation.ReflTransGen.mono ?_ _ _ h
  rintro u v ⟨e, he, hj⟩
  exact ⟨e, hsub he, hj⟩

/-- Connectedness depends on the pairs that are joined only. -/
theorem Conn.of_ends {E' : Set K'} (hends : ∀ e ∈ E, ∃ e' ∈ E', ends' e' = ends e) (h : Conn ends E x y) :
    Conn ends' E' x y := by
  refine Relation.ReflTransGen.mono ?_ _ _ h
  rintro u v ⟨e, he, hj⟩
  obtain ⟨e', he', heq⟩ := hends e he
  exact ⟨e', he', by unfold Joins at hj ⊢; rwa [heq]⟩

/-- A set of nodes that no edge leaves holds what is connected to it. -/
theorem Conn.closed {D : Set N} (hD : ∀ e ∈ E, ∀ u v, Joins ends e u v → u ∈ D → v ∈ D) (h : Conn ends E x y)
    (hx : x ∈ D) : y ∈ D := by
  induction h with
  | refl => exact hx
  | tail _ hedge ih =>
      obtain ⟨e, he, hj⟩ := hedge
      exact hD e he _ _ hj ih

/-- Without edges nothing is connected. -/
theorem conn_empty : Conn ends ∅ x y ↔ x = y := by
  constructor
  · intro h
    exact (Conn.closed (D := {x}) (fun _ he => absurd he (Set.notMem_empty _)) h rfl).symm
  · rintro rfl
    exact .refl x

/-- **What one more edge connects.** -/
theorem conn_insert (h : Joins ends e a b) : Conn ends (insert e E) x y ↔
    Conn ends E x y ∨ (Conn ends E x a ∧ Conn ends E b y) ∨ (Conn ends E x b ∧ Conn ends E a y) := by
  have hsub : E ⊆ insert e E := Set.subset_insert e E
  have hedge : Conn ends (insert e E) a b := .edge (Set.mem_insert e E) h
  constructor
  · intro hxy
    induction hxy with
    | refl => exact .inl (.refl x)
    | tail _ hstep ih =>
        obtain ⟨f, hf, hj⟩ := hstep
        rcases Set.mem_insert_iff.mp hf with rfl | hf
        · -- the new edge: it is crossed from one of its ends to the other
          rcases h.unique hj with ⟨rfl, rfl⟩ | ⟨rfl, rfl⟩
          · rcases ih with hxa | ⟨hxa, -⟩ | ⟨hxb, -⟩
            · exact .inr (.inl ⟨hxa, .refl _⟩)
            · exact .inr (.inl ⟨hxa, .refl _⟩)
            · exact .inl hxb
          · rcases ih with hxb | ⟨hxa, -⟩ | ⟨hxb, -⟩
            · exact .inr (.inr ⟨hxb, .refl _⟩)
            · exact .inl hxa
            · exact .inr (.inr ⟨hxb, .refl _⟩)
        · have hlast := Conn.edge hf hj
          rcases ih with hold | ⟨hxa, hby⟩ | ⟨hxb, hay⟩
          · exact .inl (hold.trans hlast)
          · exact .inr (.inl ⟨hxa, hby.trans hlast⟩)
          · exact .inr (.inr ⟨hxb, hay.trans hlast⟩)
  · rintro (hold | ⟨hxa, hby⟩ | ⟨hxb, hay⟩)
    · exact hold.mono hsub
    · exact (hxa.mono hsub).trans (hedge.trans (hby.mono hsub))
    · exact (hxb.mono hsub).trans (hedge.symm.trans (hay.mono hsub))

/-- The component of an end of the new edge. -/
theorem conn_insert_left (h : Joins ends e a b) : Conn ends (insert e E) a y ↔ Conn ends E a y ∨ Conn ends E b y := by
  rw [conn_insert h]
  constructor
  · rintro (hay | ⟨-, hby⟩ | ⟨-, hay⟩)
    · exact .inl hay
    · exact .inr hby
    · exact .inl hay
  · rintro (hay | hby)
    · exact .inl hay
    · exact .inr (.inl ⟨.refl a, hby⟩)

/-- Outside that component the new edge connects nothing. -/
theorem conn_insert_outside (h : Joins ends e a b) (hx : ¬ Conn ends (insert e E) a x) :
    Conn ends (insert e E) x y ↔ Conn ends E x y := by
  rw [conn_insert_left h, not_or] at hx
  rw [conn_insert h]
  constructor
  · rintro (hxy | ⟨hxa, -⟩ | ⟨hxb, -⟩)
    · exact hxy
    · exact absurd hxa.symm hx.1
    · exact absurd hxb.symm hx.2
  · exact .inl

/-! ## Forests -/

/-- Every edge of `E` is a bridge. -/
def Forest (ends : K → N × N) (E : Set K) : Prop :=
  ∀ e ∈ E, ∀ x y, Joins ends e x y → ¬ Conn ends (E \ {e}) x y

theorem forest_empty : Forest ends (∅ : Set K) := fun _ he => absurd he (Set.notMem_empty _)

theorem Forest.mono (h : Forest ends F) (hsub : E ⊆ F) : Forest ends E := by
  intro e he x y hj hconn
  exact h e (hsub he) x y hj (hconn.mono (Set.sdiff_subset_sdiff_left hsub))

/-- **An edge between two nodes that are not connected closes no cycle.** -/
theorem Forest.insert (h : Forest ends E) (hj : Joins ends e a b) (hab : ¬ Conn ends E a b) :
    Forest ends (insert e E) := by
  intro f hf x y hjf hconn
  by_cases hfe : f = e
  · subst hfe
    have hold : Conn ends E x y := hconn.mono fun g hg => (Set.mem_insert_iff.mp hg.1).resolve_left hg.2
    rcases hj.unique hjf with ⟨rfl, rfl⟩ | ⟨rfl, rfl⟩
    · exact hab hold
    · exact hab hold.symm
  · have hfE : f ∈ E := (Set.mem_insert_iff.mp hf).resolve_left hfe
    have hsub : E \ {f} ⊆ E := Set.sdiff_subset
    have hxy : Conn ends E x y := .edge hfE hjf
    rw [← Set.insert_sdiff_singleton_comm (fun h => hfe h.symm), conn_insert hj] at hconn
    rcases hconn with hold | ⟨hxa, hby⟩ | ⟨hxb, hay⟩
    · exact h f hfE x y hjf hold
    · -- `a` and `b` would be connected through `f`
      exact hab ((hxa.mono hsub).symm.trans (hxy.trans (hby.mono hsub).symm))
    · exact hab ((hay.mono hsub).trans (hxy.symm.trans (hxb.mono hsub)))

/-- The edges of a forest may be renumbered. -/
theorem Forest.reindex {E' : Set K'} (h : Forest ends E) (r : K' → K) (hr : ∀ e ∈ E', r e ∈ E)
    (hinj : Set.InjOn r E') (hends : ∀ e ∈ E', ends (r e) = ends' e) : Forest ends' E' := by
  intro e he x y hj hconn
  refine h (r e) (hr e he) x y ?_ (hconn.of_ends ?_)
  · unfold Joins at hj ⊢
    rwa [hends e he]
  · rintro f ⟨hf, hfe⟩
    exact ⟨r f, ⟨hr f hf, fun heq => hfe (hinj hf he heq)⟩, hends f hf⟩

/-- The two ends of an edge fall apart without it. -/
theorem Forest.not_conn (h : Forest ends E) (he : e ∈ E) (hj : Joins ends e x y) : ¬ Conn ends (E \ {e}) x y :=
  h e he x y hj

/-! ## Connected sets of nodes -/

/-- The edges of `E` inside `D`. -/
def within (ends : K → N × N) (E : Set K) (D : Set N) : Set K := {e ∈ E | (ends e).1 ∈ D ∧ (ends e).2 ∈ D}

/-- `D` is connected by the edges inside it. -/
def Inside (ends : K → N × N) (E : Set K) (D : Set N) : Prop := ∀ x ∈ D, ∀ y ∈ D, Conn ends (within ends E D) x y

theorem within_mono {C D : Set N} (h : C ⊆ D) : within ends E C ⊆ within ends E D :=
  fun _ he => ⟨he.1, h he.2.1, h he.2.2⟩

theorem mem_within {D : Set N} (he : e ∈ E) (hj : Joins ends e x y) (hx : x ∈ D) (hy : y ∈ D) : e ∈ within ends E D := by
  refine ⟨he, ?_⟩
  rcases hj with hj | hj
  · rw [hj]
    exact ⟨hx, hy⟩
  · rw [hj]
    exact ⟨hy, hx⟩

theorem inside_singleton (x : N) : Inside ends E {x} := by
  rintro _ rfl _ rfl
  exact .refl _

/-- A connected set of nodes grows along an edge. -/
theorem Inside.insert {D : Set N} (h : Inside ends E D) (hx : x ∈ D) (he : e ∈ E) (hj : Joins ends e x y) :
    Inside ends E (insert y D) := by
  have hsub : within ends E D ⊆ within ends E (Insert.insert y D) := within_mono (Set.subset_insert y D)
  have hlast : Conn ends (within ends E (Insert.insert y D)) x y :=
    .edge (mem_within he hj (Set.mem_insert_of_mem y hx) (Set.mem_insert y D)) hj
  have htox : ∀ u ∈ Insert.insert y D, Conn ends (within ends E (Insert.insert y D)) u x := by
    intro u hu
    rcases Set.mem_insert_iff.mp hu with rfl | hu
    · exact hlast.symm
    · exact (h u hu x hx).mono hsub
  intro u hu v hv
  exact (htox u hu).trans (htox v hv).symm

/-- **At most one edge of a forest leads from a connected set to a given node outside.** -/
theorem Forest.one_edge {D : Set N} (h : Forest ends E) (hD : Inside ends E D) (hy : y ∉ D) (he : e ∈ E) (hf : f ∈ E)
    (hx : x ∈ D) (hz : z ∈ D) (hje : Joins ends e x y) (hjf : Joins ends f z y) : e = f := by
  by_contra hne
  have hsub : within ends E D ⊆ E \ {e} := by
    rintro g ⟨hg, hg1, hg2⟩
    refine ⟨hg, ?_⟩
    rintro rfl
    rcases hje with heq | heq
    · rw [heq] at hg2
      exact hy hg2
    · rw [heq] at hg1
      exact hy hg1
  -- `x` and `y` stay connected without `e`: inside `D`, then along `f`
  exact h e he x y hje (((hD x hx z hz).mono hsub).trans (.edge ⟨hf, fun heq => hne heq.symm⟩ hjf))

end Outback.Lib
