import Outback.Lib.Forest
import Mathlib.Data.Finset.Card

/-!
# `Lib.TreeSearch` — walking through a tree without marks

In a forest a search needs no marks on the nodes: it keeps a stack of nodes with the edge that each was reached by, and
from a node it crosses every edge but that one. `treeSearch` is this loop, with a `visit` at each node that it reaches;
the node that the search starts from is not visited, and one edge at it may be left out (`skip`).

`Frontier` is the loop invariant: the edges that lead out of the nodes reached so far are those that the stack still has
to cross. `treeSearch_rule` is the rule for the loop: it ends, it reaches the component of its start, and an invariant
that every visit of a fresh node keeps holds of the whole component in the end.
-/

namespace Outback.Lib

variable {N K σ ε : Type} [DecidableEq N] [DecidableEq K]

/-! ## The search -/

/-- The links of one node: each but the one it was reached by is crossed, and pushed. -/
def expand (visit : N → K → N → σ → σ) (prev : Option K) (x : N) :
    List (K × N) → List (Option K × N) → σ → List (Option K × N) × σ
  | [], stack, s => (stack, s)
  | (e, y) :: links, stack, s =>
      if some e = prev then expand visit prev x links stack s
      else expand visit prev x links ((some e, y) :: stack) (visit x e y s)

/-- The search, for at most `fuel` turns; `stuck` if there are more. -/
def treeSearch (links : N → Except ε (List (K × N))) (visit : N → K → N → σ → σ) (stuck : ε) :
    Nat → List (Option K × N) → σ → Except ε σ
  | 0, _, _ => .error stuck
  | _ + 1, [], s => .ok s
  | fuel + 1, (prev, x) :: stack, s => do
      let l ← links x
      let r := expand visit prev x l stack s
      treeSearch links visit stuck fuel r.1 r.2

/-! ## The frontier -/

variable {ends : K → N × N} {F : Set K} {start : N} {D : Finset N} {nodes : List N} {Todo : N → K → Prop} {x y : N} {e : K}

/-- The nodes `D` have been reached from `start`, those of `nodes` are still to be expanded, and `Todo u f` are the edges
    that are still to be crossed. -/
structure Frontier (ends : K → N × N) (F : Set K) (start : N) (D : Finset N) (nodes : List N) (Todo : N → K → Prop) :
    Prop where
  start_mem : start ∈ D
  inside : Inside ends F ↑D
  nodes_mem : ∀ u ∈ nodes, u ∈ D
  nodup : nodes.Nodup
  todo_mem : ∀ u f, Todo u f → u ∈ nodes
  todo : ∀ u ∈ D, ∀ f ∈ F, ∀ z, Joins ends f u z → (z ∉ D ↔ Todo u f)

omit [DecidableEq N] [DecidableEq K] in
theorem Frontier.conn (h : Frontier ends F start D nodes Todo) {u : N} (hu : u ∈ D) : Conn ends F start u :=
  (h.inside start h.start_mem u hu).mono fun _ he => he.1

omit [DecidableEq N] [DecidableEq K] in
/-- The same edges, described otherwise; nodes that are done may leave the list. -/
theorem Frontier.congr {nodes' : List N} {Todo' : N → K → Prop} (h : Frontier ends F start D nodes Todo)
    (hsub : nodes'.Sublist nodes) (hmem : ∀ u f, Todo' u f → u ∈ nodes')
    (hiff : ∀ u ∈ D, ∀ f ∈ F, ∀ z, Joins ends f u z → (Todo u f ↔ Todo' u f)) :
    Frontier ends F start D nodes' Todo' where
  start_mem := h.start_mem
  inside := h.inside
  nodes_mem := fun u hu => h.nodes_mem u (hsub.subset hu)
  nodup := h.nodup.sublist hsub
  todo_mem := hmem
  todo := fun u hu f hf z hj => (h.todo u hu f hf z hj).trans (hiff u hu f hf z hj)

omit [DecidableEq N] [DecidableEq K] in
/-- Where nothing is left to be crossed the whole component has been reached. -/
theorem Frontier.done (h : Frontier ends F start D nodes Todo) (hnone : ∀ u f, ¬ Todo u f) :
    x ∈ D ↔ Conn ends F start x := by
  constructor
  · exact h.conn
  · intro hconn
    refine hconn.closed (D := {u | u ∈ D}) (fun f hf u z hj hu => ?_) h.start_mem
    by_contra hz
    exact hnone u f ((h.todo u hu f hf z hj).mp hz)

omit [DecidableEq K] in
/-- **One edge is crossed.** The node it leads to is fresh, and no other edge led to it. -/
theorem Frontier.visit (h : Frontier ends F start D nodes Todo) (hF : Forest ends F) (he : e ∈ F)
    (hj : Joins ends e x y) (hx : x ∈ D) (htodo : Todo x e) :
    y ∉ D ∧ (∀ f ∈ F, ∀ z ∈ D, Joins ends f z y → f = e) ∧
      Frontier ends F start (insert y D) (y :: nodes)
        (fun u f => (u = y ∧ f ≠ e) ∨ (Todo u f ∧ ¬(u = x ∧ f = e))) := by
  have hy : y ∉ D := (h.todo x hx e he y hj).mpr htodo
  have honly : ∀ f ∈ F, ∀ z ∈ D, Joins ends f z y → f = e := fun f hf z hz hjf =>
    (hF.one_edge h.inside hy he hf hx hz hj hjf).symm
  refine ⟨hy, honly, ?_⟩
  constructor
  · exact Finset.mem_insert_of_mem h.start_mem
  · rw [Finset.coe_insert]
    exact h.inside.insert hx he hj
  · intro u hu
    rcases List.mem_cons.mp hu with rfl | hu
    · exact Finset.mem_insert_self _ _
    · exact Finset.mem_insert_of_mem (h.nodes_mem u hu)
  · exact List.nodup_cons.mpr ⟨fun hmem => hy (h.nodes_mem y hmem), h.nodup⟩
  · rintro u f (⟨rfl, -⟩ | ⟨hu, -⟩)
    · exact List.mem_cons_self
    · exact List.mem_cons_of_mem y (h.todo_mem u f hu)
  · intro u hu f hf z hjf
    by_cases huy : u = y
    · -- the new node: its other edges lead on
      subst huy
      have hnot : ¬ Todo u f := fun ht => hy (h.nodes_mem u (h.todo_mem u f ht))
      constructor
      · intro hz
        refine .inl ⟨rfl, ?_⟩
        rintro rfl
        obtain rfl := hj.symm.right_unique hjf
        exact hz (Finset.mem_insert_of_mem hx)
      · rintro (⟨-, hfe⟩ | ⟨ht, -⟩)
        · rw [Finset.mem_insert]
          rintro (rfl | hz)
          · exact hF f hf z z hjf (.refl z)
          · exact hfe (honly f hf z hz hjf.symm)
        · exact absurd ht hnot
    · have huD : u ∈ D := (Finset.mem_insert.mp hu).resolve_left huy
      have hold := h.todo u huD f hf z hjf
      constructor
      · intro hz
        refine .inr ⟨hold.mp fun hzD => hz (Finset.mem_insert_of_mem hzD), ?_⟩
        rintro ⟨rfl, rfl⟩
        obtain rfl := hj.right_unique hjf
        exact hz (Finset.mem_insert_self _ _)
      · rintro (⟨rfl, -⟩ | ⟨ht, hne⟩)
        · exact absurd rfl huy
        · rw [Finset.mem_insert]
          rintro (rfl | hz)
          · obtain rfl := honly f hf u huD hjf
            exact hne ⟨hj.symm.right_unique hjf.symm, rfl⟩
          · exact hold.mpr ht hz

/-! ## The loop -/

/-- The edges that the nodes on the stack have to cross. -/
def stackTodo (stack : List (Option K × N)) (u : N) (f : K) : Prop := ∃ p ∈ stack, p.2 = u ∧ some f ≠ p.1

variable {I : Finset N → σ → Prop} {visit : N → K → N → σ → σ} {prev skip : Option K}

/-- A visit of a fresh node keeps the invariant. -/
def Visits (ends : K → N × N) (F : Set K) (start : N) (I : Finset N → σ → Prop) (visit : N → K → N → σ → σ) : Prop :=
  ∀ D s x e y, start ∈ D → (∀ d ∈ D, Conn ends F start d) → x ∈ D → y ∉ D → e ∈ F → Joins ends e x y →
    (∀ f ∈ F, ∀ z ∈ D, Joins ends f z y → f = e) → I D s → I (insert y D) (visit x e y s)

/-- **One turn.** Every link of the node is crossed, and as many nodes are pushed as are reached. -/
theorem expand_spec (hF : Forest ends F) (hI : Visits ends F start I visit) :
    ∀ (l : List (K × N)) (D : Finset N) (stack : List (Option K × N)) (s : σ),
      Frontier ends F start D (x :: stack.map Prod.snd)
        (fun u f => (u = x ∧ f ∈ l.map Prod.fst ∧ some f ≠ prev) ∨ stackTodo stack u f) →
      (l.map Prod.fst).Nodup → (∀ p ∈ l, some p.1 ≠ prev → p.1 ∈ F ∧ Joins ends p.1 x p.2) →
      (∀ p ∈ stack, p.2 = start → p.1 = skip) → I D s →
      ∃ D', Frontier ends F start D' (x :: (expand visit prev x l stack s).1.map Prod.snd)
          (stackTodo (expand visit prev x l stack s).1) ∧
        (∀ p ∈ (expand visit prev x l stack s).1, p.2 = start → p.1 = skip) ∧
        I D' (expand visit prev x l stack s).2 ∧
        D'.card + stack.length = D.card + (expand visit prev x l stack s).1.length := by
  intro l
  induction l with
  | nil =>
      intro D stack s hfront _ _ hstart hs
      refine ⟨D, hfront.congr (List.Sublist.refl _) ?_ ?_, hstart, hs, rfl⟩
      · rintro u f ⟨p, hp, rfl, -⟩
        exact List.mem_cons_of_mem x (List.mem_map_of_mem hp)
      · intro u _ f _ z _
        constructor
        · rintro (⟨-, hmem, -⟩ | ht)
          · exact absurd hmem List.not_mem_nil
          · exact ht
        · exact .inr
  | cons p l ih =>
      intro D stack s hfront hnodup hlinks hstart hs
      obtain ⟨e, y⟩ := p
      have hnodup' : (l.map Prod.fst).Nodup := (List.nodup_cons.mp hnodup).2
      have hfresh : e ∉ l.map Prod.fst := (List.nodup_cons.mp hnodup).1
      have hlinks' : ∀ p ∈ l, some p.1 ≠ prev → p.1 ∈ F ∧ Joins ends p.1 x p.2 :=
        fun p hp => hlinks p (List.mem_cons_of_mem _ hp)
      have hmem : ∀ u f, (u = x ∧ f ∈ l.map Prod.fst ∧ some f ≠ prev) ∨ stackTodo stack u f →
          u ∈ x :: stack.map Prod.snd := by
        rintro u f (⟨rfl, -⟩ | ⟨q, hq, rfl, -⟩)
        · exact List.mem_cons_self
        · exact List.mem_cons_of_mem x (List.mem_map_of_mem hq)
      rw [expand]
      by_cases hprev : some e = prev
      · rw [if_pos hprev]
        refine ih D stack s (hfront.congr (List.Sublist.refl _) hmem ?_) hnodup' hlinks' hstart hs
        intro u _ f _ z _
        refine or_congr_left (and_congr_right fun _ => ?_)
        constructor
        · rintro ⟨hf, hne⟩
          refine ⟨(List.mem_cons.mp hf).resolve_left ?_, hne⟩
          rintro rfl
          exact hne hprev
        · rintro ⟨hf, hne⟩
          exact ⟨List.mem_cons_of_mem e hf, hne⟩
      · rw [if_neg hprev]
        obtain ⟨he, hj⟩ := hlinks (e, y) List.mem_cons_self hprev
        have hx : x ∈ D := hfront.nodes_mem x List.mem_cons_self
        obtain ⟨hy, honly, hnext⟩ := hfront.visit hF he hj hx (.inl ⟨rfl, List.mem_cons_self, hprev⟩)
        have hxy : x ≠ y := by
          rintro rfl
          exact hy hx
        -- `x` is not on the stack: what is left to be crossed at `x` are the other links
        have hxstack : x ∉ stack.map Prod.snd := (List.nodup_cons.mp hfront.nodup).1
        have hstart' : ∀ p ∈ (some e, y) :: stack, p.2 = start → p.1 = skip := by
          intro p hp hpstart
          rcases List.mem_cons.mp hp with rfl | hp
          · obtain rfl : y = start := hpstart
            exact absurd hfront.start_mem hy
          · exact hstart p hp hpstart
        have hfront₂ : Frontier ends F start (insert y D) (x :: ((some e, y) :: stack).map Prod.snd)
            (fun u f => (u = x ∧ f ∈ l.map Prod.fst ∧ some f ≠ prev) ∨ stackTodo ((some e, y) :: stack) u f) := by
          have hperm : (x :: y :: stack.map Prod.snd).Perm (y :: x :: stack.map Prod.snd) := List.Perm.swap y x _
          refine ⟨hnext.start_mem, hnext.inside, fun u hu => hnext.nodes_mem u (hperm.mem_iff.mp hu),
            hperm.nodup_iff.mpr hnext.nodup, ?_, fun u hu f hf z hjf => (hnext.todo u hu f hf z hjf).trans ?_⟩
          · rintro u f (⟨rfl, -⟩ | ⟨q, hq, rfl, -⟩)
            · exact List.mem_cons_self
            · exact List.mem_cons_of_mem x (List.mem_map_of_mem hq)
          · constructor
            · rintro (⟨rfl, hfe⟩ | ⟨⟨rfl, hf', hne⟩ | ⟨q, hq, rfl, hne⟩, hnot⟩)
              · exact .inr ⟨(some e, u), List.mem_cons_self, rfl, fun heq => hfe (Option.some.inj heq)⟩
              · exact .inl ⟨rfl, (List.mem_cons.mp hf').resolve_left fun heq => hnot ⟨rfl, heq⟩, hne⟩
              · exact .inr ⟨q, List.mem_cons_of_mem _ hq, rfl, hne⟩
            · rintro (⟨rfl, hf', hne⟩ | ⟨q, hq, rfl, hne⟩)
              · refine .inr ⟨.inl ⟨rfl, List.mem_cons_of_mem e hf', hne⟩, ?_⟩
                rintro ⟨-, rfl⟩
                exact hfresh hf'
              · rcases List.mem_cons.mp hq with rfl | hq
                · exact .inl ⟨rfl, fun heq => hne (congrArg some heq)⟩
                · refine .inr ⟨.inr ⟨q, hq, rfl, hne⟩, ?_⟩
                  rintro ⟨heq, -⟩
                  exact hxstack (heq ▸ List.mem_map_of_mem hq)
        have hs₂ := hI D s x e y hfront.start_mem (fun d hd => hfront.conn hd) hx hy he hj honly hs
        obtain ⟨D', hfront', hstart'', hs', hcard⟩ := ih _ _ _ hfront₂ hnodup' hlinks' hstart' hs₂
        refine ⟨D', hfront', hstart'', hs', ?_⟩
        rw [Finset.card_insert_of_notMem hy, List.length_cons] at hcard
        omega

/-! ## The whole search -/

/-- The links of the nodes that are connected to `start` are their edges; at `start` the edge `skip` is among them. -/
def LinksOf (ends : K → N × N) (F : Set K) (start : N) (skip : Option K) (links : N → Except ε (List (K × N))) : Prop :=
  ∀ x, Conn ends F start x → ∃ l, links x = .ok l ∧ (l.map Prod.fst).Nodup ∧
    ∀ e y, (e, y) ∈ l ↔ Joins ends e x y ∧ (e ∈ F ∨ (some e = skip ∧ x = start))

theorem treeSearch_spec {links : N → Except ε (List (K × N))} {stuck : ε} {V : Finset N} (hF : Forest ends F)
    (hV : ∀ x, Conn ends F start x → x ∈ V) (hlinks : LinksOf ends F start skip links)
    (hI : Visits ends F start I visit) :
    ∀ (fuel : Nat) (D : Finset N) (stack : List (Option K × N)) (s : σ),
      Frontier ends F start D (stack.map Prod.snd) (stackTodo stack) → (∀ p ∈ stack, p.2 = start → p.1 = skip) →
      I D s → V.card + stack.length < fuel + D.card →
      ∃ s' D', treeSearch links visit stuck fuel stack s = .ok s' ∧ I D' s' ∧ ∀ x, x ∈ D' ↔ Conn ends F start x := by
  intro fuel
  induction fuel with
  | zero =>
      intro D stack s hfront _ _ hfuel
      have hle : D.card ≤ V.card := Finset.card_le_card fun x hx => hV x (hfront.conn hx)
      omega
  | succ fuel ih =>
      intro D stack s hfront hstart hs hfuel
      cases stack with
      | nil =>
          refine ⟨s, D, rfl, hs, fun x => hfront.done ?_⟩
          rintro u f ⟨p, hp, -⟩
          exact List.not_mem_nil hp
      | cons p stack =>
          obtain ⟨prev, x⟩ := p
          have hx : x ∈ D := hfront.nodes_mem x List.mem_cons_self
          obtain ⟨l, hl, hnodup, hmem⟩ := hlinks x (hfront.conn hx)
          have hcur : ∀ p ∈ l, some p.1 ≠ prev → p.1 ∈ F ∧ Joins ends p.1 x p.2 := by
            intro p hp hne
            obtain ⟨hj, he | ⟨hskip, rfl⟩⟩ := (hmem p.1 p.2).mp hp
            · exact ⟨he, hj⟩
            · exact absurd (hskip.trans (hstart (prev, x) List.mem_cons_self rfl).symm) hne
          have hfront₂ : Frontier ends F start D (x :: stack.map Prod.snd)
              (fun u f => (u = x ∧ f ∈ l.map Prod.fst ∧ some f ≠ prev) ∨ stackTodo stack u f) := by
            refine hfront.congr (List.Sublist.refl _) ?_ ?_
            · rintro u f (⟨rfl, -⟩ | ⟨q, hq, rfl, -⟩)
              · exact List.mem_cons_self
              · exact List.mem_cons_of_mem x (List.mem_map_of_mem hq)
            · intro u hu f hf z hj
              constructor
              · rintro ⟨q, hq, rfl, hne⟩
                rcases List.mem_cons.mp hq with rfl | hq
                · exact .inl ⟨rfl, List.mem_map_of_mem ((hmem f z).mpr ⟨hj, .inl hf⟩), hne⟩
                · exact .inr ⟨q, hq, rfl, hne⟩
              · rintro (⟨rfl, -, hne⟩ | ⟨q, hq, rfl, hne⟩)
                · exact ⟨(prev, u), List.mem_cons_self, rfl, hne⟩
                · exact ⟨q, List.mem_cons_of_mem _ hq, rfl, hne⟩
          obtain ⟨D', hfront', hstart', hs', hcard⟩ := expand_spec hF hI l D stack s hfront₂ hnodup hcur
            (fun p hp => hstart p (List.mem_cons_of_mem _ hp)) hs
          have hfront₃ : Frontier ends F start D' ((expand visit prev x l stack s).1.map Prod.snd)
              (stackTodo (expand visit prev x l stack s).1) := by
            refine hfront'.congr (List.sublist_cons_self x _) ?_ fun _ _ _ _ _ _ => Iff.rfl
            rintro u f ⟨q, hq, rfl, -⟩
            exact List.mem_map_of_mem hq
          rw [List.length_cons] at hfuel
          obtain ⟨s', D'', hok, hrest⟩ := ih D' _ _ hfront₃ hstart' hs' (by omega)
          refine ⟨s', D'', ?_, hrest⟩
          rw [treeSearch, hl]
          exact hok

/-- **The rule of the search.** In a forest it ends, within as many turns as there are nodes, and what holds of its start
    alone and is kept by every visit of a fresh node holds of the component of its start. -/
theorem treeSearch_rule {links : N → Except ε (List (K × N))} {stuck : ε} {V : Finset N} {fuel : Nat} {s : σ}
    (hF : Forest ends F) (hV : ∀ x, Conn ends F start x → x ∈ V) (hskip : ∀ e ∈ F, some e ≠ skip)
    (hlinks : LinksOf ends F start skip links) (hI : Visits ends F start I visit) (hs : I {start} s)
    (hfuel : V.card < fuel) :
    ∃ s' D, treeSearch links visit stuck fuel [(skip, start)] s = .ok s' ∧ I D s' ∧ ∀ x, x ∈ D ↔ Conn ends F start x := by
  have hfront : Frontier ends F start {start} [start] (stackTodo [(skip, start)]) := by
    constructor
    · exact Finset.mem_singleton_self start
    · rw [Finset.coe_singleton]
      exact inside_singleton start
    · intro u hu
      rw [List.mem_singleton.mp hu]
      exact Finset.mem_singleton_self start
    · exact List.nodup_singleton start
    · rintro u f ⟨p, hp, rfl, -⟩
      rw [List.mem_singleton.mp hp]
      exact List.mem_cons_self
    · intro u hu f hf z hj
      rw [Finset.mem_singleton] at hu
      subst hu
      constructor
      · intro _
        exact ⟨(skip, u), List.mem_cons_self, rfl, hskip f hf⟩
      · rintro - hz
        rw [Finset.mem_singleton] at hz
        subst hz
        exact hF f hf z z hj (.refl z)
  refine treeSearch_spec hF hV hlinks hI fuel {start} _ s hfront ?_ hs ?_
  · intro p hp _
    rw [List.mem_singleton.mp hp]
  · rw [Finset.card_singleton, List.length_singleton]
    omega

end Outback.Lib
