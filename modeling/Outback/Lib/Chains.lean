import Mathlib.Logic.Function.Basic
import Mathlib.Data.List.Nodup
import Mathlib.Data.Finset.Card
import Mathlib.Order.BooleanAlgebra.Set

/-!
# `Lib.Chains` — linked lists in arrays of pointers

A cell is a key with a value, and `next` gives the cell after each key: lists that share one array of pointers. `Chain
next c l` says that the list `l` starts with the cell `c`. Lists are walked (`walk`), grow at the front, and change in
the middle: the pointer to one cell is redirected (`redirect`), to what follows it or to a cell in its place.

`Listed` is the whole array: the nodes of one side head disjoint lists, and the list at a node holds the edges at it.
`Listed.push`, `Listed.unlink` and `Listed.rename` are what the operations do to the set of edges.
-/

namespace Outback.Lib

variable {N K ε : Type} {next next' : K → Option (K × N)} {c c' : Option (K × N)} {l l' : List (K × N)} {k : K} {y : N}

/-! ## Lists and the walk along them -/

/-- The list `l` starts with the cell `c`. -/
def Chain (next : K → Option (K × N)) : Option (K × N) → List (K × N) → Prop
  | c, [] => c = none
  | c, p :: l => c = some p ∧ Chain next (next p.1) l

/-- Walking the list. -/
def walk (next : K → Option (K × N)) (stuck : ε) : Nat → Option (K × N) → Except ε (List (K × N))
  | 0, _ => .error stuck
  | _ + 1, none => .ok []
  | fuel + 1, some p => do
      let l ← walk next stuck fuel (next p.1)
      .ok (p :: l)

/-- Pointers of other lists do not matter. -/
theorem Chain.congr (h : Chain next c l) (hsame : ∀ p ∈ l, next' p.1 = next p.1) : Chain next' c l := by
  induction l generalizing c with
  | nil => exact h
  | cons p l ih =>
      refine ⟨h.1, ?_⟩
      rw [hsame p List.mem_cons_self]
      exact ih h.2 fun q hq => hsame q (List.mem_cons_of_mem p hq)

/-- A list is walked to its end. -/
theorem Chain.walk_eq {stuck : ε} {fuel : Nat} (h : Chain next c l) (hfuel : l.length < fuel) :
    walk next stuck fuel c = .ok l := by
  induction l generalizing c fuel with
  | nil =>
      obtain rfl := h
      cases fuel with
      | zero => exact absurd hfuel (Nat.not_lt_zero _)
      | succ fuel => rfl
  | cons p l ih =>
      obtain ⟨rfl, h⟩ := h
      cases fuel with
      | zero => exact absurd hfuel (Nat.not_lt_zero _)
      | succ fuel =>
          rw [walk, ih h (Nat.lt_of_succ_lt_succ hfuel)]
          rfl

/-- The list after one of its cells. -/
theorem Chain.after {p : K × N} : ∀ {pre : List (K × N)} {c : Option (K × N)} {post : List (K × N)},
    Chain next c (pre ++ p :: post) → Chain next (next p.1) post := by
  intro pre
  induction pre with
  | nil =>
      intro c post h
      exact h.2
  | cons q pre ih =>
      intro c post h
      exact ih h.2

/-! ## A cell in front -/

section Redirect

variable [DecidableEq K]

/-- A new cell at the front. -/
theorem Chain.push (h : Chain next c l) (hk : k ∉ l.map Prod.fst) :
    Chain (Function.update next k c) (some (k, y)) ((k, y) :: l) := by
  refine ⟨rfl, ?_⟩
  rw [Function.update_self]
  refine h.congr fun p hp => Function.update_of_ne ?_ ..
  rintro rfl
  exact hk (List.mem_map_of_mem hp)

/-! ## Redirecting the cell before -/

/-- The cell before `k`: `t` is the key of a cell before it. -/
def cellBefore (next : K → Option (K × N)) (k : K) (stuck : ε) : Nat → K → Except ε K
  | 0, _ => .error stuck
  | fuel + 1, t =>
      match next t with
      | none => .error stuck
      | some p => if p.1 = k then .ok t else cellBefore next k stuck fuel p.1

/-- Let the pointer to the cell of `k` point to `c'`: the head of the list, or a pointer in it. -/
def redirect (next : K → Option (K × N)) (k : K) (stuck : ε) (fuel : Nat) (c c' : Option (K × N)) :
    Except ε (Option (K × N) × (K → Option (K × N))) :=
  match c with
  | none => .error stuck
  | some p =>
      if p.1 = k then .ok (c', next)
      else do
        let t ← cellBefore next k stuck fuel p.1
        .ok (c, Function.update next t c')

theorem cellBefore_spec (stuck : ε) {p : K × N} {post : List (K × N)} :
    ∀ (pre : List (K × N)) (q : K × N) (fuel : Nat), Chain next (some q) (q :: pre ++ p :: post) →
      p.1 ∉ pre.map Prod.fst → pre.length < fuel →
      ∃ pre' r, q :: pre = pre' ++ [r] ∧ cellBefore next p.1 stuck fuel q.1 = .ok r.1 := by
  intro pre
  induction pre with
  | nil =>
      intro q fuel h _ hfuel
      cases fuel with
      | zero => exact absurd hfuel (Nat.not_lt_zero _)
      | succ fuel =>
          refine ⟨[], q, rfl, ?_⟩
          rw [cellBefore, h.2.1]
          exact if_pos rfl
  | cons q' pre ih =>
      intro q fuel h hnot hfuel
      cases fuel with
      | zero => exact absurd hfuel (Nat.not_lt_zero _)
      | succ fuel =>
          have hnext : next q.1 = some q' := h.2.1
          have hne : q'.1 ≠ p.1 := fun heq => hnot (by rw [← heq]; exact List.mem_cons_self)
          have htail : Chain next (some q') (q' :: pre ++ p :: post) := by
            rw [← hnext]
            exact h.2
          obtain ⟨pre', r, hlist, hok⟩ := ih q' fuel htail (fun hmem => hnot (List.mem_cons_of_mem _ hmem))
            (Nat.lt_of_succ_lt_succ hfuel)
          refine ⟨q :: pre', r, by rw [hlist]; rfl, ?_⟩
          rw [cellBefore, hnext]
          simp only [if_neg hne]
          exact hok

/-- The list up to a cell, and from there another one. -/
theorem Chain.splice {r : K × N} : ∀ {pre : List (K × N)} {c : Option (K × N)} {rest : List (K × N)},
    Chain next c (pre ++ r :: rest) → Chain next c' l' → (pre ++ [r] |>.map Prod.fst).Nodup →
    (∀ q ∈ pre ++ [r], q.1 ∉ l'.map Prod.fst) → Chain (Function.update next r.1 c') c (pre ++ r :: l') := by
  intro pre
  induction pre with
  | nil =>
      intro c rest h h' _ hdisj
      refine ⟨h.1, ?_⟩
      rw [Function.update_self]
      refine h'.congr fun q hq => Function.update_of_ne ?_ ..
      intro heq
      exact hdisj r List.mem_cons_self (heq ▸ List.mem_map_of_mem hq)
  | cons p pre ih =>
      intro c rest h h' hnodup hdisj
      rw [List.cons_append, List.map_cons, List.nodup_cons] at hnodup
      refine ⟨h.1, ?_⟩
      rw [Function.update_of_ne]
      · exact ih h.2 h' hnodup.2 fun q hq => hdisj q (List.mem_cons_of_mem p hq)
      · intro heq
        refine hnodup.1 ?_
        rw [heq]
        exact List.mem_map_of_mem (List.mem_append_right pre List.mem_cons_self)

/-- **What redirecting a pointer does**: the list up to the cell, and from there the list of `c'`. The pointers outside
    the list stay. -/
theorem Chain.redirect_spec (stuck : ε) (fuel : Nat) {p : K × N} {pre post : List (K × N)}
    (h : Chain next c (pre ++ p :: post)) (hnodup : ((pre ++ p :: post).map Prod.fst).Nodup) (h' : Chain next c' l')
    (hdisj : ∀ q ∈ pre, q.1 ∉ l'.map Prod.fst) (hfuel : pre.length < fuel) :
    ∃ d, redirect next p.1 stuck fuel c c' = .ok d ∧ Chain d.2 d.1 (pre ++ l') ∧
      ∀ t ∉ pre.map Prod.fst, d.2 t = next t := by
  cases pre with
  | nil =>
      obtain ⟨rfl, -⟩ := h
      refine ⟨(c', next), ?_, h', fun _ _ => rfl⟩
      unfold redirect
      exact if_pos rfl
  | cons q pre =>
      obtain rfl : c = some q := h.1
      have hnodup' := hnodup
      rw [List.map_append, List.nodup_append] at hnodup'
      obtain ⟨hpre, -, hcross⟩ := hnodup'
      have hnot : ∀ u ∈ q :: pre, u.1 ≠ p.1 := fun u hu =>
        hcross _ (List.mem_map_of_mem hu) _ (List.mem_map_of_mem List.mem_cons_self)
      have hnotmem : p.1 ∉ pre.map Prod.fst := by
        intro hmem
        obtain ⟨u, hu, heq⟩ := List.mem_map.mp hmem
        exact hnot u (List.mem_cons_of_mem q hu) heq
      obtain ⟨pre', r, hlist, hok⟩ := cellBefore_spec stuck pre q fuel h hnotmem (by
        rw [List.length_cons] at hfuel
        omega)
      have hchain : Chain (Function.update next r.1 c') (some q) (pre' ++ r :: l') := by
        have h₂ : Chain next (some q) (pre' ++ r :: (p :: post)) := by
          rw [hlist, List.append_assoc] at h
          exact h
        refine h₂.splice h' ?_ ?_
        · rw [← hlist]
          exact hpre
        · rw [← hlist]
          exact hdisj
      refine ⟨(some q, Function.update next r.1 c'), ?_, ?_, ?_⟩
      · unfold redirect
        simp only [if_neg (hnot q List.mem_cons_self), hok]
        rfl
      · rw [hlist, List.append_assoc]
        exact hchain
      · intro t ht
        refine Function.update_of_ne ?_ ..
        rintro rfl
        refine ht ?_
        rw [hlist]
        exact List.mem_map_of_mem (List.mem_append_right pre' List.mem_cons_self)

end Redirect

/-! ## The lists of all nodes -/

variable {head head' : N → Option (K × N)} {side : Set N} {own other own' other' : K → N} {E : Set K} {x : N}

/-- The list at the node `x` of `side` holds the edges of `E` that are its own, each with its other end. -/
def Listed (next : K → Option (K × N)) (head : N → Option (K × N)) (side : Set N) (own other : K → N) (E : Set K) :
    Prop :=
  ∀ x ∈ side, ∃ l, Chain next (head x) l ∧ (l.map Prod.fst).Nodup ∧ ∀ i y, (i, y) ∈ l ↔ i ∈ E ∧ own i = x ∧ other i = y

theorem Listed.congr (h : Listed next head side own other E) (hhead : ∀ x ∈ side, head' x = head x)
    (hnext : ∀ i ∈ E, next' i = next i) (hown : ∀ i ∈ E, own' i = own i) (hother : ∀ i ∈ E, other' i = other i) :
    Listed next' head' side own' other' E := by
  intro x hx
  obtain ⟨l, hl, hnodup, hmem⟩ := h x hx
  refine ⟨l, ?_, hnodup, ?_⟩
  · rw [hhead x hx]
    refine hl.congr fun p hp => hnext p.1 ?_
    exact ((hmem p.1 p.2).mp hp).1
  · intro i y
    rw [hmem]
    refine and_congr_right fun hi => ?_
    rw [hown i hi, hother i hi]

/-- Lists of nothing. -/
theorem Listed.empty : Listed next (fun _ => none) side own other (∅ : Set K) := by
  intro x _
  refine ⟨[], rfl, List.nodup_nil, fun i y => ?_⟩
  constructor
  · intro h
    exact absurd h List.not_mem_nil
  · rintro ⟨h, -⟩
    exact absurd h (Set.notMem_empty i)

/-! ## Adding an edge -/

section Edges

variable [DecidableEq K] [DecidableEq N] {V : Finset K} {stuck : ε} {fuel : Nat} {m : K}

/-- **A new edge** goes to the front of the list of its node. -/
theorem Listed.push (h : Listed next head side own other E) (hk : k ∉ E) :
    Listed (Function.update next k (head (own k))) (Function.update head (own k) (some (k, other k))) side own other
      (insert k E) := by
  intro x hx
  obtain ⟨l, hl, hnodup, hmem⟩ := h x hx
  have hfresh : k ∉ l.map Prod.fst := by
    intro hin
    obtain ⟨p, hp, rfl⟩ := List.mem_map.mp hin
    exact hk ((hmem p.1 p.2).mp hp).1
  by_cases hxk : x = own k
  · subst hxk
    refine ⟨(k, other k) :: l, ?_, ?_, ?_⟩
    · rw [Function.update_self]
      exact hl.push hfresh
    · exact List.nodup_cons.mpr ⟨hfresh, hnodup⟩
    · intro i y
      rw [List.mem_cons, hmem, Set.mem_insert_iff]
      constructor
      · rintro (heq | ⟨hi, hrest⟩)
        · cases heq
          exact ⟨.inl rfl, rfl, rfl⟩
        · exact ⟨.inr hi, hrest⟩
      · rintro ⟨rfl | hi, hown, rfl⟩
        · exact .inl rfl
        · exact .inr ⟨hi, hown, rfl⟩
  · refine ⟨l, ?_, hnodup, ?_⟩
    · rw [Function.update_of_ne hxk]
      refine hl.congr fun p hp => Function.update_of_ne ?_ ..
      rintro rfl
      exact hfresh (List.mem_map_of_mem hp)
    · intro i y
      rw [hmem, Set.mem_insert_iff]
      constructor
      · rintro ⟨hi, hrest⟩
        exact ⟨.inr hi, hrest⟩
      · rintro ⟨rfl | hi, hown, hother⟩
        · exact absurd hown.symm hxk
        · exact ⟨hi, hown, hother⟩

/-! ## The list that an edge is in -/

omit [DecidableEq K] [DecidableEq N] in
/-- The list at the node of an edge, split at that edge: before and after it are the other edges of the node. -/
theorem Listed.split (h : Listed next head side own other E) (hm : m ∈ E) (hx : own m ∈ side) :
    ∃ pre post, Chain next (head (own m)) (pre ++ (m, other m) :: post) ∧
      ((pre ++ (m, other m) :: post).map Prod.fst).Nodup ∧
      ∀ i y, (i, y) ∈ pre ++ post ↔ (i ∈ E ∧ i ≠ m) ∧ own i = own m ∧ other i = y := by
  obtain ⟨l, hl, hnodup, hmem⟩ := h (own m) hx
  obtain ⟨pre, post, rfl⟩ := List.append_of_mem ((hmem m (other m)).mpr ⟨hm, rfl, rfl⟩)
  refine ⟨pre, post, hl, hnodup, fun i y => ?_⟩
  have hfresh : m ∉ (pre ++ post).map Prod.fst := by
    have hperm := (List.perm_middle : (pre ++ (m, other m) :: post).Perm _).map Prod.fst
    exact (List.nodup_cons.mp (hperm.nodup_iff.mp hnodup)).1
  have hsub : (i, y) ∈ pre ++ (m, other m) :: post ↔ (i, y) = (m, other m) ∨ (i, y) ∈ pre ++ post := by
    rw [List.mem_append, List.mem_cons, List.mem_append]
    tauto
  constructor
  · intro hiy
    obtain ⟨hi, hrest⟩ := (hmem i y).mp (hsub.mpr (.inr hiy))
    refine ⟨⟨hi, ?_⟩, hrest⟩
    rintro rfl
    exact hfresh (List.mem_map_of_mem (f := Prod.fst) hiy)
  · rintro ⟨⟨hi, him⟩, hrest⟩
    refine (hsub.mp ((hmem i y).mpr ⟨hi, hrest⟩)).resolve_left fun heq => him ?_
    exact congrArg Prod.fst heq

omit [DecidableEq N] in
theorem length_le_card (hV : ∀ i ∈ E, i ∈ V) {l : List (K × N)} (hnodup : (l.map Prod.fst).Nodup)
    (hl : ∀ p ∈ l, p.1 ∈ E) : l.length ≤ V.card := by
  rw [← List.length_map Prod.fst, ← List.toFinset_card_of_nodup hnodup]
  refine Finset.card_le_card fun i hi => ?_
  obtain ⟨p, hp, rfl⟩ := List.mem_map.mp (List.mem_toFinset.mp hi)
  exact hV _ (hl p hp)

omit [DecidableEq K] in
/-- The other lists, when pointers of edges at `own m` change. -/
theorem Listed.frame (h : Listed next head side own other E) (next' : K → Option (K × N)) (pre : List (K × N))
    (hx : x ∈ side) (hne : x ≠ own m)
    (hpre : ∀ p ∈ pre, own p.1 = own m) {d : Option (K × N)} (hsame : ∀ i ∈ E, i ∉ pre.map Prod.fst → next' i = next i) :
    ∃ l, Chain next' (Function.update head (own m) d x) l ∧ (l.map Prod.fst).Nodup ∧
      ∀ i y, (i, y) ∈ l ↔ i ∈ E ∧ own i = x ∧ other i = y := by
  obtain ⟨l, hl, hnodup, hmem⟩ := h x hx
  refine ⟨l, ?_, hnodup, hmem⟩
  rw [Function.update_of_ne hne]
  refine hl.congr fun p hp => ?_
  obtain ⟨hp, hown, -⟩ := (hmem p.1 p.2).mp hp
  refine hsame p.1 hp fun hin => ?_
  obtain ⟨q, hq, heq⟩ := List.mem_map.mp hin
  exact hne (hown.symm.trans (heq ▸ hpre q hq))

/-! ## Taking an edge out -/

/-- **An edge is taken out** of the list of its node. -/
theorem Listed.unlink (h : Listed next head side own other E) (stuck : ε) (hm : m ∈ E) (hx : own m ∈ side) (hV : ∀ i ∈ E, i ∈ V)
    (hfuel : V.card ≤ fuel) :
    ∃ d, redirect next m stuck fuel (head (own m)) (next m) = .ok d ∧
      Listed d.2 (Function.update head (own m) d.1) side own other (E \ {m}) ∧ ∀ t ∉ E, d.2 t = next t := by
  obtain ⟨pre, post, hl, hnodup, hmem⟩ := h.split hm hx
  have hpre : ∀ p ∈ pre, p.1 ∈ E ∧ own p.1 = own m := fun p hp =>
    ⟨((hmem p.1 p.2).mp (List.mem_append_left _ hp)).1.1, ((hmem p.1 p.2).mp (List.mem_append_left _ hp)).2.1⟩
  have hrest : (pre ++ post).map Prod.fst |>.Nodup := by
    refine hnodup.sublist (List.Sublist.map _ ?_)
    exact List.Sublist.append_left (List.sublist_cons_self _ _) pre
  have hlen : pre.length < fuel := by
    have hlen := length_le_card hV hnodup fun p hp => by
      rcases List.mem_append.mp hp with hp | hp
      · exact (hpre p hp).1
      · rcases List.mem_cons.mp hp with rfl | hp
        · exact hm
        · exact ((hmem p.1 p.2).mp (List.mem_append_right _ hp)).1.1
    rw [List.length_append, List.length_cons] at hlen
    omega
  obtain ⟨d, hd, hchain, hsame⟩ := hl.redirect_spec stuck fuel hnodup hl.after (fun q hq hmem' => by
    rw [List.map_append, List.nodup_append] at hrest
    exact hrest.2.2 _ (List.mem_map_of_mem hq) _ hmem' rfl) hlen
  refine ⟨d, hd, ?_, ?_⟩
  · intro x hxs
    by_cases hxm : x = own m
    · subst hxm
      exact ⟨pre ++ post, by rwa [Function.update_self], hrest, hmem⟩
    · obtain ⟨l, hchain', hnodup', hmem'⟩ := h.frame (m := m) (d := d.1) d.2 pre hxs hxm
        (fun p hp => (hpre p hp).2) fun i _ hi => hsame i hi
      refine ⟨l, hchain', hnodup', fun i y => ?_⟩
      rw [hmem']
      constructor
      · rintro ⟨hi, hown, hother⟩
        refine ⟨⟨hi, ?_⟩, hown, hother⟩
        rintro rfl
        exact hxm hown.symm
      · rintro ⟨⟨hi, -⟩, hrest⟩
        exact ⟨hi, hrest⟩
  · intro t ht
    refine hsame t fun hin => ht ?_
    obtain ⟨p, hp, rfl⟩ := List.mem_map.mp hin
    exact (hpre p hp).1

/-! ## Giving an edge another name -/

/-- **An edge gets another key**: the cell of `k` takes the place of the cell of `m`. -/
theorem Listed.rename (h : Listed next head side own other E) (stuck : ε) (own' other' : K → N) (hm : m ∈ E) (hk : k ∉ E)
    (hx : own m ∈ side)
    (hV : ∀ i ∈ E, i ∈ V) (hfuel : V.card ≤ fuel) (hown : own' k = own m) (hother : other' k = other m)
    (hsame : ∀ i ∈ E, own' i = own i ∧ other' i = other i) :
    ∃ d, redirect (Function.update next k (next m)) m stuck fuel (head (own m)) (some (k, other m)) = .ok d ∧
      Listed d.2 (Function.update head (own m) d.1) side own' other' (insert k (E \ {m})) := by
  obtain ⟨pre, post, hl, hnodup, hmem⟩ := h.split hm hx
  have hkeep : ∀ i ∈ E, Function.update next k (next m) i = next i := by
    intro i hi
    refine Function.update_of_ne ?_ ..
    rintro rfl
    exact hk hi
  have hother_mem : ∀ p ∈ pre ++ post, p.1 ∈ E ∧ own p.1 = own m := fun p hp =>
    ⟨((hmem p.1 p.2).mp hp).1.1, ((hmem p.1 p.2).mp hp).2.1⟩
  have hall : ∀ p ∈ pre ++ (m, other m) :: post, p.1 ∈ E := by
    intro p hp
    rcases List.mem_append.mp hp with hp | hp
    · exact (hother_mem p (List.mem_append_left _ hp)).1
    · rcases List.mem_cons.mp hp with rfl | hp
      · exact hm
      · exact (hother_mem p (List.mem_append_right _ hp)).1
  have hlen : pre.length < fuel := by
    have hlen := length_le_card hV hnodup hall
    rw [List.length_append, List.length_cons] at hlen
    omega
  have hrest : (pre ++ post).map Prod.fst |>.Nodup := by
    refine hnodup.sublist (List.Sublist.map _ ?_)
    exact List.Sublist.append_left (List.sublist_cons_self _ _) pre
  have hknot : k ∉ (pre ++ post).map Prod.fst := by
    intro hin
    obtain ⟨p, hp, rfl⟩ := List.mem_map.mp hin
    exact hk (hother_mem p hp).1
  have hnodup' : (pre ++ (k, other m) :: post).map Prod.fst |>.Nodup := by
    have hperm := (List.perm_middle : (pre ++ (k, other m) :: post).Perm _).map Prod.fst
    exact hperm.nodup_iff.mpr (List.nodup_cons.mpr ⟨hknot, hrest⟩)
  -- the new cell, followed by what follows the cell of `m`
  have hnew : Chain (Function.update next k (next m)) (some (k, other m)) ((k, other m) :: post) := by
    refine ⟨rfl, ?_⟩
    rw [Function.update_self]
    exact hl.after.congr fun p hp => hkeep p.1 (hother_mem p (List.mem_append_right pre hp)).1
  obtain ⟨d, hd, hchain, hoff⟩ := (hl.congr fun p hp => hkeep p.1 (hall p hp)).redirect_spec stuck fuel
    hnodup hnew (fun q hq hmem' => by
      rw [List.map_append, List.nodup_append] at hnodup'
      exact hnodup'.2.2 _ (List.mem_map_of_mem hq) _ hmem' rfl) hlen
  refine ⟨d, hd, ?_⟩
  intro x hxs
  by_cases hxm : x = own m
  · subst hxm
    refine ⟨pre ++ (k, other m) :: post, by rwa [Function.update_self], hnodup', fun i y => ?_⟩
    have hsub : (i, y) ∈ pre ++ (k, other m) :: post ↔ (i, y) = (k, other m) ∨ (i, y) ∈ pre ++ post := by
      rw [List.mem_append, List.mem_cons, List.mem_append]
      tauto
    rw [hsub, hmem, Set.mem_insert_iff]
    constructor
    · rintro (heq | ⟨hi, hrest⟩)
      · cases heq
        exact ⟨.inl rfl, hown, hother⟩
      · rw [(hsame i hi.1).1, (hsame i hi.1).2]
        exact ⟨.inr hi, hrest⟩
    · rintro ⟨rfl | hi, hrest⟩
      · exact .inl (by rw [← hrest.2, hother])
      · rw [(hsame i hi.1).1, (hsame i hi.1).2] at hrest
        exact .inr ⟨hi, hrest⟩
  · obtain ⟨l, hchain', hnodup'', hmem'⟩ := h.frame (m := m) (d := d.1) d.2 pre hxs hxm
      (fun p hp => (hother_mem p (List.mem_append_left _ hp)).2) fun i hi hnot => (hoff i hnot).trans (hkeep i hi)
    refine ⟨l, hchain', hnodup'', fun i y => ?_⟩
    rw [hmem']
    constructor
    · rintro ⟨hi, hrest⟩
      refine ⟨Set.mem_insert_of_mem k ⟨hi, ?_⟩, ?_⟩
      · rintro rfl
        exact hxm hrest.1.symm
      · rwa [(hsame i hi).1, (hsame i hi).2]
    · rintro ⟨hi, hrest⟩
      rcases Set.mem_insert_iff.mp hi with rfl | ⟨hi, -⟩
      · exact absurd (hrest.1.symm.trans hown) hxm
      · rw [(hsame i hi).1, (hsame i hi).2] at hrest
        exact ⟨hi, hrest⟩

end Edges

end Outback.Lib
