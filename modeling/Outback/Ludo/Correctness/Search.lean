import Outback.Ludo.KeyMap

/-!
# `Ludo.Correctness.Search` — the breadth-first search stays inside its arrays

`CuckooInsert` sizes `queue_` and `visited_` for twice the buckets that it can reach. Where every key is in one of its
two buckets, a bucket adds at most the *other* bucket of each of its four keys, so an entry at depth `d` costs at most
`turns (6 - d)` turns of the loop, itself and what it adds, and at most `turns (5 - d)` places of `visited_`. Both sums
only fall (`Trace.step`), so the search ends, and in time (`searchPath_spec`).

`Trace` says where the entries come from: two roots, the first of them at index 0, and beyond them each entry the other
bucket of a key of its parent. A path that is found goes back along parents to a root.
-/

namespace Outback

/-! ## What a run of the search may do -/

section Search

variable (candidate : U64 → Bool → Nat) (occupied : Nat → Slot → Bool) (keys : Nat → Slot → U64)

/-- The search ends within `n` turns, and on the way writes to no index beyond `visited_` and never fills `queue_`. -/
def SearchFits : Nat → List CuckooPathEntry → List CuckooPathEntry → Prop
  | 0, _, _ => False
  | _ + 1, [], _ => True
  | n + 1, entry :: queue, visited =>
      match findFreeSlot (occupied entry.bucket) with
      | some _ => True
      | none =>
          if entry.depth < kMaxBFSPathLen then
            visited.length < kVisitedListSize ∧
              queue.length + (successors candidate keys entry visited.length).length < kMaxQueueSize ∧
              SearchFits n (queue ++ successors candidate keys entry visited.length) (visited ++ [entry])
          else SearchFits n queue visited

/-- `e` was added for the key in slot `ps` of the bucket at index `p` of `visited`. -/
structure Linked (visited : List CuckooPathEntry) (e : CuckooPathEntry) (p : Nat) (ps : Slot) (pe : CuckooPathEntry) :
    Prop where
  parent : e.parent = some (p, ps)
  index : visited[p]? = some pe
  depth : e.depth = pe.depth + 1
  other : e.bucket ≠ pe.bucket
  key : ∃ second, candidate (keys pe.bucket ps) second = e.bucket

/-- Where an entry comes from: it is one of the roots `r₀` and `r₁`, or linked. -/
inductive Origin (r₀ r₁ : Nat) (visited : List CuckooPathEntry) (first : Bool) (e : CuckooPathEntry) : Prop where
  | root (h : e = ⟨if first then r₀ else r₁, 1, none⟩)
  | linked {p : Nat} {ps : Slot} {pe : CuckooPathEntry} (h : Linked candidate keys visited e p ps pe)

/-- The state of the search after its first turn. -/
structure Trace (r₀ r₁ : Nat) (queue visited : List CuckooPathEntry) : Prop where
  nonempty : visited ≠ []
  full : ∀ e ∈ visited, findFreeSlot (occupied e.bucket) = none
  entries : ∀ i e, visited[i]? = some e → Origin candidate keys r₀ r₁ visited (i == 0) e
  queued : ∀ e ∈ queue, e.depth ≤ kMaxBFSPathLen ∧ Origin candidate keys r₀ r₁ visited false e

/-- Every key is in one of its two buckets. -/
structure InPlace (size : Nat) : Prop where
  lt : ∀ k second, candidate k second < size
  own : ∀ b s, b < size → occupied b s = true → ∃ second, candidate (keys b s) second = b

end Search

/-- The turns for an entry with `n` levels from it on, and for all that it adds. -/
def turns : Nat → Nat
  | 0 => 0
  | n + 1 => 1 + 4 * turns n

/-- The turns that the queue still takes. -/
def queueTurns (queue : List CuckooPathEntry) : Nat := (queue.map fun e => turns (6 - e.depth)).sum

/-- The entries that it still adds to `visited_`. -/
def queueVisits (queue : List CuckooPathEntry) : Nat := (queue.map fun e => turns (5 - e.depth)).sum

section Proofs

variable {candidate : U64 → Bool → Nat} {occupied : Nat → Slot → Bool} {keys : Nat → Slot → U64} {size r₀ r₁ : Nat}
  {entry e pe : CuckooPathEntry} {queue visited : List CuckooPathEntry} {p : Nat} {ps : Slot} {first : Bool}

/-! ## The entries that one bucket adds -/

theorem findFreeSlot_eq_none {mask : Slot → Bool} : findFreeSlot mask = none ↔ ∀ s, mask s = true := by
  unfold findFreeSlot
  rw [List.find?_eq_none]
  constructor
  · intro h s
    simpa using h s (List.mem_finRange s)
  · intro h s _
    simpa using h s

theorem findFreeSlot_eq_some {mask : Slot → Bool} {s : Slot} (h : findFreeSlot mask = some s) : mask s = false := by
  have hs := List.find?_some h
  simpa using hs

theorem mem_successors {parentIndex : Nat} (h : e ∈ successors candidate keys entry parentIndex) :
    ∃ slot second, e = ⟨candidate (keys entry.bucket slot) second, entry.depth + 1, some (parentIndex, slot)⟩ ∧
      e.bucket ≠ entry.bucket := by
  unfold successors at h
  obtain ⟨i, -, h⟩ := List.mem_flatMap.mp h
  obtain ⟨second, hmem, rfl⟩ := List.mem_map.mp h
  refine ⟨_, second, rfl, ?_⟩
  simpa using (List.mem_filter.mp hmem).2

theorem length_flatMap_le {α β : Type} (l : List α) {f : α → List β} (h : ∀ a, (f a).length ≤ 1) :
    (l.flatMap f).length ≤ l.length := by
  induction l with
  | nil => exact le_refl 0
  | cons a l ih =>
      have ha := h a
      rw [List.flatMap_cons, List.length_append, List.length_cons]
      omega

/-- One candidate of each key is the bucket itself. -/
theorem length_successors_le (hown : ∀ s, ∃ second, candidate (keys entry.bucket s) second = entry.bucket)
    (parentIndex : Nat) : (successors candidate keys entry parentIndex).length ≤ 4 := by
  have hone : ∀ slot : Slot,
      ([false, true].filter fun j => candidate (keys entry.bucket slot) j != entry.bucket).length ≤ 1 := by
    intro slot
    obtain ⟨second, hsecond⟩ := hown slot
    cases second with
    | false =>
        rw [List.filter_cons_of_neg (by simp [hsecond])]
        exact List.length_filter_le _ [true]
    | true =>
        rw [List.filter_cons, List.filter_cons_of_neg (by simp [hsecond])]
        split
        · exact le_refl 1
        · exact Nat.zero_le 1
  unfold successors
  refine (length_flatMap_le (List.finRange 4) fun i => ?_).trans_eq (List.length_finRange ..)
  rw [List.length_map]
  exact hone _

theorem foldl_pushBack (es : List CuckooPathEntry) (h : queue.length + es.length < kMaxQueueSize) :
    es.foldl pushBack queue = queue ++ es := by
  induction es generalizing queue with
  | nil => exact (List.append_nil queue).symm
  | cons e es ih =>
      rw [List.length_cons] at h
      have hroom : pushBack queue e = queue ++ [e] := by
        unfold pushBack
        exact if_neg (by omega)
      rw [List.foldl_cons, hroom, ih, List.append_assoc, List.singleton_append]
      rw [List.length_append, List.length_singleton]
      omega

/-! ## Counting turns -/

theorem queueTurns_append (q q' : List CuckooPathEntry) : queueTurns (q ++ q') = queueTurns q + queueTurns q' := by
  unfold queueTurns
  rw [List.map_append, List.sum_append]

theorem queueVisits_append (q q' : List CuckooPathEntry) : queueVisits (q ++ q') = queueVisits q + queueVisits q' := by
  unfold queueVisits
  rw [List.map_append, List.sum_append]

/-- Entries of one depth. -/
theorem sum_map_turns {d m : Nat} (es : List CuckooPathEntry) (h : ∀ e ∈ es, e.depth = d) :
    (es.map fun e => turns (m - e.depth)).sum = es.length * turns (m - d) := by
  induction es with
  | nil => simp
  | cons e es ih =>
      rw [List.map_cons, List.sum_cons, ih fun e' he' => h e' (List.mem_cons_of_mem e he'), h e List.mem_cons_self,
        List.length_cons, Nat.succ_mul, Nat.add_comm]

theorem length_le_queueTurns (h : ∀ e ∈ queue, e.depth ≤ kMaxBFSPathLen) : queue.length ≤ queueTurns queue := by
  induction queue with
  | nil => exact Nat.zero_le _
  | cons e queue ih =>
      have hrest := ih fun e' he' => h e' (List.mem_cons_of_mem e he')
      have hd := h e List.mem_cons_self
      unfold kMaxBFSPathLen at hd
      have hone : 1 ≤ turns (6 - e.depth) := by
        rw [show 6 - e.depth = (5 - e.depth) + 1 by omega]
        unfold turns
        omega
      unfold queueTurns at hrest ⊢
      rw [List.map_cons, List.sum_cons, List.length_cons]
      omega

/-! ## One turn -/

theorem Linked.mono (h : Linked candidate keys visited e p ps pe) (entry : CuckooPathEntry) :
    Linked candidate keys (visited ++ [entry]) e p ps pe := by
  refine ⟨h.parent, ?_, h.depth, h.other, h.key⟩
  obtain ⟨hlt, -⟩ := List.getElem?_eq_some_iff.mp h.index
  rw [List.getElem?_append_left hlt]
  exact h.index

theorem Origin.mono (h : Origin candidate keys r₀ r₁ visited first e) (entry : CuckooPathEntry) :
    Origin candidate keys r₀ r₁ (visited ++ [entry]) first e := by
  cases h with
  | root h => exact .root h
  | linked h => exact .linked (h.mono entry)

/-- A full bucket joins `visited`, and its keys' other buckets the queue. -/
theorem successors_origin (h : e ∈ successors candidate keys entry visited.length) :
    e.depth = entry.depth + 1 ∧ Origin candidate keys r₀ r₁ (visited ++ [entry]) false e := by
  obtain ⟨slot, second, rfl, hne⟩ := mem_successors h
  have hindex : (visited ++ [entry])[visited.length]? = some entry := by
    rw [List.getElem?_append_right (le_refl _), Nat.sub_self]
    rfl
  exact ⟨rfl, .linked ⟨rfl, hindex, rfl, hne, second, rfl⟩⟩

theorem Trace.step (h : Trace candidate occupied keys r₀ r₁ (entry :: queue) visited)
    (hfull : findFreeSlot (occupied entry.bucket) = none) (hdepth : entry.depth < kMaxBFSPathLen) :
    Trace candidate occupied keys r₀ r₁ (queue ++ successors candidate keys entry visited.length) (visited ++ [entry]) := by
  refine ⟨by simp, ?_, ?_, ?_⟩
  · intro e he
    rcases List.mem_append.mp he with he | he
    · exact h.full e he
    · rw [List.mem_singleton.mp he]
      exact hfull
  · intro i e hi
    by_cases hlt : i < visited.length
    · rw [List.getElem?_append_left hlt] at hi
      exact (h.entries i e hi).mono entry
    · rw [List.getElem?_append_right (by omega)] at hi
      obtain ⟨hzero, rfl⟩ : i - visited.length = 0 ∧ entry = e := by
        cases hi' : i - visited.length with
        | zero =>
            rw [hi'] at hi
            exact ⟨rfl, Option.some.inj hi⟩
        | succ j =>
            rw [hi'] at hi
            cases hi
      have hpos := List.length_pos_iff.mpr h.nonempty
      have hi0 : (i == 0) = false := by
        simp only [beq_eq_false_iff_ne, ne_eq]
        omega
      rw [hi0]
      exact (h.queued entry List.mem_cons_self).2.mono entry
  · intro e he
    rcases List.mem_append.mp he with he | he
    · obtain ⟨hd, ho⟩ := h.queued e (List.mem_cons_of_mem entry he)
      exact ⟨hd, ho.mono entry⟩
    · obtain ⟨hd, ho⟩ := successors_origin he
      exact ⟨by omega, ho⟩

theorem Trace.drop (h : Trace candidate occupied keys r₀ r₁ (entry :: queue) visited) :
    Trace candidate occupied keys r₀ r₁ queue visited :=
  ⟨h.nonempty, h.full, h.entries, fun e he => h.queued e (List.mem_cons_of_mem entry he)⟩

theorem Origin.bucket_lt (h : Origin candidate keys r₀ r₁ visited first e)
    (hin : InPlace candidate occupied keys size) (hr₀ : r₀ < size) (hr₁ : r₁ < size) : e.bucket < size := by
  cases h with
  | root h =>
      subst h
      cases first with
      | false => exact hr₁
      | true => exact hr₀
  | linked h =>
      obtain ⟨second, hkey⟩ := h.key
      rw [← hkey]
      exact hin.lt _ second

/-- One turn takes one off what is left, for the queue and for `visited_`. -/
theorem successors_turns (hlen : (successors candidate keys entry visited.length).length ≤ 4)
    (hdepth : entry.depth < kMaxBFSPathLen) :
    queueTurns (queue ++ successors candidate keys entry visited.length) + 1 ≤ queueTurns (entry :: queue) ∧
      queueVisits (queue ++ successors candidate keys entry visited.length) + 1 ≤ queueVisits (entry :: queue) := by
  unfold kMaxBFSPathLen at hdepth
  generalize hes : successors candidate keys entry visited.length = es at hlen
  have hd : ∀ e ∈ es, e.depth = entry.depth + 1 := by
    intro e he
    rw [← hes] at he
    exact (@successors_origin candidate keys 0 0 entry e visited he).1
  have hsix : turns (6 - entry.depth) = 1 + 4 * turns (6 - (entry.depth + 1)) := by
    rw [show 6 - entry.depth = (6 - (entry.depth + 1)) + 1 by omega]
    rfl
  have hfive : turns (5 - entry.depth) = 1 + 4 * turns (5 - (entry.depth + 1)) := by
    rw [show 5 - entry.depth = (5 - (entry.depth + 1)) + 1 by omega]
    rfl
  rw [queueTurns_append, queueVisits_append]
  unfold queueTurns queueVisits
  rw [sum_map_turns es hd, sum_map_turns es hd, List.map_cons, List.map_cons, List.sum_cons, List.sum_cons, hsix, hfive]
  constructor
  · have hmul := Nat.mul_le_mul_right (turns (6 - (entry.depth + 1))) hlen
    omega
  · have hmul := Nat.mul_le_mul_right (turns (5 - (entry.depth + 1))) hlen
    omega

/-- **The search ends**, within its arrays: without a path, or with one that leads back to a root. -/
theorem searchPath_spec (hin : InPlace candidate occupied keys size) (hr₀ : r₀ < size) (hr₁ : r₁ < size) (n : Nat)
    (h : Trace candidate occupied keys r₀ r₁ queue visited) (hturns : queueTurns queue < n)
    (hqueue : queueTurns queue ≤ kMaxQueueSize) (hvisits : visited.length + queueVisits queue ≤ kVisitedListSize) :
    SearchFits candidate occupied keys n queue visited ∧
      (searchPath candidate occupied keys n queue visited = .ok none ∨
        ∃ e s vis, searchPath candidate occupied keys n queue visited = .ok (some (e, s, vis)) ∧
          Trace candidate occupied keys r₀ r₁ [e] vis ∧ findFreeSlot (occupied e.bucket) = some s) := by
  induction n generalizing queue visited with
  | zero => exact absurd hturns (Nat.not_lt_zero _)
  | succ n ih =>
      cases queue with
      | nil => exact ⟨trivial, .inl rfl⟩
      | cons entry queue =>
          unfold SearchFits searchPath
          cases hfree : findFreeSlot (occupied entry.bucket) with
          | some s =>
              refine ⟨trivial, .inr ⟨entry, s, visited, rfl, ⟨h.nonempty, h.full, h.entries, ?_⟩, hfree⟩⟩
              intro e he
              rw [List.mem_singleton.mp he]
              exact h.queued entry List.mem_cons_self
          | none =>
              dsimp only
              by_cases hdepth : entry.depth < kMaxBFSPathLen
              · rw [if_pos hdepth, if_pos hdepth]
                have hlt := (h.queued entry List.mem_cons_self).2.bucket_lt hin hr₀ hr₁
                have hlen := length_successors_le
                  (fun s => hin.own entry.bucket s hlt (findFreeSlot_eq_none.mp hfree s)) visited.length
                obtain ⟨ht, hv⟩ := @successors_turns _ _ entry queue visited hlen hdepth
                have hstep := h.step hfree hdepth
                have hshort := length_le_queueTurns fun e he => (hstep.queued e he).1
                rw [List.length_append] at hshort
                have hroom : visited.length < kVisitedListSize := by omega
                have hqroom : queue.length + (successors candidate keys entry visited.length).length < kMaxQueueSize := by
                  omega
                rw [if_pos hroom, foldl_pushBack _ hqroom]
                obtain ⟨hfits, hend⟩ := ih hstep (by omega) (by omega) (by
                  rw [List.length_append, List.length_singleton]
                  omega)
                exact ⟨⟨hroom, hqroom, hfits⟩, hend⟩
              · rw [if_neg hdepth, if_neg hdepth]
                -- an entry of the last level takes its own turn
                have hlast := (h.queued entry List.mem_cons_self).1
                unfold kMaxBFSPathLen at hdepth hlast
                have hd : entry.depth = 5 := by omega
                have hone : queueTurns (entry :: queue) = 1 + queueTurns queue ∧
                    queueVisits (entry :: queue) = queueVisits queue := by
                  unfold queueTurns queueVisits
                  rw [List.map_cons, List.map_cons, List.sum_cons, List.sum_cons, hd]
                  exact ⟨rfl, Nat.zero_add _⟩
                exact ih h.drop (by omega) (by omega) (by omega)

/-- The search from two full roots. -/
theorem searchPath_roots (hin : InPlace candidate occupied keys size) (hr₀ : r₀ < size) (hr₁ : r₁ < size)
    (hfull₀ : findFreeSlot (occupied r₀) = none) :
    SearchFits candidate occupied keys searchTurns [⟨r₀, 1, none⟩, ⟨r₁, 1, none⟩] [] ∧
      (searchPath candidate occupied keys searchTurns [⟨r₀, 1, none⟩, ⟨r₁, 1, none⟩] [] = .ok none ∨
        ∃ e s vis, searchPath candidate occupied keys searchTurns [⟨r₀, 1, none⟩, ⟨r₁, 1, none⟩] []
            = .ok (some (e, s, vis)) ∧
          Trace candidate occupied keys r₀ r₁ [e] vis ∧ findFreeSlot (occupied e.bucket) = some s) := by
  -- the first turn puts the first root into `visited_`
  have hone : 1 < kMaxBFSPathLen := by decide
  have hlen := @length_successors_le candidate keys ⟨r₀, 1, none⟩
    (fun s => hin.own r₀ s hr₀ (findFreeSlot_eq_none.mp hfull₀ s)) 0
  have hturns := @successors_turns candidate keys ⟨r₀, 1, none⟩ [⟨r₁, 1, none⟩] [] hlen hone
  have hstart : queueTurns [⟨r₀, 1, none⟩, ⟨r₁, 1, none⟩] = 682 := by rfl
  have hstart' : queueVisits [⟨r₀, 1, none⟩, ⟨r₁, 1, none⟩] = 170 := by rfl
  have hsizes : kMaxQueueSize = 1364 ∧ kVisitedListSize = 340 ∧ searchTurns = 9362 + 1 := by decide
  rw [hstart, hstart'] at hturns
  have htrace : Trace candidate occupied keys r₀ r₁
      ([⟨r₁, 1, none⟩] ++ successors candidate keys ⟨r₀, 1, none⟩ ([] : List CuckooPathEntry).length)
      ([] ++ [⟨r₀, 1, none⟩]) := by
    refine ⟨by simp, ?_, ?_, ?_⟩
    · intro e he
      rw [List.mem_singleton.mp he]
      exact hfull₀
    · intro i e hi
      cases i with
      | zero =>
          cases hi
          exact .root rfl
      | succ i => cases hi
    · intro e he
      rcases List.mem_append.mp he with he | he
      · rw [List.mem_singleton.mp he]
        exact ⟨hone.le, .root rfl⟩
      · obtain ⟨hd, ho⟩ := successors_origin he
        rw [hd]
        exact ⟨hone, ho⟩
  obtain ⟨hfits, hend⟩ := searchPath_spec hin hr₀ hr₁ 9362 htrace (by omega) (by omega) (by
    rw [List.nil_append, List.length_singleton]
    omega)
  rw [hsizes.2.2]
  unfold SearchFits searchPath
  rw [hfull₀]
  dsimp only
  have hroom : ([] : List CuckooPathEntry).length < kVisitedListSize := by decide
  have hqroom : [(⟨r₁, 1, none⟩ : CuckooPathEntry)].length +
      (successors candidate keys ⟨r₀, 1, none⟩ ([] : List CuckooPathEntry).length).length < kMaxQueueSize := by
    rw [List.length_singleton]
    exact lt_of_le_of_lt (Nat.add_le_add_left hlen 1) (by decide)
  rw [if_pos hone, if_pos hone, if_pos hroom, foldl_pushBack _ hqroom]
  exact ⟨⟨hroom, hqroom, hfits⟩, hend⟩

end Proofs

end Outback
