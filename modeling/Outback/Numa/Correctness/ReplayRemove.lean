import Outback.Numa.Correctness.ReplayStore

/-!
# `Numa.Correctness.ReplayRemove` — when `replay_delete` is a remove

`replay_delete` zeroes the entry of the first visited slot that has the key, and clears the slot. It looks no further: a
second slot with the key stays, and so do other slots that refer to the zeroed entry, which has key `0` now. And the
cleared slot reads entry `0` where it is primary. **`replayRemove_iff`**: the key is gone and every other key is answered as
before exactly when none of this matters (`DeletePlain`).
-/

namespace Outback

namespace Store

variable (H : HashFn)

/-- The slot that `replay_delete` clears. -/
def found (st : Store) (k : U64) : Option Slot :=
  (st.probeOrder (st.lookup.row H k) (st.lookup.slot H k)).find? (fun t => (st.entryAt (st.lookup.row H k) t).key = k)

/-- What a slot reads once the entry at `a` is zeroed. -/
def zeroedAt (st : Store) (a r : Nat) (t : Slot) : PackedStruct := if st.addr r t = a then .zero else st.entryAt r t

/-- The slots of row `r` that a search visits and that a cleared slot `x` of row `q`, with address `a`, leaves as they are.
    With address `0` it reads entry `0` before and after. -/
def orderWithout (st : Store) (q : Nat) (x : Slot) (a r : Nat) (p : Slot) : List Slot :=
  (st.probeOrder r p).filter (fun t => ¬ (a ≠ 0 ∧ r = q ∧ t = x))

end Store

/-- The key is gone with slot `x`: no other visited slot has it, neither as its own entry nor because that entry has been
    zeroed, and where `x` is primary, entry `0` does not have it. -/
def DeleteGone (H : HashFn) (st : Store) (k : U64) (x : Slot) : Prop :=
  let r := st.lookup.row H k
  let p := st.lookup.slot H k
  let a := st.addr r x
  (x = p → if a = 0 then k ≠ 0 else (st.packed.rawArray 0).key ≠ k) ∧
    ∀ t ∈ st.others r p, t ≠ x → (st.zeroedAt a r t).key ≠ k

/-- The other keys keep their answers when slot `x` is cleared:
    * the key of entry `0`, where `x` is its primary slot, is answered with the same data by the other slots;
    * key `0` does not come to a zeroed entry first, or is answered `0` in any case. -/
def DeleteFrames (H : HashFn) (st : Store) (k : U64) (x : Slot) : Prop :=
  let r := st.lookup.row H k
  let a := st.addr r x
  let e₀ := st.packed.rawArray 0
  (a ≠ 0 → e₀.key ≠ k → st.lookup.row H e₀.key = r → st.lookup.slot H e₀.key = x →
    answer (st.entryAt r) (st.others r x) e₀.key = some e₀.data) ∧
  (k ≠ 0 → ¬ (a ≠ 0 ∧ e₀.key = 0 ∧ st.lookup.row H 0 = r ∧ st.lookup.slot H 0 = x) →
    ∀ t, (st.orderWithout r x a (st.lookup.row H 0) (st.lookup.slot H 0)).find?
        (fun t => st.addr (st.lookup.row H 0) t = a ∨ (st.entryAt (st.lookup.row H 0) t).key = 0) = some t →
      st.addr (st.lookup.row H 0) t = a → st.probe (st.lookup.row H 0) (st.lookup.slot H 0) 0 = some 0)

instance (H : HashFn) (st : Store) (k : U64) (x : Slot) : Decidable (DeleteGone H st k x) :=
  inferInstanceAs (Decidable ((x = _ → if _ = 0 then k ≠ 0 else _ ≠ k) ∧ ∀ t ∈ st.others _ _, t ≠ x → _ ≠ k))

instance (H : HashFn) (st : Store) (k : U64) (x : Slot) : Decidable (DeleteFrames H st k x) :=
  @instDecidableAnd _ _ inferInstance inferInstance

/-! ## When a replayed remove is one -/

/-- `replay_delete(k)` is a remove of `k`. -/
structure DeletePlain (H : HashFn) (st : Store) (k : U64) : Prop where
  /-- there is an entry to read -/
  pos : 0 < st.packed.numElements
  gone : ∀ x, st.found H k = some x → DeleteGone H st k x
  frames : ∀ x, st.found H k = some x → DeleteFrames H st k x

/-! ## What it does -/

section Scan

variable {H : HashFn} {st : Store} {k : U64}

theorem removeDataWithKeyCheck_of_eq {pd : PackedData} {i : Nat} {key : U64} (hi : i < pd.numElements)
    (hk : (pd.rawArray i).key = key) : pd.removeDataWithKeyCheck i key = .ok (pd.setEntry i .zero, true) := by
  unfold PackedData.removeDataWithKeyCheck
  rw [PackedData.entry_ok hi, Exec.ok_bind, if_neg (not_not.mpr hk)]
  rfl

theorem removeDataWithKeyCheck_of_ne {pd : PackedData} {i : Nat} {key : U64} (hi : i < pd.numElements)
    (hk : (pd.rawArray i).key ≠ key) : pd.removeDataWithKeyCheck i key = .ok (pd, false) := by
  unfold PackedData.removeDataWithKeyCheck
  rw [PackedData.entry_ok hi, Exec.ok_bind, if_pos hk]
  rfl

/-- The scan behind the primary slot. -/
theorem replayScan_ok {r : Nat} {p : Slot} (hin : ∀ t, st.addr r t ≠ 0 → st.addr r t < st.packed.numElements)
    (l : List Slot) : Server.replayScan st.buckets st.packed k r p l
      = .ok (match (l.filter (fun t => t ≠ p ∧ st.addr r t ≠ 0)).find? (fun t => (st.entryAt r t).key = k) with
        | some t => (st.packed.setEntry (st.addr r t) .zero, st.buckets.removeAddr r t)
        | none => (st.packed, st.buckets)) := by
  have haddr : ∀ t, addrOf (st.buckets.word r t) = st.addr r t := fun _ => rfl
  induction l with
  | nil => rfl
  | cons t l ih =>
      rw [Server.replayScan, haddr]
      by_cases htp : t = p
      · rw [if_pos htp, ih, List.filter_cons_of_neg (by simp [htp])]
      · rw [if_neg htp]
        by_cases ha : st.addr r t = 0
        · rw [if_pos ha, ih, List.filter_cons_of_neg (by simp [ha])]
        · rw [if_neg ha, List.filter_cons_of_pos (by simp [htp, ha])]
          by_cases hk : (st.entryAt r t).key = k
          · rw [removeDataWithKeyCheck_of_eq (hin t ha) hk, List.find?_cons_of_pos (by simpa using hk)]
            rfl
          · rw [removeDataWithKeyCheck_of_ne (hin t ha) hk, List.find?_cons_of_neg (by simpa using hk), ← ih]
            rfl

/-- **`replay_delete` on a store.** -/
theorem replayRemove_ok (h : SlotsInside st) (hpos : 0 < st.packed.numElements) : st.replayRemove H k
    = .ok (match st.found H k with
      | some x => st.clearEntry H k x
      | none => st) := by
  have hlt := h.addr_lt hpos (st.lookup.slot H k) (h.row_lt (H := H) k)
  unfold Store.replayRemove Server.replayRemove Store.found Store.probeOrder
  simp only [LudoBuckets.row_ok (h.row_inside k), Exec.ok_bind, Store.addrOf_slots]
  by_cases hk : (st.entryAt (st.lookup.row H k) (st.lookup.slot H k)).key = k
  · rw [removeDataWithKeyCheck_of_eq hlt hk, List.find?_cons_of_pos (by simpa using hk)]
    rfl
  · rw [removeDataWithKeyCheck_of_ne hlt hk, List.find?_cons_of_neg (by simpa using hk), Exec.ok_bind,
      if_neg Bool.false_ne_true, replayScan_ok (fun t => h.inside_of_ne (h.row_lt k)), Exec.ok_bind]
    unfold Store.others
    cases ((List.finRange 4).filter (fun t => t ≠ st.lookup.slot H k ∧ st.addr (st.lookup.row H k) t ≠ 0)).find?
      (fun t => (st.entryAt (st.lookup.row H k) t).key = k) <;> rfl

/-- Without an entry there is nothing to look at. -/
theorem replayRemove_pos {st' : Store} (hok : st.replayRemove H k = .ok st') : 0 < st.packed.numElements := by
  obtain ⟨q, hq, -⟩ := Lib.bind_eq_ok.mp hok
  unfold Server.replayRemove at hq
  obtain ⟨b, -, hq⟩ := Lib.bind_eq_ok.mp hq
  obtain ⟨q', hq', -⟩ := Lib.bind_eq_ok.mp hq
  unfold PackedData.removeDataWithKeyCheck at hq'
  obtain ⟨e, he, -⟩ := Lib.bind_eq_ok.mp hq'
  exact lt_of_le_of_lt (Nat.zero_le _) (PackedData.entry_eq_ok he).1

end Scan

/-! ## The searches behind it -/

section Clear

variable {H : HashFn} {st : Store} {k k' : U64} {x : Slot}

theorem clearEntry_addr (r : Nat) (t : Slot) : (st.clearEntry H k x).addr r t
    = if r = st.lookup.row H k ∧ t = x then 0 else st.addr r t := by
  unfold Store.clearEntry
  rw [Store.setWord_addr, addrOf_zero]
  rfl

theorem clearEntry_entryAt_of_ne {r : Nat} {t : Slot} (h : ¬ (r = st.lookup.row H k ∧ t = x)) :
    (st.clearEntry H k x).entryAt r t = st.zeroedAt (st.addr (st.lookup.row H k) x) r t := by
  unfold Store.entryAt Store.zeroedAt
  rw [clearEntry_addr, if_neg h]
  exact Function.update_apply ..

/-- The cleared slot reads entry `0`. -/
theorem clearEntry_entryAt_self : (st.clearEntry H k x).entryAt (st.lookup.row H k) x
    = if st.addr (st.lookup.row H k) x = 0 then .zero else st.packed.rawArray 0 := by
  unfold Store.entryAt
  rw [clearEntry_addr, if_pos ⟨rfl, rfl⟩]
  show Function.update st.packed.rawArray (st.addr (st.lookup.row H k) x) .zero 0 = _
  rw [Function.update_apply]
  simp only [eq_comm]

/-! ## What the cleared store keeps -/

theorem SlotsInside.clearEntry (h : SlotsInside st) : SlotsInside (st.clearEntry H k x) where
  pos := h.pos
  rows := h.rows
  empty := by
    intro r t hr ht
    unfold Store.clearEntry at ht ⊢
    rw [Store.setWord_occupied] at ht
    rw [Store.setWord_word]
    split
    · rfl
    · rename_i hne
      rw [if_neg hne] at ht
      exact h.empty r t hr ht
  inside := by
    intro r t hr ht
    unfold Store.clearEntry at ht
    rw [Store.setWord_occupied] at ht
    rw [clearEntry_addr]
    split
    · rename_i heq
      rw [if_pos heq] at ht
      exact absurd ht (by decide)
    · rename_i hne
      rw [if_neg hne] at ht
      exact h.inside r t hr ht

/-- The cleared slot is visited only where it is primary. -/
theorem clearEntry_probeOrder (r : Nat) (p : Slot) : (st.clearEntry H k x).probeOrder r p
    = p :: (st.others r p).filter (fun t => ¬ (r = st.lookup.row H k ∧ t = x)) := by
  unfold Store.probeOrder Store.others
  rw [List.filter_filter]
  congr 1
  refine List.filter_congr fun t _ => ?_
  rw [clearEntry_addr]
  by_cases ht : r = st.lookup.row H k ∧ t = x
  · simp [ht]
  · simp [ht]

theorem found_key (hx : st.found H k = some x) : (st.entryAt (st.lookup.row H k) x).key = k := by
  have hkey := List.find?_some hx
  simpa using hkey

/-- It is the first one with the key. -/
theorem found_first (hx : st.found H k = some x) (hne : x ≠ st.lookup.slot H k) :
    (st.entryAt (st.lookup.row H k) (st.lookup.slot H k)).key ≠ k := by
  intro hk
  unfold Store.found Store.probeOrder at hx
  rw [List.find?_cons_of_pos (by simpa using hk)] at hx
  exact hne (Option.some.inj hx).symm

/-- A slot with the same address reads the same key. -/
theorem found_key_of_addr (hx : st.found H k = some x) {r : Nat} {t : Slot}
    (ha : st.addr r t = st.addr (st.lookup.row H k) x) : (st.entryAt r t).key = k := by
  have hkey := found_key hx
  unfold Store.entryAt at hkey ⊢
  rw [ha]
  exact hkey

/-- The key itself. -/
theorem probe_clearEntry (hx : st.found H k = some x) :
    (st.clearEntry H k x).probe (st.lookup.row H k) (st.lookup.slot H k) k = none ↔ DeleteGone H st k x := by
  rw [Store.probe, answer_eq_none_iff, clearEntry_probeOrder]
  constructor
  · intro hall
    refine ⟨fun hxp => ?_, fun t ht hne => ?_⟩
    · have hp := hall _ (List.mem_cons_self ..)
      rw [← hxp, clearEntry_entryAt_self] at hp
      split
      · rename_i ha
        rw [if_pos ha] at hp
        exact Ne.symm hp
      · rename_i ha
        rwa [if_neg ha] at hp
    · have ht := hall t (List.mem_cons_of_mem _ (List.mem_filter.mpr ⟨ht, by simp [hne]⟩))
      rwa [clearEntry_entryAt_of_ne (fun heq => hne heq.2)] at ht
  · rintro ⟨hprimary, hothers⟩ t ht
    rcases List.mem_cons.mp ht with rfl | ht
    · by_cases hxp : x = st.lookup.slot H k
      · have hprimary := hprimary hxp
        rw [← hxp, clearEntry_entryAt_self]
        split
        · rename_i ha
          rw [if_pos ha] at hprimary
          exact Ne.symm hprimary
        · rename_i ha
          rwa [if_neg ha] at hprimary
      · -- the primary slot was visited before, and does not share the entry
        have hfirst := found_first hx hxp
        rw [clearEntry_entryAt_of_ne (fun heq => hxp heq.2.symm), Store.zeroedAt,
          if_neg (fun ha => hfirst (found_key_of_addr hx ha))]
        exact hfirst
    · obtain ⟨ht, hne⟩ := List.mem_filter.mp ht
      have hne : t ≠ x := by simpa using hne
      rw [clearEntry_entryAt_of_ne (fun heq => hne heq.2)]
      exact hothers t ht hne

/-- A search that starts at the cleared slot comes to entry `0`. -/
theorem probe_clearEntry_first (ha : st.addr (st.lookup.row H k) x ≠ 0) :
    (st.clearEntry H k x).probe (st.lookup.row H k) x (st.packed.rawArray 0).key = some (st.packed.rawArray 0).data := by
  have hent : (st.clearEntry H k x).entryAt (st.lookup.row H k) x = st.packed.rawArray 0 := by
    rw [clearEntry_entryAt_self, if_neg ha]
  exact (answer_cons_of_eq (congrArg PackedStruct.key hent)).trans (congrArg (fun e => some e.data) hent)

/-! ## The searches of the other keys -/

/-- Any other search goes through the other slots, some of which refer to the zeroed entry. -/
theorem probe_clearEntry_of_ne {r : Nat} {p : Slot} (hp : ¬ (st.addr (st.lookup.row H k) x ≠ 0 ∧
      r = st.lookup.row H k ∧ p = x ∧ (st.packed.rawArray 0).key = k')) :
    (st.clearEntry H k x).probe r p k' = answer (st.zeroedAt (st.addr (st.lookup.row H k) x) r)
      (st.orderWithout (st.lookup.row H k) x (st.addr (st.lookup.row H k) x) r p) k' := by
  have horder : ((st.clearEntry H k x).probeOrder r p).filter
        (fun t => ¬ (st.addr (st.lookup.row H k) x ≠ 0 ∧ r = st.lookup.row H k ∧ t = x))
      = st.orderWithout (st.lookup.row H k) x (st.addr (st.lookup.row H k) x) r p := by
    rw [clearEntry_probeOrder]
    unfold Store.orderWithout Store.probeOrder
    rw [List.filter_cons, List.filter_cons, List.filter_filter]
    have htail : (st.others r p).filter (fun t =>
          decide (¬ (st.addr (st.lookup.row H k) x ≠ 0 ∧ r = st.lookup.row H k ∧ t = x)) &&
            decide (¬ (r = st.lookup.row H k ∧ t = x)))
        = (st.others r p).filter (fun t =>
          ¬ (st.addr (st.lookup.row H k) x ≠ 0 ∧ r = st.lookup.row H k ∧ t = x)) := by
      refine List.filter_congr fun t ht => ?_
      by_cases heq : r = st.lookup.row H k ∧ t = x
      · -- it is visited behind the primary slot, so its address is not `0`
        have ha := (of_decide_eq_true (List.mem_filter.mp ht).2).2
        rw [heq.1, heq.2] at ha
        simp [ha, heq]
      · simp [heq]
    rw [htail]
  unfold Store.probe
  rw [← horder, ← answer_filter
    (fun t => ¬ (st.addr (st.lookup.row H k) x ≠ 0 ∧ r = st.lookup.row H k ∧ t = x))]
  · refine answer_congr fun t ht _ => ?_
    by_cases heq : r = st.lookup.row H k ∧ t = x
    · obtain ⟨rfl, rfl⟩ := heq
      have ha : st.addr (st.lookup.row H k) t = 0 := by
        by_contra ha
        have hkept := of_decide_eq_true (List.mem_filter.mp ht).2
        exact hkept ⟨ha, rfl, rfl⟩
      rw [clearEntry_entryAt_self, if_pos ha, Store.zeroedAt, if_pos rfl]
    · exact clearEntry_entryAt_of_ne heq
  · intro t ht hdrop
    obtain ⟨ha, rfl, rfl⟩ : st.addr (st.lookup.row H k) x ≠ 0 ∧ r = st.lookup.row H k ∧ t = x := by simpa using hdrop
    rw [clearEntry_entryAt_self, if_neg ha]
    rw [clearEntry_probeOrder] at ht
    rcases List.mem_cons.mp ht with rfl | ht
    · exact fun hk => hp ⟨ha, rfl, rfl, hk⟩
    · have hkept := of_decide_eq_true (List.mem_filter.mp ht).2
      exact absurd ⟨rfl, rfl⟩ hkept

/-- Before, it passed over the slot as well. -/
theorem probe_orderWithout (hx : st.found H k = some x) (hne : k' ≠ k) (r : Nat) (p : Slot) :
    st.probe r p k' = answer (st.entryAt r)
      (st.orderWithout (st.lookup.row H k) x (st.addr (st.lookup.row H k) x) r p) k' := by
  refine (answer_filter _ fun t _ hdrop => ?_).symm
  obtain ⟨-, rfl, rfl⟩ : st.addr (st.lookup.row H k) x ≠ 0 ∧ r = st.lookup.row H k ∧ t = x := by simpa using hdrop
  rw [found_key hx]
  exact hne.symm

/-- A zeroed entry is as good as one of the removed key for every key but `0`. -/
theorem answer_zeroedAt (hx : st.found H k = some x) (hne : k' ≠ k) (h0 : k' ≠ 0) {r : Nat} (order : List Slot) :
    answer (st.zeroedAt (st.addr (st.lookup.row H k) x) r) order k' = answer (st.entryAt r) order k' := by
  refine answer_congr fun t _ hkey => ?_
  unfold Store.zeroedAt at hkey ⊢
  split
  · rename_i ha
    rw [if_pos ha, found_key_of_addr hx ha] at hkey
    rcases hkey with hkey | hkey
    · exact absurd hkey.symm h0
    · exact absurd hkey.symm hne
  · rfl

/-- Key `0` may come to a zeroed entry. -/
theorem answer_zeroedAt_zero {a r : Nat} {order : List Slot} :
    answer (st.zeroedAt a r) order 0 = answer (st.entryAt r) order 0 ↔
      ∀ t, order.find? (fun t => st.addr r t = a ∨ (st.entryAt r t).key = 0) = some t → st.addr r t = a →
        answer (st.entryAt r) order 0 = some 0 := by
  have hfind : order.find? (fun t => (st.zeroedAt a r t).key = 0)
      = order.find? (fun t => st.addr r t = a ∨ (st.entryAt r t).key = 0) := by
    refine List.find?_congr fun t _ => decide_eq_decide.mpr ?_
    unfold Store.zeroedAt
    split
    · rename_i ha
      exact iff_of_true rfl (Or.inl ha)
    · rename_i ha
      exact (or_iff_right ha).symm
  unfold answer
  rw [hfind]
  cases hF : order.find? (fun t => st.addr r t = a ∨ (st.entryAt r t).key = 0) with
  | none =>
      have hnone : order.find? (fun t => (st.entryAt r t).key = 0) = none := by
        rw [List.find?_eq_none] at hF ⊢
        exact fun t ht hk => hF t ht (by simpa using Or.inr (of_decide_eq_true hk))
      rw [hnone]
      exact iff_of_true rfl (fun t ht => by cases ht)
  | some t =>
      by_cases ha : st.addr r t = a
      · have hzero : (st.zeroedAt a r t).data = 0 := by
          unfold Store.zeroedAt
          rw [if_pos ha]
          rfl
        rw [Option.map_some, hzero]
        constructor
        · exact fun heq _ _ _ => heq.symm
        · exact fun hall => (hall t rfl ha).symm
      · -- the first such slot has key `0` itself
        obtain ⟨hor, as, bs, hl, has⟩ := List.find?_eq_some_iff_append.mp hF
        have hk : (st.entryAt r t).key = 0 := (of_decide_eq_true hor).resolve_left ha
        have hsame : order.find? (fun t => (st.entryAt r t).key = 0) = some t := by
          refine List.find?_eq_some_iff_append.mpr ⟨by simpa using hk, as, bs, hl, fun u hu => ?_⟩
          have hnot := has u hu
          simp only [Bool.not_eq_true', decide_eq_false_iff_not, not_or] at hnot ⊢
          exact hnot.2
        rw [hsame]
        refine iff_of_true ?_ (fun u hu hau => ?_)
        · unfold Store.zeroedAt
          rw [Option.map_some, Option.map_some, if_neg ha]
        · obtain rfl := Option.some.inj hu
          exact absurd hau ha

/-- The other keys. -/
theorem frames_clearEntry (hx : st.found H k = some x) :
    (∀ k', k' ≠ k → (st.clearEntry H k x).probe (st.lookup.row H k') (st.lookup.slot H k') k'
        = st.probe (st.lookup.row H k') (st.lookup.slot H k') k') ↔ DeleteFrames H st k x := by
  -- what a search of the key of entry 0 answers that started at the slot
  have hbefore : ∀ k', k' ≠ k →
      st.probe (st.lookup.row H k) x k' = answer (st.entryAt (st.lookup.row H k)) (st.others (st.lookup.row H k) x) k' :=
    fun k' hne => answer_cons_of_ne (by rw [found_key hx]; exact hne.symm)
  constructor
  · intro hall
    refine ⟨fun ha hne hrow hslot => ?_, fun hk hexcept => ?_⟩
    · have hsame := hall _ hne
      rw [hrow, hslot, probe_clearEntry_first ha, hbefore _ hne] at hsame
      exact hsame.symm
    · have hsame := hall 0 hk.symm
      rw [probe_clearEntry_of_ne (fun h => hexcept ⟨h.1, h.2.2.2, h.2.1, h.2.2.1⟩), probe_orderWithout hx hk.symm] at hsame
      rw [probe_orderWithout hx hk.symm]
      exact answer_zeroedAt_zero.mp hsame
  · rintro ⟨hentry, hzero⟩ k' hne
    by_cases hfirst : st.addr (st.lookup.row H k) x ≠ 0 ∧ st.lookup.row H k' = st.lookup.row H k ∧
        st.lookup.slot H k' = x ∧ (st.packed.rawArray 0).key = k'
    · obtain ⟨ha, hrow, hslot, rfl⟩ := hfirst
      rw [hrow, hslot, probe_clearEntry_first ha, hbefore _ hne]
      exact (hentry ha hne hrow hslot).symm
    · rw [probe_clearEntry_of_ne hfirst]
      by_cases h0 : k' = 0
      · subst h0
        have hzero := hzero hne.symm (fun h => hfirst ⟨h.1, h.2.2.1, h.2.2.2, h.2.1⟩)
        rw [probe_orderWithout hx hne] at hzero ⊢
        exact answer_zeroedAt_zero.mpr hzero
      · rw [answer_zeroedAt hx hne h0, probe_orderWithout hx hne]

/-! ## When it is a remove -/

/-- **`replay_delete` is a remove** exactly when it finds the store `DeletePlain`. -/
theorem replayRemove_iff (h : SlotsInside st) :
    (∃ st', st.replayRemove H k = .ok st' ∧ st'.numaSearch H k = .ok none ∧
      ∀ k', k' ≠ k → st'.numaSearch H k' = st.numaSearch H k') ↔ DeletePlain H st k := by
  have hok : ∀ {a b : Option U64}, (Except.ok a : Exec (Option U64)) = .ok b ↔ a = b :=
    ⟨fun e => Except.ok.inj e, fun e => congrArg Except.ok e⟩
  by_cases hpos : 0 < st.packed.numElements
  · rw [replayRemove_ok h hpos]
    cases hx : st.found H k with
    | none =>
        refine iff_of_true ⟨st, rfl, ?_, fun _ _ => rfl⟩ ⟨hpos, fun x hx' => ?_, fun x hx' => ?_⟩
        · rw [h.numaSearch_ok hpos, Store.probe, answer]
          rw [show (st.probeOrder _ _).find? _ = none from hx]
          rfl
        · rw [hx] at hx'
          cases hx'
        · rw [hx] at hx'
          cases hx'
    | some x =>
        have hsearch : ((st.clearEntry H k x).numaSearch H k = .ok none ∧
            ∀ k', k' ≠ k → (st.clearEntry H k x).numaSearch H k' = st.numaSearch H k') ↔
              DeleteGone H st k x ∧ DeleteFrames H st k x := by
          simp only [h.numaSearch_ok hpos, (h.clearEntry (H := H)).numaSearch_ok hpos, hok]
          exact and_congr (probe_clearEntry hx) (frames_clearEntry hx)
        constructor
        · rintro ⟨st', hst', hall⟩
          cases hst'
          obtain ⟨hgone, hframes⟩ := hsearch.mp hall
          refine ⟨hpos, fun y hy => ?_, fun y hy => ?_⟩
          · exact Option.some.inj (hx.symm.trans hy) ▸ hgone
          · exact Option.some.inj (hx.symm.trans hy) ▸ hframes
        · intro hplain
          exact ⟨_, rfl, hsearch.mpr ⟨hplain.gone x hx, hplain.frames x hx⟩⟩
  · refine iff_of_false ?_ (fun hplain => hpos hplain.pos)
    rintro ⟨st', hst', -⟩
    exact hpos (replayRemove_pos hst')

end Clear

end Outback
