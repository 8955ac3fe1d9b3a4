import Outback.Numa.Correctness.DirectTable
import Outback.Numa.Correctness.SearchExact
import Outback.Rdma.Correctness.ServerWf

/-!
# `Correctness.Removal` — what a removal does to the other slots

`outback_remove_callback`, `outback_remove_direct` and `numa_remove` are one operation on three stores: read the word of a
slot, compare the key of the entry it names, blank that entry and clear the slot. None of them looks whether the slot is
occupied, and the word of an empty one names entry `0`. **`removal_keeps_iff`**: in every reachable store, through whatever
slot the caller supplies, the removal leaves every slot that is still occupied with its entry, key and data exactly where
`SafeRemoval` holds; through an occupied slot that is always so while indices are unique. `removal_destroys` is one run of
each store in which an occupied slot loses its entry.
-/

namespace Outback

/-- A removal of `k` that reaches this entry leaves its key and its data. -/
def PackedStruct.Harmless (e : PackedStruct) (k : U64) : Prop := e.key ≠ k ∨ (e.key = 0 ∧ e.data = 0)

instance (e : PackedStruct) (k : U64) : Decidable (e.Harmless k) := inferInstanceAs (Decidable (_ ∨ _))

namespace SlotTable

/-- Every slot still occupied refers to the entry it referred to, with the same key and data. -/
def Keeps (t t' : SlotTable) : Prop :=
  ∀ r s, r < t'.buckets.numElements → t'.Occupied r s → t'.addr r s = t.addr r s ∧
    (t'.entryAt r s).key = (t.entryAt r s).key ∧ (t'.entryAt r s).data = (t.entryAt r s).data

/-- No other occupied slot has the index of this one. -/
def Alone (t : SlotTable) (r : Nat) (s : Slot) : Prop :=
  ∀ r' s', r' < t.buckets.numElements → t.Occupied r' s' → t.addr r' s' = t.addr r s → r' = r ∧ s' = s

/-- Where a removal of `k` at slot `s` of row `r` is safe. Through an occupied slot: no index was handed out twice, or not
    this one, or the entry has another key or is blank. Through an empty slot: the same of entry `0`, which its word names,
    or no occupied slot refers to that entry. -/
structure SafeRemoval (t : SlotTable) (r : Nat) (s : Slot) (k : U64) : Prop where
  occupied : t.Occupied r s → t.packed.num ≤ 2 ^ 32 ∨ (t.entryAt r s).Harmless k ∨ t.Alone r s
  empty : ¬ t.Occupied r s → (t.packed.rawArray 0).Harmless k ∨
    ∀ r' s', r' < t.buckets.numElements → t.Occupied r' s' → t.addr r' s' ≠ 0

section Table

variable {t : SlotTable} {r : Nat} {s : Slot} {k : U64}

theorem Keeps.refl (t : SlotTable) : t.Keeps t := fun _ _ _ _ => ⟨rfl, rfl, rfl⟩

/-- What a slot refers to, once an entry is blanked and its slot cleared. -/
theorem erase_entryAt {r' : Nat} {s' : Slot} (h : ¬(r' = r ∧ s' = s)) :
    (t.erase r s).entryAt r' s' = if t.addr r' s' = t.addr r s then .zero else t.entryAt r' s' := by
  unfold entryAt
  rw [erase_addr, if_neg h]
  exact Function.update_apply ..

/-- A removal keeps the others exactly where it blanks no entry that another occupied slot refers to. -/
theorem keeps_removeAt_iff : t.Keeps (t.removeAt r s k) ↔ (t.entryAt r s).Harmless k ∨ t.Alone r s := by
  unfold removeAt
  by_cases hk : (t.entryAt r s).key = k
  · rw [if_pos hk]
    constructor
    · intro hkeeps
      by_cases halone : t.Alone r s
      · exact Or.inr halone
      · -- some other slot refers to the entry, and keeps its key and data: they were blank
        unfold Alone at halone
        push Not at halone
        obtain ⟨r', s', hr', hocc, ha, hne⟩ := halone
        have hslot : ¬(r' = r ∧ s' = s) := fun h => hne h.1 h.2
        obtain ⟨-, hkey, hdata⟩ := hkeeps r' s' hr' (erase_occupied.mpr ⟨hslot, hocc⟩)
        have hentry : t.entryAt r' s' = t.entryAt r s := congrArg t.packed.rawArray ha
        rw [erase_entryAt hslot, if_pos ha, hentry] at hkey hdata
        exact Or.inl (Or.inr ⟨hkey.symm, hdata.symm⟩)
    · intro hsafe r' s' hr' hocc
      obtain ⟨hslot, hocc⟩ := erase_occupied.mp hocc
      rw [erase_addr, if_neg hslot, erase_entryAt hslot]
      refine ⟨rfl, ?_⟩
      split
      · rename_i ha
        rcases hsafe with (hne | ⟨hkey, hdata⟩) | halone
        · exact absurd hk hne
        · have hentry : t.entryAt r' s' = t.entryAt r s := congrArg t.packed.rawArray ha
          rw [hentry]
          exact ⟨hkey.symm, hdata.symm⟩
        · exact absurd (halone r' s' hr' hocc ha) hslot
      · exact ⟨rfl, rfl⟩
  · rw [if_neg hk]
    exact iff_of_true (Keeps.refl t) (Or.inl (Or.inl hk))

/-- A slot whose occupation is known: the two parts of `SafeRemoval` are what matters there. -/
theorem safeRemoval_iff (hempty : ¬ t.Occupied r s → t.addr r s = 0)
    (hdistinct : t.packed.num ≤ 2 ^ 32 → t.Occupied r s → t.Alone r s) :
    t.SafeRemoval r s k ↔ (t.entryAt r s).Harmless k ∨ t.Alone r s := by
  by_cases hocc : t.Occupied r s
  · constructor
    · intro hsafe
      rcases hsafe.occupied hocc with hle | hsafe
      · exact Or.inr (hdistinct hle hocc)
      · exact hsafe
    · intro hsafe
      exact ⟨fun _ => Or.inr hsafe, fun hne => absurd hocc hne⟩
  · have ha := hempty hocc
    have hentry : t.entryAt r s = t.packed.rawArray 0 := congrArg t.packed.rawArray ha
    have halone : t.Alone r s ↔ ∀ r' s', r' < t.buckets.numElements → t.Occupied r' s' → t.addr r' s' ≠ 0 := by
      unfold Alone
      rw [ha]
      constructor
      · intro halone r' s' hr' hocc' ha'
        obtain ⟨rfl, rfl⟩ := halone r' s' hr' hocc' ha'
        exact hocc hocc'
      · intro hnone r' s' hr' hocc' ha'
        exact absurd ha' (hnone r' s' hr' hocc')
    rw [hentry, halone]
    exact ⟨fun hsafe => hsafe.empty hocc, fun hsafe => ⟨fun h => absurd h hocc, fun _ => hsafe⟩⟩

theorem Allotted.keeps_iff (h : t.Allotted) (hr : r < t.buckets.numElements) (s : Slot) (k : U64) :
    t.Keeps (t.removeAt r s k) ↔ t.SafeRemoval r s k := by
  rw [keeps_removeAt_iff, safeRemoval_iff (h.empty r s hr)]
  intro hle hocc r' s' hr' hocc' ha
  exact h.distinct hle r' s' r s hr' hr hocc' hocc ha

end Table

end SlotTable

/-! ## The table of the RDMA server -/

/-- The bucket array and the packed array. -/
def RdmaServer.table (s : RdmaServer) : SlotTable := ⟨s.buckets, s.packed⟩

section Rdma

variable {H : HashFn} {s s' : RdmaServer}

/-- Every effect of a request keeps the table in order. -/
theorem Effect.allotted {req : Request} (he : Effect H s req s') (h : s.table.Allotted) : s'.table.Allotted := by
  cases he with
  | read => exact h
  | insert hst hroom => exact h.insertAt hroom ..
  | rewrite hst hk => exact h.setEntry ..
  | collide hst hk hroom => exact h.push hroom _
  | @reseed loc k v hst seed hseed hroom =>
      -- an old word goes to its key's slot under the new seed
      refine h.of_origin (fun r t => if r = locRow loc then seedSlot H seed (s.entryAt r t).key else t)
        (locRow loc, seedSlot H seed k) rfl rfl (Nat.le_succ _) hroom ?_ ?_
      · intro r t hr hocc
        by_cases hrow : r = locRow loc
        · subst hrow
          rcases RdmaServer.reseed_word_cases hseed (v := v) t with hz | ⟨-, hnew⟩ | ⟨t₀, ht₀, -, hold⟩
          · exact (congrArg addrOf hz).trans addrOf_zero
          · exact absurd ((congrArg occ hnew).trans RdmaServer.occ_newWord) hocc
          · exact absurd ((congrArg occ hold).trans ht₀) hocc
        · have hword : (s.reseed H (locRow loc) k v seed).word r t = s.word r t := RdmaServer.reseed_word_of_ne hrow
          exact (congrArg addrOf hword).trans (h.empty r t hr fun ht => hocc ((congrArg occ hword).trans ht))
      · intro r t hr hocc
        by_cases hrow : r = locRow loc
        · subst hrow
          rcases RdmaServer.reseed_word_cases hseed (v := v) t with hz | ⟨hslot, hnew⟩ | ⟨t₀, ht₀, hslot, hold⟩
          · exact absurd (hocc.symm.trans (congrArg occ hz)) (by decide)
          · exact Or.inr ⟨Prod.ext rfl hslot, (congrArg addrOf hnew).trans RdmaServer.addrOf_newWord, Nat.lt_succ_self _⟩
          · exact Or.inl ⟨t₀, ht₀, hslot.trans (if_pos rfl).symm, congrArg addrOf hold⟩
        · have hword : (s.reseed H (locRow loc) k v seed).word r t = s.word r t := RdmaServer.reseed_word_of_ne hrow
          exact Or.inl ⟨t, (congrArg occ hword).symm.trans hocc, (if_neg hrow).symm, congrArg addrOf hword⟩
  | overflow hst hroom => exact (h.push hroom _).setCachebit ..
  | update hk => exact h.setEntry ..
  | miss hk hroom => exact h.push hroom _
  | erase hk => exact h.erase ..
  | absent hk => exact h

theorem RdmaReachedFrom.allotted {existKeys : List U64} {C : RdmaServer → Request → Prop}
    (h : RdmaReachedFrom H existKeys C s) : s.table.Allotted := by
  obtain ⟨cp, alien, mem, s₀, hld, hok, hrun⟩ := h
  have hstart : s₀.table.Allotted := by
    obtain ⟨s', hok', -, hbk, hnum, hel, -⟩ := rdmaSetup_ok H cp existKeys alien mem
    obtain rfl : s' = s₀ := Except.ok.inj (hok'.symm.trans hok)
    unfold RdmaServer.table
    rw [hbk]
    exact hld.allotted hnum hel
  exact hrun.invariant hstart (fun _ _ _ ht _ hstep => (step_effect hstep).allotted ht)

/-- `outback_remove_callback` is `removeAt` of the slot in its location. -/
theorem outbackRemoveCallback_table {loc : Nat} {k : U64} {rep : ReplyValue}
    (h : s.outbackRemoveCallback loc k = .ok (s', rep)) :
    locRow loc < s.table.buckets.numElements ∧ s'.table = s.table.removeAt (locRow loc) (locSlot loc) k := by
  have heffect := (remove_effect h (H := fastHasher64)).1
  unfold RdmaServer.outbackRemoveCallback at h
  obtain ⟨b, hb, -⟩ := Lib.bind_eq_ok.mp h
  refine ⟨(LudoBuckets.row_eq_ok hb).1, ?_⟩
  unfold SlotTable.removeAt
  cases heffect with
  | erase hk => exact (if_pos hk).symm
  | absent hk => exact (if_neg hk).symm

end Rdma

/-! ## The table of the clients' store -/

/-- The bucket array and the packed array of the region. -/
def Store.table (st : Store) : SlotTable := ⟨st.buckets, st.packed⟩

section Clients

variable {H : HashFn} {nkeys : Nat} {st st' : Store} {k : U64}

theorem numaRemove_table (h : st.numaRemove H k = .ok st') :
    st'.table = st.table.removeAt (st.lookup.row H k) (st.lookup.slot H k) k := by
  unfold SlotTable.removeAt
  rcases numaRemove_cases h with ⟨hk, rfl⟩ | ⟨hk, rfl⟩
  · exact (if_neg hk).symm
  · exact (if_pos hk).symm

/-- The lanes hand out every index once, so an occupied slot is always alone. -/
theorem StoreInv.keeps_iff (h : StoreInv nkeys st) (k : U64) :
    st.table.Keeps (st.table.removeAt (st.lookup.row H k) (st.lookup.slot H k) k) ↔
      st.table.SafeRemoval (st.lookup.row H k) (st.lookup.slot H k) k := by
  have hrow := h.row_lt (H := H) k
  have halone : st.table.Occupied (st.lookup.row H k) (st.lookup.slot H k) →
      st.table.Alone (st.lookup.row H k) (st.lookup.slot H k) := by
    intro hocc r' s' hr' hocc' ha
    have hr' : r' < st.lookup.numBuckets := lt_of_lt_of_eq hr' h.buckets
    exact h.distinct r' s' _ _ hr' hrow hocc' hocc ha
  have hempty : ¬ st.table.Occupied (st.lookup.row H k) (st.lookup.slot H k) →
      st.table.addr (st.lookup.row H k) (st.lookup.slot H k) = 0 := h.addr_of_empty hrow
  rw [SlotTable.keeps_removeAt_iff, SlotTable.safeRemoval_iff hempty (fun _ => halone)]

end Clients

/-! ## The three removals -/

/-- **Exactly when a removal keeps the other slots.** In every store reached by its own operations, through any slot. -/
theorem removal_keeps_iff {H : HashFn} {existKeys : List U64} (k : U64) :
    (∀ s loc s' rep, RdmaReachedFrom H existKeys Lib.anyStep s → s.outbackRemoveCallback loc k = .ok (s', rep) →
      (s.table.Keeps s'.table ↔ s.table.SafeRemoval (locRow loc) (locSlot loc) k)) ∧
    (∀ s loc s' rep, DirectReachedFrom H existKeys Lib.anyStep s → s.outbackRemoveDirect loc k = .ok (s', rep) →
      (s.table.Keeps s'.table ↔ s.table.SafeRemoval (locRow loc) (locSlot loc) k)) ∧
    (∀ ss c st', ReachedByClients H existKeys ss → (ss.store c).numaRemove H k = .ok st' →
      ((ss.store c).table.Keeps st'.table ↔
        (ss.store c).table.SafeRemoval ((ss.lookup c).row H k) ((ss.lookup c).slot H k) k)) := by
  refine ⟨?_, ?_, ?_⟩
  · intro s loc s' rep hreach hrem
    obtain ⟨hrow, htable⟩ := outbackRemoveCallback_table hrem
    rw [htable]
    exact hreach.allotted.keeps_iff hrow _ k
  · intro s loc s' rep hreach hrem
    have hinv := hreach.inv
    rw [hinv.removeDirect] at hrem
    obtain ⟨hrow, htable⟩ := applyRemove_table hrem
    rw [htable]
    exact hinv.table.keeps_iff hrow _ k
  · intro ss c st' hreach hrem
    rw [numaRemove_table hrem]
    exact (hreach.storeInv c).keeps_iff k

/-- A removal of key 301 through its own slot of row 31 clears that slot and keeps the one of key 0. -/
theorem removal_keeps_iff_pair :
    (∃ (s s' : RdmaServer) (rep : ReplyValue), RdmaReachedFrom fastHasher64 [0, 301] Lib.anyStep s ∧
      s.outbackRemoveCallback 126 301 = .ok (s', rep) ∧ s'.table.Occupied 31 1 ∧ ¬ s'.table.Occupied 31 2 ∧
      s.table.Keeps s'.table) ∧
    (∃ (s s' : NumaServer) (rep : ReplyValue), DirectReachedFrom fastHasher64 [0, 301] Lib.anyStep s ∧
      s.outbackRemoveDirect 126 301 = .ok (s', rep) ∧ s'.table.Occupied 31 1 ∧ ¬ s'.table.Occupied 31 2 ∧
      s.table.Keeps s'.table) ∧
    ∃ (ss : SharedStore) (st' : Store), ReachedByClients fastHasher64 [0, 301] ss ∧
      (ss.store 3).numaRemove fastHasher64 301 = .ok st' ∧ st'.table.Occupied 31 1 ∧ ¬ st'.table.Occupied 31 2 ∧
      (ss.store 3).table.Keeps st'.table := by
  obtain ⟨hrdma, hdirect, hclients⟩ := @removal_keeps_iff fastHasher64 [0, 301] 301
  -- indices are unique while there are no more than `2 ^ 32`
  have hsafe : ∀ {t : SlotTable} {r : Nat} {q : Slot}, t.packed.num ≤ 2 ^ 32 → t.Occupied r q → t.SafeRemoval r q 301 :=
    fun hnum hocc => ⟨fun _ => .inl hnum, fun hempty => absurd hocc hempty⟩
  have hserver := rowServer_reached Lib.anyStep rowTable_pair
  have hnuma := rowStore_direct Lib.anyStep rowTable_pair
  have hshared := rowStore_byClients rowTable_pair .refl
  have hrem : (rowServer 31 0 [0, 301]).outbackRemoveCallback 126 301 = .ok _ := rfl
  have hrem' : ((rowStore 31 0 [0, 301]).numaServer 1 1).outbackRemoveDirect 126 301 = .ok _ := rfl
  have hrem'' : ((rowStore 31 0 [0, 301]).shared.store 3).numaRemove fastHasher64 301 = .ok _ := rfl
  refine ⟨⟨_, _, _, hserver, hrem, by decide +kernel, by decide +kernel, ?_⟩,
    ⟨_, _, _, hnuma, hrem', by decide +kernel, by decide +kernel, ?_⟩,
    ⟨_, _, hshared, hrem'', by decide +kernel, by decide +kernel, ?_⟩⟩
  · exact (hrdma _ 126 _ _ hserver hrem).mpr (hsafe (by decide +kernel) (by decide +kernel))
  · exact (hdirect _ 126 _ _ hnuma hrem').mpr (hsafe (by decide +kernel) (by decide +kernel))
  · exact (hclients _ 3 _ hshared hrem'').mpr (hsafe (by decide +kernel) (by decide +kernel))

/-- Key 7 removed through an empty slot of its row, at either server: the entry its own slot refers to is blank. Two clients:
    a put of key 1379 into the full row 31 moves client 1 to seed 3; client 0 stores 5 under key 0 and removes key 938; and the
    slot of client 1 for key 0 is the empty one. -/
theorem removal_destroys :
    (∃ (s s' : RdmaServer) (rep : ReplyValue), RdmaReachedFrom fastHasher64 [7] Lib.anyStep s ∧
      s.outbackRemoveCallback 1692 7 = .ok (s', rep) ∧ locRow 1692 = s.lookup.row fastHasher64 7 ∧
      ¬ s.table.Keeps s'.table) ∧
    (∃ (s s' : NumaServer) (rep : ReplyValue), DirectReachedFrom fastHasher64 [7] Lib.anyStep s ∧
      s.outbackRemoveDirect 1692 7 = .ok (s', rep) ∧ locRow 1692 = s.orch.lookup.row fastHasher64 7 ∧
      ¬ s.table.Keeps s'.table) ∧
    ∃ (ss : SharedStore) (st' : Store), ReachedByClients fastHasher64 [0, 301, 540, 938] ss ∧
      (ss.store 1).numaRemove fastHasher64 0 = .ok st' ∧ ¬ (ss.store 1).table.Keeps st'.table := by
  refine ⟨⟨rowServer 423 0 [7], _, _, rowServer_seven _, rfl, by decide +kernel, ?_⟩,
    ⟨(rowStore 423 0 [7]).numaServer 1 1, _, _, directServer_seven _, rfl, by decide +kernel, ?_⟩, ?_⟩
  · intro hkeeps
    exact absurd (hkeeps 423 1 (by decide) (by decide +kernel)).2.1 (by decide +kernel)
  · intro hkeeps
    exact absurd (hkeeps 423 1 (by decide) (by decide +kernel)).2.1 (by decide +kernel)
  · obtain ⟨ss, hrun, htest⟩ : ∃ ss, Lib.Reaches (SharedStore.step fastHasher64) Lib.anyStep
        (rowStore 31 2 [0, 301, 540, 938]).shared ss ∧
        decide (((ss.store 1).numaRemove fastHasher64 0).isOk = true ∧
          (ss.lookup 1).row fastHasher64 0 = 31 ∧ (ss.lookup 1).slot fastHasher64 0 = 1 ∧
          ¬ ((ss.store 1).table.entryAt 31 1).Harmless 0 ∧ 31 < ss.buckets.numElements ∧
          (ss.store 1).table.Occupied 31 0 ∧ (ss.store 1).table.addr 31 0 = (ss.store 1).table.addr 31 1) = true :=
      Lib.exists_along [(1, .put 0 1379 99), (0, .update 0 5), (0, .remove 938)] (by decide +kernel)
    obtain ⟨hok, hr, hs, hharm, hrow, hocc, haddr⟩ := of_decide_eq_true htest
    cases hrem : (ss.store 1).numaRemove fastHasher64 0 with
    | error e =>
        rw [hrem] at hok
        cases hok
    | ok st' =>
        refine ⟨ss, st', rowStore_byClients rowTable_full hrun, hrem, ?_⟩
        rw [numaRemove_table hrem, SlotTable.keeps_removeAt_iff]
        show ¬ (((ss.store 1).table.entryAt ((ss.lookup 1).row fastHasher64 0) ((ss.lookup 1).slot fastHasher64 0)).Harmless 0 ∨
          (ss.store 1).table.Alone ((ss.lookup 1).row fastHasher64 0) ((ss.lookup 1).slot fastHasher64 0))
        rw [hr, hs]
        rintro (hh | halone)
        · exact hharm hh
        · exact absurd (halone 31 0 hrow hocc haddr).2 (by decide)

end Outback
