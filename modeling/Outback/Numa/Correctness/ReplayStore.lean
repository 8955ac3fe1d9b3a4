import Outback.Numa.Correctness.PutFrame
import Outback.Numa.Correctness.SystemSteps

/-!
# `Numa.Correctness.ReplayStore` — what a replay does to the searches of a region

`replay_insert` has the four cases of a put, and takes its entries from the counter of `new_packed_data_`; `replay_delete`
clears the first visited slot whose entry has the key. Here both run on a store, the region behind the orchestrator's views.
**`replayPut_iff`** and **`replayRemove_iff`** say when they are the put and the remove of one key: the key is answered
accordingly, and the answer of every other key stays.

A new entry lies where other slots may refer to already, and a slot that refers to entry `0` is read only where it is
primary. So the conditions are about the slots that share an entry, and about entry `0`.
-/

namespace Outback

/-! ## The store of the new region -/

/-- The region behind the orchestrator's views, read with `ludo_lookup_`. -/
def Server.newStore (s : Server) (w : ReplayWrappers) : Store where
  lookup := s.lookup
  buckets := ⟨(s.shared.regions w.ver).buckets, w.numBuckets⟩
  packed := ⟨(s.shared.regions w.ver).packed, w.num, w.numDataEntries⟩
  lanes := s.registry.lanes
  numDataEntries := w.numDataEntries

namespace Store

variable (H : HashFn)

/-- `replay_insert` on a store. -/
def replayPut (st : Store) (key val : U64) : Exec Store := do
  let (pd, lbs) ← Server.replayPut H st.lookup st.buckets st.packed key val
  return { st with packed := pd, buckets := lbs }

/-- `replay_delete` on a store. -/
def replayRemove (st : Store) (key : U64) : Exec Store := do
  let (pd, lbs) ← Server.replayRemove H st.lookup st.buckets st.packed key
  return { st with packed := pd, buckets := lbs }

/-- A new entry at the counter, and slot `s` of the key's row referring to it. -/
def loadEntry (st : Store) (k v : U64) (s : Slot) : Store :=
  { st with
    packed := st.packed.push ⟨k, 8, v⟩
    buckets := st.buckets.writeAddr H k (st.lookup.row H k) s ((BitVec.ofNat 32 st.packed.num).setWidth 64) }

/-- The entry of slot `x` of the key's row zeroed, and the slot cleared. -/
def clearEntry (st : Store) (k : U64) (x : Slot) : Store :=
  (st.setEntry (st.addr (st.lookup.row H k) x) .zero).setWord (st.lookup.row H k) x 0

end Store

/-! ## Slots inside of the arrays -/

/-- What a replay needs of a store: rows and addresses in range, and no garbage in an empty slot. -/
structure SlotsInside (st : Store) : Prop where
  pos : 0 < st.lookup.numBuckets
  rows : st.lookup.numBuckets ≤ st.buckets.numElements
  empty : ∀ r s, r < st.lookup.numBuckets → ¬ st.Occupied r s → st.word r s = 0
  inside : ∀ r s, r < st.lookup.numBuckets → st.Occupied r s → st.addr r s < st.packed.numElements

namespace SlotsInside

variable {H : HashFn} {st : Store}

theorem row_lt (h : SlotsInside st) (k : U64) : st.lookup.row H k < st.lookup.numBuckets := DataPlaneLudo.row_lt H h.pos k

theorem row_inside (h : SlotsInside st) (k : U64) : st.lookup.row H k < st.buckets.numElements :=
  (h.row_lt k).trans_le h.rows

theorem addr_of_empty (h : SlotsInside st) {r : Nat} {s : Slot} (hr : r < st.lookup.numBuckets)
    (hs : ¬ st.Occupied r s) : st.addr r s = 0 := by
  rw [Store.addr, h.empty r s hr hs, addrOf_zero]

theorem addr_lt (h : SlotsInside st) (hpos : 0 < st.packed.numElements) {r : Nat} (s : Slot)
    (hr : r < st.lookup.numBuckets) : st.addr r s < st.packed.numElements := by
  by_cases hs : st.Occupied r s
  · exact h.inside r s hr hs
  · rw [h.addr_of_empty hr hs]
    exact hpos

/-- An address other than `0` is that of an occupied slot. -/
theorem inside_of_ne (h : SlotsInside st) {r : Nat} {s : Slot} (hr : r < st.lookup.numBuckets) (ha : st.addr r s ≠ 0) :
    st.addr r s < st.packed.numElements := by
  by_cases hs : st.Occupied r s
  · exact h.inside r s hr hs
  · exact absurd (h.addr_of_empty hr hs) ha

theorem numaSearch_ok (h : SlotsInside st) (hpos : 0 < st.packed.numElements) (k : U64) :
    st.numaSearch H k = .ok (st.probe (st.lookup.row H k) (st.lookup.slot H k) k) :=
  numaSearch_eq_probe (h.row_inside k) (fun s => h.addr_lt hpos s (h.row_lt k))

end SlotsInside

/-! ## `replay_insert` -/

/-- The outcomes of `replay_insert`. -/
inductive ReplayCase (H : HashFn) (st : Store) (k v : U64) : Store → Prop where
  /-- a new entry in an empty slot -/
  | load (s : Slot) (hs : st.putSlot H k = some s) (hroom : st.packed.num < st.packed.numElements) :
      ReplayCase H st k v (st.loadEntry H k v s)
  /-- the fingerprint matches and so does the key -/
  | update (hst : st.status H k = .maybeUpdate) (hk : (st.primaryEntry H k).key = k) :
      ReplayCase H st k v (st.setEntry (st.primaryAddr H k) ⟨k, 8, v⟩)
  /-- the fingerprint matches, the key does not -/
  | dropped (hst : st.status H k = .maybeUpdate) (hk : (st.primaryEntry H k).key ≠ k) : ReplayCase H st k v st
  | discarded (hst : st.status H k = .full) : ReplayCase H st k v st

section Insert

variable {H : HashFn} {st st' : Store} {k k' v : U64}

/-- A replay that returns has one of the four outcomes. -/
theorem replayPut_inv (hok : st.replayPut H k v = .ok st') : ReplayCase H st k v st' := by
  obtain ⟨⟨pd, lbs⟩, hput, hok⟩ := Lib.bind_eq_ok.mp hok
  cases hok
  unfold Server.replayPut at hput
  obtain ⟨b, hb, hput⟩ := Lib.bind_eq_ok.mp hput
  obtain ⟨-, rfl⟩ := LudoBuckets.row_eq_ok hb
  simp only [Store.addrOf_slots] at hput
  cases hst : st.status H k with
  | good =>
      rw [show LudoBucket.checkSlots H _ k _ = .good from hst] at hput
      obtain ⟨q, hq, hput⟩ := Lib.bind_eq_ok.mp hput
      obtain ⟨hroom, rfl⟩ := PackedData.bulkLoadData_eq_ok hq
      cases hput
      exact .load (st.lookup.slot H k) (by unfold Store.putSlot; rw [hst]) hroom
  | maybeUpdate =>
      rw [show LudoBucket.checkSlots H _ k _ = .maybeUpdate from hst] at hput
      obtain ⟨e, he, hput⟩ := Lib.bind_eq_ok.mp hput
      obtain rfl : e = st.primaryEntry H k := (PackedData.entry_eq_ok he).2
      by_cases hk : (st.primaryEntry H k).key = k
      · rw [if_pos hk] at hput
        obtain ⟨pd', hpd, hput⟩ := Lib.bind_eq_ok.mp hput
        obtain ⟨-, rfl⟩ := PackedData.updateData_eq_ok hpd
        cases hput
        exact .update hst hk
      · rw [if_neg hk] at hput
        cases hput
        exact .dropped hst hk
  | emptyExists =>
      rw [show LudoBucket.checkSlots H _ k _ = .emptyExists from hst] at hput
      obtain ⟨s, hs⟩ := exists_putSlot_of_emptyExists hst
      simp only [find_eq_putSlot hst, hs] at hput
      obtain ⟨q, hq, hput⟩ := Lib.bind_eq_ok.mp hput
      obtain ⟨hroom, rfl⟩ := PackedData.bulkLoadData_eq_ok hq
      cases hput
      exact .load s hs hroom
  | full =>
      rw [show LudoBucket.checkSlots H _ k _ = .full from hst] at hput
      cases hput
      exact .discarded hst

/-- It returns, as long as there is room for what it loads. -/
theorem replayPut_returns (h : SlotsInside st)
    (hroom : (st.putSlot H k).isSome → st.packed.num < st.packed.numElements) (v : U64) :
    ∃ st', st.replayPut H k v = .ok st' := by
  unfold Store.replayPut Server.replayPut
  simp only [LudoBuckets.row_ok (h.row_inside k), Exec.ok_bind, Store.addrOf_slots]
  cases hst : st.status H k with
  | good =>
      rw [show LudoBucket.checkSlots H _ k _ = .good from hst]
      have hroom := hroom (by unfold Store.putSlot; rw [hst]; rfl)
      simp only [PackedData.bulkLoadData_ok hroom]
      exact ⟨_, rfl⟩
  | maybeUpdate =>
      rw [show LudoBucket.checkSlots H _ k _ = .maybeUpdate from hst]
      have hlt := h.inside _ _ (h.row_lt k) (occupied_of_status_ne (by rw [hst]; decide))
      simp only [PackedData.entry_ok hlt, Exec.ok_bind, PackedData.updateData_ok hlt]
      split
      · exact ⟨_, rfl⟩
      · exact ⟨_, rfl⟩
  | emptyExists =>
      rw [show LudoBucket.checkSlots H _ k _ = .emptyExists from hst]
      obtain ⟨s, hs⟩ := exists_putSlot_of_emptyExists hst
      have hroom := hroom (by rw [hs]; rfl)
      simp only [find_eq_putSlot hst, hs, PackedData.bulkLoadData_ok hroom]
      exact ⟨_, rfl⟩
  | full =>
      rw [show LudoBucket.checkSlots H _ k _ = .full from hst]
      exact ⟨_, rfl⟩

end Insert

/-! ## What a replayed put is to do -/

namespace Store

/-- Slot `t` of row `r` reads what `bulk_load_data` writes next, once slot `s` of row `q` refers to it. -/
def ReadsNew (st : Store) (q : Nat) (s : Slot) (r : Nat) (t : Slot) : Prop :=
  (r = q ∧ t = s) ∨ st.addr r t = st.packed.num

instance (st : Store) (q : Nat) (s : Slot) (r : Nat) (t : Slot) : Decidable (st.ReadsNew q s r t) :=
  inferInstanceAs (Decidable (_ ∨ _))

/-- The slots of row `r` that a search visits once slot `s` refers to what `bulk_load_data` writes next. -/
def orderWith (st : Store) (r : Nat) (p s : Slot) : List Slot :=
  p :: (List.finRange 4).filter (fun t => t ≠ p ∧ (if t = s then st.packed.num else st.addr r t) ≠ 0)

end Store

/-- What the store must look like for `replay_insert(k, v)` to become visible. With `r` the row of `k` and `p` its primary
    slot:
    * an empty primary slot always does;
    * a fingerprint match does when the entry there has the key, or when the search answers `v` already;
    * in a row with an empty slot, the search must come to the new entry before it comes to the key with other data, and
      it does not come to a slot that refers to entry `0`;
    * in a full row nothing is written. -/
def InsertVisible (H : HashFn) (st : Store) (k v : U64) : Prop :=
  let r := st.lookup.row H k
  let p := st.lookup.slot H k
  match st.status H k with
  | .good => True
  | .maybeUpdate => (st.entryAt r p).key = k ∨ st.probe r p k = some v
  | .emptyExists => ∀ s, st.putSlot H k = some s → ∃ t,
      (st.orderWith r p s).find? (fun t => st.ReadsNew r s r t ∨ (st.entryAt r t).key = k) = some t ∧
        (st.ReadsNew r s r t ∨ (st.entryAt r t).data = v)
  | .full => st.probe r p k = some v

/-- What it must look like for the other keys to be answered as before: the key that the overwritten entry had, and the key
    of entry `0`, which an empty primary slot reads, must have the same answer without the slots that read the new entry. -/
def InsertFrames (H : HashFn) (st : Store) (k : U64) : Prop :=
  ∀ s, st.putSlot H k = some s →
    ∀ k' ∈ [(st.packed.rawArray 0).key, (st.packed.rawArray st.packed.num).key], k' ≠ k →
      answer (st.entryAt (st.lookup.row H k')) ((st.probeOrder (st.lookup.row H k') (st.lookup.slot H k')).filter
          (fun t => ¬ st.ReadsNew (st.lookup.row H k) s (st.lookup.row H k') t)) k'
        = st.probe (st.lookup.row H k') (st.lookup.slot H k') k'

instance (H : HashFn) (st : Store) (k v : U64) : Decidable (InsertVisible H st k v) := by
  unfold InsertVisible
  split <;> infer_instance

instance (H : HashFn) (st : Store) (k : U64) : Decidable (InsertFrames H st k) :=
  inferInstanceAs (Decidable (∀ s, _ = some s → ∀ k' ∈ [_, _], k' ≠ k → _ = _))

/-- `replay_insert(k, v)` is a put of `k`. -/
structure InsertPlain (H : HashFn) (st : Store) (k v : U64) : Prop where
  /-- the counter is in range, and survives the 32 bits it is returned in -/
  room : (st.putSlot H k).isSome → st.packed.num < st.packed.numElements ∧ st.packed.num < 2 ^ 32
  visible : InsertVisible H st k v
  frames : InsertFrames H st k

/-! ## The store behind a new entry -/

section Load

variable {H : HashFn} {st st' : Store} {k k' v : U64} {s : Slot}

theorem loadEntry_word (r : Nat) (t : Slot) : (st.loadEntry H k v s).word r t
    = if r = st.lookup.row H k ∧ t = s then
        combine (fingerprint H k) 64 ((BitVec.ofNat 32 st.packed.num).setWidth 64) else st.word r t :=
  LudoBuckets.write_word _ _ _ _ _ _

theorem loadEntry_addr (hn : st.packed.num < 2 ^ 32) (r : Nat) (t : Slot) : (st.loadEntry H k v s).addr r t
    = if r = st.lookup.row H k ∧ t = s then st.packed.num else st.addr r t := by
  unfold Store.addr
  rw [loadEntry_word]
  split
  · rw [addrOf_newIndex, Nat.mod_eq_of_lt hn]
  · rfl

theorem loadEntry_entryAt (hn : st.packed.num < 2 ^ 32) (r : Nat) (t : Slot) : (st.loadEntry H k v s).entryAt r t
    = if st.ReadsNew (st.lookup.row H k) s r t then ⟨k, 8, v⟩ else st.entryAt r t := by
  unfold Store.entryAt
  rw [loadEntry_addr hn]
  show Function.update st.packed.rawArray st.packed.num ⟨k, 8, v⟩ _ = _
  by_cases hs : r = st.lookup.row H k ∧ t = s
  · rw [if_pos hs, if_pos (show st.ReadsNew _ s r t from Or.inl hs), Function.update_self]
  · rw [if_neg hs]
    by_cases ha : st.addr r t = st.packed.num
    · rw [if_pos (show st.ReadsNew _ s r t from Or.inr ha), ha, Function.update_self]
    · rw [if_neg (show ¬ st.ReadsNew _ s r t from not_or.mpr ⟨hs, ha⟩), Function.update_of_ne ha]

theorem SlotsInside.loadEntry (h : SlotsInside st) (hn : st.packed.num < 2 ^ 32)
    (hroom : st.packed.num < st.packed.numElements) : SlotsInside (st.loadEntry H k v s) where
  pos := h.pos
  rows := h.rows
  empty := by
    intro r t hr ht
    rw [Store.Occupied, loadEntry_word] at ht
    rw [loadEntry_word]
    split
    · rename_i heq
      rw [if_pos heq] at ht
      exact absurd (occ_insert _ _) ht
    · rename_i hne
      rw [if_neg hne] at ht
      exact h.empty r t hr ht
  inside := by
    intro r t hr ht
    rw [Store.Occupied, loadEntry_word] at ht
    rw [loadEntry_addr hn]
    split
    · exact hroom
    · rename_i hne
      rw [if_neg hne] at ht
      exact h.inside r t hr ht

/-- The search of the key after a load. -/
theorem probe_loadEntry (hn : st.packed.num < 2 ^ 32) :
    (st.loadEntry H k v s).probe (st.lookup.row H k) (st.lookup.slot H k) k = some v ↔
      ∃ t, (st.orderWith (st.lookup.row H k) (st.lookup.slot H k) s).find?
          (fun t => st.ReadsNew (st.lookup.row H k) s (st.lookup.row H k) t ∨
            (st.entryAt (st.lookup.row H k) t).key = k) = some t ∧
        (st.ReadsNew (st.lookup.row H k) s (st.lookup.row H k) t ∨ (st.entryAt (st.lookup.row H k) t).data = v) := by
  have horder : (st.loadEntry H k v s).probeOrder (st.lookup.row H k) (st.lookup.slot H k)
      = st.orderWith (st.lookup.row H k) (st.lookup.slot H k) s := by
    unfold Store.probeOrder Store.others Store.orderWith
    congr 1
    refine List.filter_congr fun t _ => ?_
    rw [loadEntry_addr hn]
    simp only [true_and]
  rw [Store.probe, answer_eq_some_iff, horder]
  refine exists_congr fun t => and_congr ?_ ?_
  · rw [List.find?_congr fun t _ => decide_eq_decide.mpr ?_]
    rw [loadEntry_entryAt hn]
    split
    · rename_i hnew
      simp [hnew]
    · rename_i hold
      simp [hold]
  · rw [loadEntry_entryAt hn]
    split
    · rename_i hnew
      simp [hnew]
    · rename_i hold
      simp [hold]

/-- The search of another key passes over the slots that read the new entry. -/
theorem probe_loadEntry_of_ne (hn : st.packed.num < 2 ^ 32) (hne : k' ≠ k) (r : Nat) (p : Slot) :
    (st.loadEntry H k v s).probe r p k' = answer (st.entryAt r)
      ((st.probeOrder r p).filter (fun t => ¬ st.ReadsNew (st.lookup.row H k) s r t)) k' := by
  have horder : ((st.loadEntry H k v s).probeOrder r p).filter (fun t => ¬ st.ReadsNew (st.lookup.row H k) s r t)
      = (st.probeOrder r p).filter (fun t => ¬ st.ReadsNew (st.lookup.row H k) s r t) := by
    unfold Store.probeOrder Store.others
    rw [List.filter_cons, List.filter_cons, List.filter_filter, List.filter_filter]
    have htail : (List.finRange 4).filter (fun t => decide (¬ st.ReadsNew (st.lookup.row H k) s r t) &&
          decide (t ≠ p ∧ (st.loadEntry H k v s).addr r t ≠ 0))
        = (List.finRange 4).filter (fun t => decide (¬ st.ReadsNew (st.lookup.row H k) s r t) &&
          decide (t ≠ p ∧ st.addr r t ≠ 0)) := by
      refine List.filter_congr fun t _ => ?_
      by_cases hnew : st.ReadsNew (st.lookup.row H k) s r t
      · simp [hnew]
      · rw [loadEntry_addr hn, if_neg (not_or.mp hnew).1]
    rw [htail]
  unfold Store.probe
  rw [← horder, ← answer_filter (fun t => ¬ st.ReadsNew (st.lookup.row H k) s r t)]
  · refine answer_congr fun t ht _ => ?_
    rw [loadEntry_entryAt hn, if_neg (by simpa using List.of_mem_filter ht)]
  · intro t _ hdrop
    rw [loadEntry_entryAt hn, if_pos (by simpa using hdrop)]
    exact fun e => hne e.symm

/-! ## Which keys keep their answer -/

/-- The other keys after a load. -/
theorem frames_loadEntry (h : SlotsInside st) (hn : st.packed.num < 2 ^ 32) (hs : st.putSlot H k = some s) :
    (∀ k', k' ≠ k → (st.loadEntry H k v s).probe (st.lookup.row H k') (st.lookup.slot H k') k'
        = st.probe (st.lookup.row H k') (st.lookup.slot H k') k') ↔ InsertFrames H st k := by
  constructor
  · intro hall s' hs' k' _ hne
    obtain rfl : s = s' := Option.some.inj (hs.symm.trans hs')
    rw [← hall k' hne, probe_loadEntry_of_ne hn hne]
  · intro hframes k' hne
    rw [probe_loadEntry_of_ne hn hne]
    by_cases hmem : k' ∈ [(st.packed.rawArray 0).key, (st.packed.rawArray st.packed.num).key]
    · exact hframes s hs k' hmem hne
    · -- the slots that read the new entry had another key
      simp only [List.mem_cons, List.not_mem_nil, or_false, not_or] at hmem
      refine answer_filter _ fun t _ hdrop => ?_
      have hnew : st.ReadsNew (st.lookup.row H k) s (st.lookup.row H k') t := by simpa using hdrop
      rcases hnew with ⟨hr, rfl⟩ | ha
      · rw [Store.entryAt, hr, h.addr_of_empty (h.row_lt k) (not_occupied_putSlot hs)]
        exact fun e => hmem.1 e.symm
      · rw [Store.entryAt, ha]
        exact fun e => hmem.2 e.symm

/-- An empty primary slot makes the new entry visible. -/
theorem insertVisible_iff (hs : st.putSlot H k = some s) : InsertVisible H st k v ↔
    ∃ t, (st.orderWith (st.lookup.row H k) (st.lookup.slot H k) s).find?
        (fun t => st.ReadsNew (st.lookup.row H k) s (st.lookup.row H k) t ∨
          (st.entryAt (st.lookup.row H k) t).key = k) = some t ∧
      (st.ReadsNew (st.lookup.row H k) s (st.lookup.row H k) t ∨ (st.entryAt (st.lookup.row H k) t).data = v) := by
  unfold InsertVisible
  cases hst : st.status H k with
  | good =>
      obtain rfl : st.lookup.slot H k = s := by
        unfold Store.putSlot at hs
        rw [hst] at hs
        exact Option.some.inj hs
      have hnew : st.ReadsNew (st.lookup.row H k) (st.lookup.slot H k) (st.lookup.row H k) (st.lookup.slot H k) :=
        Or.inl ⟨rfl, rfl⟩
      exact iff_of_true trivial ⟨_, List.find?_cons_of_pos (by simp [hnew]), Or.inl hnew⟩
  | emptyExists =>
      exact ⟨fun hall => hall s hs, fun hex s' hs' => Option.some.inj (hs.symm.trans hs') ▸ hex⟩
  | maybeUpdate => simp [Store.putSlot, hst] at hs
  | full => simp [Store.putSlot, hst] at hs

/-- No entry is loaded for a fingerprint match or a full row. -/
theorem insertFrames_of_none (hs : st.putSlot H k = none) : InsertFrames H st k := by
  intro s hs'
  rw [hs] at hs'
  cases hs'

/-! ## When it is a put -/

/-- What the searches say after each outcome. -/
theorem ReplayCase.plain_iff (h : SlotsInside st) (hc : ReplayCase H st k v st')
    (hn : (st.putSlot H k).isSome → st.packed.num < 2 ^ 32) :
    (st'.numaSearch H k = .ok (some v) ∧ ∀ k', k' ≠ k → st'.numaSearch H k' = st.numaSearch H k') ↔
      InsertVisible H st k v ∧ InsertFrames H st k := by
  have hok : ∀ {a b : Option U64}, (Except.ok a : Exec (Option U64)) = .ok b ↔ a = b :=
    ⟨fun e => Except.ok.inj e, fun e => congrArg Except.ok e⟩
  -- a status other than an empty primary slot finds that slot occupied
  have hpos : st.status H k ≠ .good → 0 < st.packed.numElements := fun hne =>
    lt_of_le_of_lt (Nat.zero_le _) (h.inside _ _ (h.row_lt k) (occupied_of_status_ne hne))
  cases hc with
  | load s hs hroom =>
      have hn := hn (by rw [hs]; rfl)
      have hpos : 0 < st.packed.numElements := lt_of_le_of_lt (Nat.zero_le _) hroom
      simp only [h.numaSearch_ok hpos, (h.loadEntry hn hroom).numaSearch_ok hpos, hok]
      exact and_congr ((probe_loadEntry hn).trans (insertVisible_iff hs).symm) (frames_loadEntry h hn hs)
  | update hst hk =>
      have hpos := hpos (by rw [hst]; decide)
      have hnone : st.putSlot H k = none := by unfold Store.putSlot; rw [hst]
      have hset : SlotsInside (st.setEntry (st.primaryAddr H k) ⟨k, 8, v⟩) := ⟨h.pos, h.rows, h.empty, h.inside⟩
      simp only [h.numaSearch_ok hpos, hset.numaSearch_ok hpos, hok]
      refine iff_of_true ⟨?_, fun k' hne => probe_update hk hne _ _⟩ ⟨?_, insertFrames_of_none hnone⟩
      · have hent : (st.setEntry (st.primaryAddr H k) ⟨k, 8, v⟩).entryAt (st.lookup.row H k) (st.lookup.slot H k)
            = ⟨k, 8, v⟩ := by
          rw [Store.setEntry_entryAt]
          exact if_pos rfl
        exact (answer_cons_of_eq (congrArg PackedStruct.key hent)).trans (congrArg (fun e => some e.data) hent)
      · unfold InsertVisible
        rw [hst]
        exact Or.inl hk
  | dropped hst hk =>
      have hpos := hpos (by rw [hst]; decide)
      have hnone : st.putSlot H k = none := by unfold Store.putSlot; rw [hst]
      simp only [h.numaSearch_ok hpos, hok]
      refine and_congr ?_ (iff_of_true (fun _ _ => trivial) (insertFrames_of_none hnone))
      unfold InsertVisible
      rw [hst]
      exact (or_iff_right hk).symm
  | discarded hst =>
      have hpos := hpos (by rw [hst]; decide)
      have hnone : st.putSlot H k = none := by unfold Store.putSlot; rw [hst]
      simp only [h.numaSearch_ok hpos, hok]
      refine and_congr ?_ (iff_of_true (fun _ _ => trivial) (insertFrames_of_none hnone))
      unfold InsertVisible
      rw [hst]

/-- **`replay_insert` is a put** when it finds the store `InsertPlain`, and, as long as the counter fits into 32 bits, only
    then. -/
theorem replayPut_iff (h : SlotsInside st) :
    (InsertPlain H st k v → ∃ st', st.replayPut H k v = .ok st' ∧ st'.numaSearch H k = .ok (some v) ∧
      ∀ k', k' ≠ k → st'.numaSearch H k' = st.numaSearch H k') ∧
    (st.packed.num < 2 ^ 32 → (∃ st', st.replayPut H k v = .ok st' ∧ st'.numaSearch H k = .ok (some v) ∧
      ∀ k', k' ≠ k → st'.numaSearch H k' = st.numaSearch H k') → InsertPlain H st k v) := by
  constructor
  · intro hplain
    obtain ⟨st', hok⟩ := replayPut_returns h (fun hs => (hplain.room hs).1) v
    exact ⟨st', hok, ((replayPut_inv hok).plain_iff h (fun hs => (hplain.room hs).2)).mpr ⟨hplain.visible, hplain.frames⟩⟩
  · rintro hn ⟨st', hok, hsearch⟩
    have hc := replayPut_inv hok
    obtain ⟨hvisible, hframes⟩ := (hc.plain_iff h (fun _ => hn)).mp hsearch
    refine ⟨fun hs => ⟨?_, hn⟩, hvisible, hframes⟩
    cases hc with
    | load s _ hroom => exact hroom
    | update hst hk | dropped hst hk | discarded hst => simp [Store.putSlot, hst] at hs

end Load

end Outback
