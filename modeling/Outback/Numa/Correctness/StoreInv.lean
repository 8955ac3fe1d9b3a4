import Outback.Numa.Store
import Outback.Lib.Stride

/-!
# `Numa.Correctness.StoreInv` — what every reachable store keeps

**`StoreInv`** holds of the bulk-loaded store and is kept by every client operation: a slot word is zero or
occupied by an address that was loaded or issued, no two occupied slots share an address, and the lane
counters never go back. From it every operation returns (no access is out of bounds), a search is the pure
`probe` over the slots of its row, and `numa_put` is one of the five outcomes of `PutCase`.
-/

namespace Outback

/-! ## The answer of a scan -/

/-- The data of the first listed slot whose entry has the key. -/
def answer (entries : Slot → PackedStruct) (order : List Slot) (k : U64) : Option U64 :=
  (order.find? (fun s => (entries s).key = k)).map (fun s => (entries s).data)

section Answer

variable {entries entries' : Slot → PackedStruct} {order : List Slot} {s : Slot} {k v : U64}

theorem answer_cons_of_eq (h : (entries s).key = k) : answer entries (s :: order) k = some (entries s).data := by
  unfold answer
  rw [List.find?_cons_of_pos (by simpa using h)]
  rfl

theorem answer_cons_of_ne (h : (entries s).key ≠ k) : answer entries (s :: order) k = answer entries order k := by
  unfold answer
  rw [List.find?_cons_of_neg (by simpa using h)]

theorem answer_eq_some_iff : answer entries order k = some v ↔
    ∃ s, order.find? (fun s => (entries s).key = k) = some s ∧ (entries s).data = v :=
  Option.map_eq_some_iff

theorem answer_eq_none_iff : answer entries order k = none ↔ ∀ t ∈ order, (entries t).key ≠ k := by
  unfold answer
  simp only [Option.map_eq_none_iff, List.find?_eq_none, decide_eq_true_eq, ne_eq]

/-- Only the entries that have the key matter. -/
theorem answer_congr (h : ∀ t ∈ order, ((entries t).key = k ∨ (entries' t).key = k) → entries t = entries' t) :
    answer entries order k = answer entries' order k := by
  induction order with
  | nil => rfl
  | cons t order ih =>
      have ht := h t (List.mem_cons_self ..)
      have ih := ih (fun u hu => h u (List.mem_cons_of_mem t hu))
      by_cases hk : (entries t).key = k
      · have heq := ht (Or.inl hk)
        rw [answer_cons_of_eq hk, answer_cons_of_eq (heq ▸ hk), heq]
      · have hk' : (entries' t).key ≠ k := fun e => hk (by rw [ht (Or.inr e)]; exact e)
        rw [answer_cons_of_ne hk, answer_cons_of_ne hk', ih]

/-- A slot whose entry does not have the key may be left out. -/
theorem answer_filter (keep : Slot → Bool) (h : ∀ t ∈ order, keep t = false → (entries t).key ≠ k) :
    answer entries (order.filter keep) k = answer entries order k := by
  induction order with
  | nil => rfl
  | cons t order ih =>
      have ih := ih (fun u hu => h u (List.mem_cons_of_mem t hu))
      by_cases hk : (entries t).key = k
      · have hkeep : keep t = true := by
          by_contra hne
          exact h t (List.mem_cons_self ..) (by simpa using hne) hk
        rw [List.filter_cons_of_pos hkeep, answer_cons_of_eq hk, answer_cons_of_eq hk]
      · rw [answer_cons_of_ne hk, ← ih, List.filter_cons]
        split
        · exact answer_cons_of_ne hk
        · rfl

end Answer

namespace Store

variable (H : HashFn)

/-- The slot word of a row. -/
def word (st : Store) (r : Nat) (s : Slot) : U64 := st.buckets.word r s

/-- The packed index a slot refers to. -/
def addr (st : Store) (r : Nat) (s : Slot) : Nat := addrOf (st.word r s)

/-- The packed entry a slot refers to. -/
def entryAt (st : Store) (r : Nat) (s : Slot) : PackedStruct := st.packed.rawArray (st.addr r s)

theorem addrOf_slots (st : Store) (r : Nat) (s : Slot) :
    addrOf ((st.buckets.bucketsArray r).slots s) = st.addr r s := rfl

/-- The slot of a row is occupied. -/
def Occupied (st : Store) (r : Nat) (s : Slot) : Prop := occ (st.word r s) = true

instance (st : Store) (r : Nat) (s : Slot) : Decidable (st.Occupied r s) :=
  inferInstanceAs (Decidable (_ = true))

/-- The slots a search visits after the primary one. -/
def others (st : Store) (r : Nat) (primary : Slot) : List Slot :=
  (List.finRange 4).filter (fun s => s ≠ primary ∧ st.addr r s ≠ 0)

/-- The slots a search visits, in order: the primary slot always, then the others. -/
def probeOrder (st : Store) (r : Nat) (primary : Slot) : List Slot := primary :: st.others r primary

/-- The value a search of `k` answers. -/
def probe (st : Store) (r : Nat) (primary : Slot) (k : U64) : Option U64 :=
  answer (st.entryAt r) (st.probeOrder r primary) k

end Store

/-! ## The invariant -/

/-- The invariant of a store with `nkeys` loaded keys. -/
structure StoreInv (nkeys : Nat) (st : Store) : Prop where
  bound : 2 * nkeys ≤ 2 ^ 40
  entries : st.numDataEntries = 2 * nkeys
  packed : st.packed.numElements = 2 * nkeys
  buckets : st.buckets.numElements = st.lookup.numBuckets
  pos : 0 < st.lookup.numBuckets
  strided : Lib.Strided st.lanes.lanes nkeys st.lanes.laneNextFreeIndex
  /-- an empty slot is the zero word -/
  empty : ∀ r s, r < st.lookup.numBuckets → ¬ st.Occupied r s → st.word r s = 0
  /-- an occupied slot holds a loaded or an issued index -/
  issued : ∀ r s, r < st.lookup.numBuckets → st.Occupied r s → st.addr r s < 2 * nkeys ∧
    (st.addr r s < nkeys ∨ Lib.Issued st.lanes.lanes nkeys st.lanes.laneNextFreeIndex (st.addr r s))
  /-- no index is held by two slots -/
  distinct : ∀ r s r' s', r < st.lookup.numBuckets → r' < st.lookup.numBuckets →
    st.Occupied r s → st.Occupied r' s' → st.addr r s = st.addr r' s' → r = r' ∧ s = s'

namespace StoreInv

variable {H : HashFn} {nkeys : Nat} {st : Store}

theorem row_lt (h : StoreInv nkeys st) (k : U64) : st.lookup.row H k < st.lookup.numBuckets :=
  DataPlaneLudo.row_lt H h.pos k

theorem row_ok (h : StoreInv nkeys st) (k : U64) :
    st.buckets.row (st.lookup.row H k) = .ok (st.buckets.bucketsArray (st.lookup.row H k)) :=
  LudoBuckets.row_ok (h.buckets ▸ h.row_lt k)

theorem addr_of_empty (h : StoreInv nkeys st) {r : Nat} {s : Slot} (hr : r < st.lookup.numBuckets)
    (hs : ¬ st.Occupied r s) : st.addr r s = 0 := by
  rw [Store.addr, h.empty r s hr hs, addrOf_zero]

/-- Every index a slot can name is in range, as soon as there is a packed entry at all. -/
theorem addr_lt (h : StoreInv nkeys st) (hn : 0 < nkeys) {r : Nat} (s : Slot) (hr : r < st.lookup.numBuckets) :
    st.addr r s < st.packed.numElements := by
  rw [h.packed]
  by_cases hs : st.Occupied r s
  · exact (h.issued r s hr hs).1
  · rw [h.addr_of_empty hr hs]; omega

end StoreInv

/-! ## A search is a probe -/

/-- The makeup scan answers from the listed slots other than the primary one and those that read as
    address `0`. -/
theorem scanRow_ok {st : Store} {r : Nat} {k : U64} {p : Slot}
    (hin : ∀ s, st.addr r s ≠ 0 → st.addr r s < st.packed.numElements) (l : List Slot) :
    (st.buckets.bucketsArray r).scanRow st.packed k p l
      = .ok (answer (st.entryAt r) (l.filter (fun s => s ≠ p ∧ st.addr r s ≠ 0)) k) := by
  induction l with
  | nil => rfl
  | cons s l ih =>
      rw [LudoBucket.scanRow, Store.addrOf_slots]
      by_cases hsp : s = p
      · rw [if_pos hsp, ih, List.filter_cons_of_neg (by simp [hsp])]
      · rw [if_neg hsp]
        by_cases ha : st.addr r s = 0
        · rw [if_pos ha, ih, List.filter_cons_of_neg (by simp [ha])]
        · rw [if_neg ha, List.filter_cons_of_pos (by simp [hsp, ha])]
          have he : st.packed.entry (st.addr r s) = .ok (st.entryAt r s) := PackedData.entry_ok (hin s ha)
          rw [he]
          by_cases hk : (st.entryAt r s).key = k
          · rw [answer_cons_of_eq hk]
            exact if_pos hk
          · rw [answer_cons_of_ne hk, ← ih]
            exact if_neg hk

/-- A search whose row and addresses are in range is the probe of its row. -/
theorem numaSearch_eq_probe {H : HashFn} {st : Store} {k : U64}
    (hrow : st.lookup.row H k < st.buckets.numElements)
    (hin : ∀ s, st.addr (st.lookup.row H k) s < st.packed.numElements) :
    st.numaSearch H k = .ok (st.probe (st.lookup.row H k) (st.lookup.slot H k) k) := by
  unfold Store.numaSearch
  rw [LudoBuckets.row_ok hrow]
  have he : st.packed.entry (st.addr (st.lookup.row H k) (st.lookup.slot H k))
      = .ok (st.entryAt (st.lookup.row H k) (st.lookup.slot H k)) := PackedData.entry_ok (hin _)
  have hscan := scanRow_ok (k := k) (p := st.lookup.slot H k) (fun s _ => hin s) (List.finRange 4)
  simp only [bind, Except.bind, Store.addrOf_slots, he]
  unfold Store.probe Store.probeOrder
  by_cases hk : (st.entryAt (st.lookup.row H k) (st.lookup.slot H k)).key = k
  · rw [if_pos hk, answer_cons_of_eq hk]
    rfl
  · rw [if_neg hk, answer_cons_of_ne hk]
    exact hscan

/-- **A search of a reachable store is a probe.** -/
theorem StoreInv.numaSearch_ok {H : HashFn} {nkeys : Nat} {st : Store} (h : StoreInv nkeys st) (hn : 0 < nkeys)
    (k : U64) : st.numaSearch H k = .ok (st.probe (st.lookup.row H k) (st.lookup.slot H k) k) :=
  numaSearch_eq_probe (h.buckets ▸ h.row_lt k) (fun s => h.addr_lt hn s (h.row_lt k))

/-! ## Effects on a store -/

namespace Store

def setEntry (st : Store) (a : Nat) (e : PackedStruct) : Store := { st with packed := st.packed.setEntry a e }

def setWord (st : Store) (r : Nat) (s : Slot) (w : U64) : Store :=
  { st with buckets := st.buckets.setRow r ((st.buckets.bucketsArray r).write s w) }

def reseed (st : Store) (r : Nat) (seed : U8) : Store := { st with lookup := st.lookup.updateSeed r seed }

/-- A lane hands out an index, in range or not. -/
def takeIndex (st : Store) (laneId : Nat) : Store :=
  { st with lanes := (st.lanes.allocRemoteDataSlot laneId st.numDataEntries).2 }

/-- The entry a slot refers to, after one entry was written. -/
theorem setEntry_entryAt (st : Store) (a : Nat) (e : PackedStruct) (r : Nat) (s : Slot) :
    (st.setEntry a e).entryAt r s = if st.addr r s = a then e else st.entryAt r s := by
  unfold entryAt
  rw [show (st.setEntry a e).addr r s = st.addr r s from rfl]
  simp [setEntry, Function.update_apply]

/-- The word of a slot, after one word was written. -/
theorem setWord_word (st : Store) (r r' : Nat) (s s' : Slot) (w : U64) :
    (st.setWord r s w).word r' s' = if r' = r ∧ s' = s then w else st.word r' s' :=
  LudoBuckets.write_word _ _ _ _ _ _

theorem setWord_addr (st : Store) (r r' : Nat) (s s' : Slot) (w : U64) :
    (st.setWord r s w).addr r' s' = if r' = r ∧ s' = s then addrOf w else st.addr r' s' := by
  rw [addr, setWord_word]
  split <;> rfl

theorem setWord_occupied (st : Store) (r r' : Nat) (s s' : Slot) (w : U64) :
    (st.setWord r s w).Occupied r' s' ↔ if r' = r ∧ s' = s then occ w = true else st.Occupied r' s' := by
  rw [Occupied, setWord_word]
  split <;> rfl

end Store

namespace StoreInv

variable {nkeys : Nat} {st : Store}

theorem setEntry (h : StoreInv nkeys st) (a : Nat) (e : PackedStruct) : StoreInv nkeys (st.setEntry a e) :=
  ⟨h.bound, h.entries, h.packed, h.buckets, h.pos, h.strided, h.empty, h.issued, h.distinct⟩

theorem reseed (h : StoreInv nkeys st) (r : Nat) (seed : U8) : StoreInv nkeys (st.reseed r seed) :=
  ⟨h.bound, h.entries, h.packed, h.buckets, h.pos, h.strided, h.empty, h.issued, h.distinct⟩

theorem takeIndex (h : StoreInv nkeys st) (laneId : Nat) : StoreInv nkeys (st.takeIndex laneId) where
  bound := h.bound
  entries := h.entries
  packed := h.packed
  buckets := h.buckets
  pos := h.pos
  strided := h.strided.bump
  empty := h.empty
  issued := fun r s hr hs => ⟨(h.issued r s hr hs).1, (h.issued r s hr hs).2.imp_right Lib.Issued.bump⟩
  distinct := h.distinct

/-- Clearing a slot. -/
theorem clear (h : StoreInv nkeys st) (r : Nat) (s : Slot) : StoreInv nkeys (st.setWord r s 0) where
  bound := h.bound
  entries := h.entries
  packed := h.packed
  buckets := h.buckets
  pos := h.pos
  strided := h.strided
  empty := by
    intro r' s' hr' hs'
    rw [Store.setWord_occupied] at hs'
    rw [Store.setWord_word]
    split
    · rfl
    · rename_i hne
      rw [if_neg hne] at hs'
      exact h.empty r' s' hr' hs'
  issued := by
    intro r' s' hr' hs'
    rw [Store.setWord_occupied] at hs'
    rw [Store.setWord_addr]
    split
    · rename_i heq; rw [if_pos heq] at hs'; exact absurd hs' (by decide)
    · rename_i hne; rw [if_neg hne] at hs'; exact h.issued r' s' hr' hs'
  distinct := by
    intro r₁ s₁ r₂ s₂ hr₁ hr₂ h₁ h₂ ha
    rw [Store.setWord_occupied] at h₁ h₂
    rw [Store.setWord_addr, Store.setWord_addr] at ha
    split at h₁
    · exact absurd h₁ (by decide)
    · split at h₂
      · exact absurd h₂ (by decide)
      · rename_i hn₁ hn₂
        rw [if_neg hn₁, if_neg hn₂] at ha
        exact h.distinct r₁ s₁ r₂ s₂ hr₁ hr₂ h₁ h₂ ha

/-- Filling a slot with an index that was issued and that no occupied slot holds. -/
theorem fill (h : StoreInv nkeys st) {r : Nat} {s : Slot} {w : U64} (hw : occ w = true)
    (hlt : addrOf w < 2 * nkeys) (hiss : Lib.Issued st.lanes.lanes nkeys st.lanes.laneNextFreeIndex (addrOf w))
    (hfresh : ∀ r' s', r' < st.lookup.numBuckets → st.Occupied r' s' → st.addr r' s' ≠ addrOf w) :
    StoreInv nkeys (st.setWord r s w) where
  bound := h.bound
  entries := h.entries
  packed := h.packed
  buckets := h.buckets
  pos := h.pos
  strided := h.strided
  empty := by
    intro r' s' hr' hs'
    rw [Store.setWord_occupied] at hs'
    rw [Store.setWord_word]
    split
    · rename_i heq; rw [if_pos heq] at hs'; exact absurd hw hs'
    · rename_i hne; rw [if_neg hne] at hs'; exact h.empty r' s' hr' hs'
  issued := by
    intro r' s' hr' hs'
    rw [Store.setWord_occupied] at hs'
    rw [Store.setWord_addr]
    split
    · exact ⟨hlt, Or.inr hiss⟩
    · rename_i hne; rw [if_neg hne] at hs'; exact h.issued r' s' hr' hs'
  distinct := by
    intro r₁ s₁ r₂ s₂ hr₁ hr₂ h₁ h₂ ha
    rw [Store.setWord_occupied] at h₁ h₂
    rw [Store.setWord_addr, Store.setWord_addr] at ha
    by_cases e₁ : r₁ = r ∧ s₁ = s <;> by_cases e₂ : r₂ = r ∧ s₂ = s
    · exact ⟨e₁.1.trans e₂.1.symm, e₁.2.trans e₂.2.symm⟩
    · rw [if_neg e₂] at h₂ ha
      rw [if_pos e₁] at ha
      exact absurd ha.symm (hfresh r₂ s₂ hr₂ h₂)
    · rw [if_neg e₁] at h₁ ha
      rw [if_pos e₂] at ha
      exact absurd ha (hfresh r₁ s₁ hr₁ h₁)
    · rw [if_neg e₁] at h₁ ha
      rw [if_neg e₂] at h₂ ha
      exact h.distinct r₁ s₁ r₂ s₂ hr₁ hr₂ h₁ h₂ ha

end StoreInv

end Outback
