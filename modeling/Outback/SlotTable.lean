import Outback.Ludo.BulkLoad
import Outback.PackedData

/-!
# `SlotTable` — the slot words and the packed entries of a server

The two servers allocate from the packed array's own counter, and `bulk_load_data` hands the index out as a `uint32_t`.
**`Allotted`** is what their operations keep: an empty slot reads as index `0`, an occupied one holds an index that has been
handed out, and no two hold the same one while the counter has not passed `2 ^ 32`. `Allotted.of_origin` is the one step
lemma: every occupied slot afterwards comes from one before, or holds the index just handed out.
-/

namespace Outback

structure SlotTable where
  buckets : LudoBuckets
  packed : PackedData

namespace SlotTable

def word (t : SlotTable) (r : Nat) (s : Slot) : U64 := t.buckets.word r s

def addr (t : SlotTable) (r : Nat) (s : Slot) : Nat := addrOf (t.word r s)

/-- The packed entry a slot refers to. -/
def entryAt (t : SlotTable) (r : Nat) (s : Slot) : PackedStruct := t.packed.rawArray (t.addr r s)

def Occupied (t : SlotTable) (r : Nat) (s : Slot) : Prop := occ (t.word r s) = true

instance (t : SlotTable) (r : Nat) (s : Slot) : Decidable (t.Occupied r s) := inferInstanceAs (Decidable (_ = true))

/-! ## The operations -/

/-- `bulk_load_data` and `write_addr`. -/
def insertAt (H : HashFn) (t : SlotTable) (r : Nat) (s : Slot) (k v : U64) : SlotTable where
  buckets := t.buckets.writeAddr H k r s ((BitVec.ofNat 32 t.packed.num).setWidth 64)
  packed := t.packed.push ⟨k, 8, v⟩

/-- `update_data`. -/
def setEntry (t : SlotTable) (a : Nat) (e : PackedStruct) : SlotTable := { t with packed := t.packed.setEntry a e }

def setCachebit (t : SlotTable) (r : Nat) (s : Slot) : SlotTable := { t with buckets := t.buckets.setCachebit r s }

/-- The entry blanked, and the slot cleared. -/
def erase (t : SlotTable) (r : Nat) (s : Slot) : SlotTable where
  buckets := t.buckets.removeAddr r s
  packed := t.packed.setEntry (t.addr r s) .zero

/-- `remove_data_with_key_check`, and `remove_addr` where it answers `true`. -/
def removeAt (t : SlotTable) (r : Nat) (s : Slot) (k : U64) : SlotTable :=
  if (t.entryAt r s).key = k then t.erase r s else t

section Words

variable {H : HashFn} {t : SlotTable} {r r' : Nat} {s s' : Slot} {k v : U64}

theorem insertAt_addr : (t.insertAt H r s k v).addr r' s'
    = if r' = r ∧ s' = s then t.packed.num % 2 ^ 32 else t.addr r' s' := by
  unfold addr
  rw [show (t.insertAt H r s k v).word r' s' = _ from LudoBuckets.write_word ..]
  split
  · exact addrOf_newIndex ..
  · rfl

theorem insertAt_occupied : (t.insertAt H r s k v).Occupied r' s' ↔ (r' = r ∧ s' = s) ∨ t.Occupied r' s' := by
  unfold Occupied
  rw [show (t.insertAt H r s k v).word r' s' = _ from LudoBuckets.write_word ..]
  split
  · rename_i h
    exact iff_of_true (occ_combine (by decide)) (Or.inl h)
  · rename_i h
    exact ⟨Or.inr, fun h' => h'.resolve_left h⟩

/-- The cache bit is neither in the address nor in the length. -/
theorem setCachebit_fields : (t.setCachebit r s).addr r' s' = t.addr r' s' ∧
    ((t.setCachebit r s).Occupied r' s' ↔ t.Occupied r' s') := by
  unfold addr Occupied
  rw [show (t.setCachebit r s).word r' s' = _ from LudoBuckets.write_word ..]
  split
  · rename_i h
    obtain ⟨ha, ho⟩ := setBit63_fields (t.word r s)
    rw [h.1, h.2]
    exact ⟨ha, by rw [show t.buckets.word r s = t.word r s from rfl, ho]⟩
  · exact ⟨rfl, Iff.rfl⟩

theorem erase_addr : (t.erase r s).addr r' s' = if r' = r ∧ s' = s then 0 else t.addr r' s' := by
  unfold addr
  rw [show (t.erase r s).word r' s' = _ from LudoBuckets.write_word ..]
  split
  · exact addrOf_zero
  · rfl

theorem erase_occupied : (t.erase r s).Occupied r' s' ↔ ¬(r' = r ∧ s' = s) ∧ t.Occupied r' s' := by
  unfold Occupied
  rw [show (t.erase r s).word r' s' = _ from LudoBuckets.write_word ..]
  split
  · rename_i h
    exact iff_of_false (by decide) (fun h' => h'.1 h)
  · rename_i h
    exact ⟨fun h' => ⟨h, h'⟩, fun h' => h'.2⟩

/-- What the index of the new word names behind the push: the new entry, unless the `uint32_t` has wrapped. -/
theorem insertAt_entryAt_new : (t.insertAt H r s k v).entryAt r s
    = if t.packed.num < 2 ^ 32 then ⟨k, 8, v⟩ else t.packed.rawArray (t.packed.num % 2 ^ 32) := by
  unfold entryAt
  rw [insertAt_addr, if_pos ⟨rfl, rfl⟩]
  show Function.update t.packed.rawArray t.packed.num _ _ = _
  split
  · rename_i hlt
    rw [Nat.mod_eq_of_lt hlt, Function.update_self]
  · rename_i hge
    have hlt : t.packed.num % 2 ^ 32 < 2 ^ 32 := Nat.mod_lt _ (by decide)
    rw [Function.update_of_ne (by omega)]

theorem setEntry_entryAt {a : Nat} {e : PackedStruct} :
    (t.setEntry a e).entryAt r s = if t.addr r s = a then e else t.entryAt r s :=
  Function.update_apply ..

end Words

/-! ## What every operation keeps -/

/-- The slots of the table hold indices of their own. -/
structure Allotted (t : SlotTable) : Prop where
  room : t.packed.num ≤ t.packed.numElements
  /-- the array is at most half empty: the bulk load fills that much -/
  half : t.packed.numElements ≤ 2 * t.packed.num
  empty : ∀ r s, r < t.buckets.numElements → ¬ t.Occupied r s → t.addr r s = 0
  below : ∀ r s, r < t.buckets.numElements → t.Occupied r s → t.addr r s < t.packed.num
  distinct : t.packed.num ≤ 2 ^ 32 → ∀ r s r' s', r < t.buckets.numElements → r' < t.buckets.numElements →
    t.Occupied r s → t.Occupied r' s' → t.addr r s = t.addr r' s' → r = r' ∧ s = s'

namespace Allotted

variable {H : HashFn} {t t' : SlotTable}

/-- **The step lemma.** Every occupied slot afterwards is where `dest` takes an occupied slot of its row, or it is `new` and
    holds the index just handed out. -/
theorem of_origin (h : Allotted t) (dest : Nat → Slot → Slot) (new : Nat × Slot)
    (hrows : t'.buckets.numElements = t.buckets.numElements) (hel : t'.packed.numElements = t.packed.numElements)
    (hnum : t.packed.num ≤ t'.packed.num) (hroom : t'.packed.num ≤ t.packed.numElements)
    (hempty : ∀ r s, r < t.buckets.numElements → ¬ t'.Occupied r s → t'.addr r s = 0)
    (horigin : ∀ r s, r < t.buckets.numElements → t'.Occupied r s →
      (∃ s₀, t.Occupied r s₀ ∧ s = dest r s₀ ∧ t'.addr r s = t.addr r s₀) ∨
      ((r, s) = new ∧ t'.addr r s = t.packed.num % 2 ^ 32 ∧ t.packed.num < t'.packed.num)) : Allotted t' where
  room := by omega
  half := by have := h.half; omega
  empty := by
    intro r s hr
    exact hempty r s (hrows ▸ hr)
  below := by
    intro r s hr hs
    rw [hrows] at hr
    rcases horigin r s hr hs with ⟨s₀, hs₀, -, ha⟩ | ⟨-, ha, hlt⟩
    · rw [ha]
      exact lt_of_lt_of_le (h.below r s₀ hr hs₀) hnum
    · rw [ha]
      exact lt_of_le_of_lt (Nat.mod_le _ _) hlt
  distinct := by
    intro hle r s r' s' hr hr' hs hs' ha
    rw [hrows] at hr hr'
    have hle₀ : t.packed.num ≤ 2 ^ 32 := hnum.trans hle
    rcases horigin r s hr hs with ⟨s₀, hs₀, hd, ha₁⟩ | ⟨hnew, ha₁, hlt⟩ <;>
      rcases horigin r' s' hr' hs' with ⟨s₁, hs₁, hd', ha₂⟩ | ⟨hnew', ha₂, hlt'⟩
    · obtain ⟨rfl, rfl⟩ := h.distinct hle₀ r s₀ r' s₁ hr hr' hs₀ hs₁ (by rw [← ha₁, ← ha₂, ha])
      exact ⟨rfl, hd.trans hd'.symm⟩
    · -- the index handed out last is beyond every index that is held
      have hbelow := h.below r s₀ hr hs₀
      rw [Nat.mod_eq_of_lt (by omega)] at ha₂
      omega
    · have hbelow := h.below r' s₁ hr' hs₁
      rw [Nat.mod_eq_of_lt (by omega)] at ha₁
      omega
    · exact Prod.mk.inj (hnew.trans hnew'.symm)

/-- Nothing but flags and entries has changed, and maybe an index was handed out for no slot. -/
theorem congr (h : Allotted t) (hrows : t'.buckets.numElements = t.buckets.numElements)
    (hel : t'.packed.numElements = t.packed.numElements) (hnum : t.packed.num ≤ t'.packed.num)
    (hroom : t'.packed.num ≤ t.packed.numElements) (haddr : ∀ r s, t'.addr r s = t.addr r s)
    (hocc : ∀ r s, t'.Occupied r s ↔ t.Occupied r s) : Allotted t' := by
  refine h.of_origin (fun _ s => s) (0, 0) hrows hel hnum hroom ?_ ?_
  · intro r s hr hs
    rw [haddr]
    exact h.empty r s hr (fun hs' => hs ((hocc r s).mpr hs'))
  · intro r s _ hs
    exact Or.inl ⟨s, (hocc r s).mp hs, rfl, haddr r s⟩

theorem setEntry (h : Allotted t) (a : Nat) (e : PackedStruct) : Allotted (t.setEntry a e) :=
  h.congr rfl rfl (le_refl _) h.room (fun _ _ => rfl) (fun _ _ => Iff.rfl)

theorem setCachebit (h : Allotted t) (r : Nat) (s : Slot) : Allotted (t.setCachebit r s) :=
  h.congr rfl rfl (le_refl _) h.room (fun _ _ => setCachebit_fields.1) (fun _ _ => setCachebit_fields.2)

/-- An entry that no slot refers to. -/
theorem push (h : Allotted t) (hlt : t.packed.num < t.packed.numElements) (e : PackedStruct) :
    Allotted ⟨t.buckets, t.packed.push e⟩ :=
  h.congr rfl rfl (Nat.le_succ _) hlt (fun _ _ => rfl) (fun _ _ => Iff.rfl)

theorem insertAt (h : Allotted t) (hlt : t.packed.num < t.packed.numElements) (r : Nat) (s : Slot) (k v : U64) :
    Allotted (t.insertAt H r s k v) := by
  refine h.of_origin (fun _ s => s) (r, s) rfl rfl (Nat.le_succ _) hlt ?_ ?_
  · intro r' s' hr' hs'
    rw [insertAt_occupied, not_or] at hs'
    rw [insertAt_addr, if_neg hs'.1]
    exact h.empty r' s' hr' hs'.2
  · intro r' s' hr' hs'
    rw [insertAt_addr]
    by_cases hslot : r' = r ∧ s' = s
    · rw [if_pos hslot]
      exact Or.inr ⟨Prod.ext hslot.1 hslot.2, rfl, Nat.lt_succ_self _⟩
    · rw [if_neg hslot]
      exact Or.inl ⟨s', (insertAt_occupied.mp hs').resolve_left hslot, rfl, rfl⟩

theorem erase (h : Allotted t) (r : Nat) (s : Slot) : Allotted (t.erase r s) := by
  refine h.of_origin (fun _ s => s) (0, 0) rfl rfl (le_refl _) h.room ?_ ?_
  · intro r' s' hr' hs'
    rw [erase_addr]
    split
    · rfl
    · rename_i hslot
      exact h.empty r' s' hr' (fun hocc => hs' (erase_occupied.mpr ⟨hslot, hocc⟩))
  · intro r' s' hr' hs'
    obtain ⟨hslot, hocc⟩ := erase_occupied.mp hs'
    rw [erase_addr, if_neg hslot]
    exact Or.inl ⟨s', hocc, rfl, rfl⟩

theorem removeAt (h : Allotted t) (r : Nat) (s : Slot) (k : U64) : Allotted (t.removeAt r s k) := by
  unfold SlotTable.removeAt
  split
  · exact h.erase r s
  · exact h

/-- Every other slot of the table keeps its entry. -/
theorem insertAt_entryAt (h : Allotted t) (hlt : t.packed.num < t.packed.numElements) {r r' : Nat} {s s' : Slot} {k v : U64}
    (hr : r' < t.buckets.numElements) (hslot : ¬(r' = r ∧ s' = s)) :
    (t.insertAt H r s k v).entryAt r' s' = t.entryAt r' s' := by
  have hne : t.addr r' s' ≠ t.packed.num := by
    by_cases hs : t.Occupied r' s'
    · exact Nat.ne_of_lt (h.below r' s' hr hs)
    · rw [h.empty r' s' hr hs]
      have := h.half
      omega
  unfold entryAt
  rw [insertAt_addr, if_neg hslot]
  exact Function.update_of_ne hne ..

/-- Every index a slot can name is in range, as soon as there is an entry at all. -/
theorem addr_lt (h : Allotted t) (hpos : 0 < t.packed.numElements) {r : Nat} (s : Slot) (hr : r < t.buckets.numElements) :
    t.addr r s < t.packed.numElements := by
  by_cases hs : t.Occupied r s
  · exact lt_of_lt_of_le (h.below r s hr hs) h.room
  · rw [h.empty r s hr hs]
    exact hpos

end Allotted

end SlotTable

/-- The table after a bulk load: the keys fill half of the packed array. -/
theorem Loaded.allotted {H : HashFn} {cp : ExactLudo} {existKeys : List U64} {pd : PackedData} (h : Loaded H cp existKeys)
    (hnum : pd.num = existKeys.length) (hel : pd.numElements = 2 * existKeys.length) :
    SlotTable.Allotted ⟨cp.remoteBuckets H, pd⟩ where
  room := by show pd.num ≤ pd.numElements; omega
  half := by show pd.numElements ≤ 2 * pd.num; omega
  empty := by
    intro r t hr hs
    rcases h.inv.seedsSeparate.remoteBuckets_word hr t with hz | ⟨s, hstored, -, hw⟩
    · exact (congrArg addrOf hz).trans addrOf_zero
    · have hlt := h.value_lt hstored
      have hb := h.bound
      refine absurd ?_ hs
      show occ ((cp.remoteBuckets H).word r t) = true
      rw [hw]
      exact occ_bulkWord (by omega)
  below := by
    intro r t hr hs
    obtain ⟨s, hstored, -, ha⟩ := h.occupied hr hs
    show addrOf ((cp.remoteBuckets H).word r t) < pd.num
    rw [ha, hnum]
    exact h.value_lt hstored
  distinct := by
    intro _ r t r' t' hr hr' hs hs' ha
    obtain ⟨s, hstored, hslot, hval⟩ := h.occupied hr hs
    obtain ⟨s', hstored', hslot', hval'⟩ := h.occupied hr' hs'
    have heq : ((cp.buckets.get r).values s).toNat = ((cp.buckets.get r').values s').toNat := by
      rw [← hval, ← hval']
      exact ha
    obtain ⟨rfl, rfl⟩ := h.distinct r s r' s' hstored hstored' (BitVec.eq_of_toNat_eq heq)
    exact ⟨rfl, hslot.symm.trans hslot'⟩

end Outback
