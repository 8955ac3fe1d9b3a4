import Outback.Ludo.Insert
import Outback.Lib.Cells

/-!
# `Ludo.KeyMap` — the map that a control plane stands for (`ludo_cp_dp.h`)

`content` is what a slot holds, `toMap` the map of all slots in use, and `remove` takes a key out of it. `IndexInv` is
what keeps the control plane a perfect hash: each key once, in the candidate bucket that its locator bit selects, in
each bucket a seed that separates its keys, and `nKeys` the number of slots in use.

The locator is any that answers as an exact map does (`Locator.Exact`). Of a table that is never rebuilt no row seed is
drawn: only `build` draws one, and first of all, so a call returns over `Locator.withoutSeeds` where it returns without
a call of `build`.
-/

namespace Outback

/-! ## Locators -/

/-- A locator that keys are unregistered from. -/
structure RemovableLocator extends Locator where
  remove : State → U64 → LudoExec State

/-- The locator that has no row seed to draw. -/
@[reducible] def Locator.withoutSeeds (P : Locator) : Locator where
  State := P.State
  isMember := P.isMember
  lookUp := P.lookUp
  insert := P.insert
  changeValue := P.changeValue
  toggleInOthello := P.toggleInOthello
  resizeCapacity := P.resizeCapacity
  clear := P.clear
  rowSeed := fun _ => .error .noSeedSource

/-- The locator is an updatable map from the registered keys to one bit. Whatever `clear` leaves is such a map again. -/
structure Locator.Exact (P : Locator) where
  bits : P.State → U64 → Option Bool
  isMember : ∀ s k, P.isMember s k = (bits s k).isSome
  lookUp : ∀ s k b, bits s k = some b → Lib.Returns (· = b) (P.lookUp s k)
  insert : ∀ s k bi, bits s k = none →
    Lib.Returns (fun s' => bits s' = Function.update (bits s) k (some bi)) (P.insert s k bi)
  changeValue : ∀ s k bi, (bits s k).isSome →
    Lib.Returns (fun s' => bits s' = Function.update (bits s) k (some bi)) (P.changeValue s k bi)
  toggleInOthello : ∀ s k b, bits s k = some b →
    Lib.Returns (fun s' => bits s' = Function.update (bits s) k (some !b)) (P.toggleInOthello s k)
  resizeCapacity : ∀ s n, Lib.Returns (fun s' => bits s' = bits s) (P.resizeCapacity s n)

/-- The same of a locator that keys are unregistered from. -/
structure RemovableLocator.Exact (P : RemovableLocator) extends P.toLocator.Exact where
  remove : ∀ s k, Lib.Returns (fun s' => bits s' = Function.update (bits s) k none) (P.remove s k)

/-- Without seeds to draw it is the same map. -/
@[reducible] def Locator.Exact.withoutSeeds {P : Locator} (E : P.Exact) : P.withoutSeeds.Exact where
  bits := E.bits
  isMember := E.isMember
  lookUp := E.lookUp
  insert := E.insert
  changeValue := E.changeValue
  toggleInOthello := E.toggleInOthello
  resizeCapacity := E.resizeCapacity

/-- `registerKey` sets the bit of its key. -/
theorem Locator.Exact.registerKey {P : Locator} (E : P.Exact) (s : P.State) (k : U64) (bi : Bool) :
    Lib.Returns (fun s' => E.bits s' = Function.update (E.bits s) k (some bi)) (P.registerKey s k bi) := by
  unfold Locator.registerKey
  rw [E.isMember]
  cases hk : E.bits s k with
  | none => exact E.insert s k bi hk
  | some old =>
      refine Lib.Returns.bind (E.lookUp s k old hk) ?_
      rintro _ rfl
      split
      · rename_i heq
        apply Lib.Returns.ok
        rw [← heq, ← hk, Function.update_eq_self]
      · exact E.changeValue s k bi (by rw [hk]; rfl)

/-- The exact map itself, with the row seeds that are drawn. -/
@[reducible] def mapLocator (seeds : Nat → U64) : RemovableLocator where
  State := (U64 → Option Bool) × Nat
  isMember := fun s k => (s.1 k).isSome
  lookUp := fun s k =>
    match s.1 k with
    | some b => .ok b
    | none => .error .absentKey
  insert := fun s k bi => .ok (Function.update s.1 k (some bi), s.2)
  changeValue := fun s k bi => .ok (Function.update s.1 k (some bi), s.2)
  toggleInOthello := fun s k =>
    match s.1 k with
    | some b => .ok (Function.update s.1 k (some !b), s.2)
    | none => .error .absentKey
  resizeCapacity := fun s _ => .ok s
  clear := fun s => .ok (fun _ => none, s.2)
  rowSeed := fun s => .ok (seeds s.2, (s.1, s.2 + 1))
  remove := fun s k => .ok (Function.update s.1 k none, s.2)

@[reducible] def mapLocator_exact (seeds : Nat → U64) : (mapLocator seeds).Exact where
  bits := fun s => s.1
  isMember := fun s k => rfl
  lookUp := fun s k b hb => by
    simp only [hb]
    exact Lib.Returns.ok rfl
  insert := fun s k bi _ => Lib.Returns.ok rfl
  changeValue := fun s k bi _ => Lib.Returns.ok rfl
  toggleInOthello := fun s k b hb => by
    simp only [hb]
    exact Lib.Returns.ok rfl
  resizeCapacity := fun s n => Lib.Returns.ok rfl
  remove := fun s k => Lib.Returns.ok rfl

/-! ## The map -/

namespace ControlPlaneLudo

variable {V L : Type}

/-- The key and the value of a slot in use. -/
def content (cp : ControlPlaneLudo V L) (c : Nat × Slot) : Option (U64 × V) :=
  if c.1 < cp.buckets.size ∧ (cp.buckets.get c.1).occupiedMask c.2 = true then
    some ((cp.buckets.get c.1).keys c.2, (cp.buckets.get c.1).values c.2)
  else none

/-- The slots in use. -/
def occupiedSlots (cp : ControlPlaneLudo V L) : List (Nat × Slot) :=
  (cells cp.buckets.size).filter fun c => (cp.buckets.get c.1).occupiedMask c.2

/-- `toMap()`: slot by slot, and `unordered_map::insert` leaves a key that is there as it is. -/
def toMap (cp : ControlPlaneLudo V L) (k : U64) : Option V := Lib.find (cells cp.buckets.size) cp.content k

variable (H : HashFn)

/-- `locate(k)`: the bucket and the slot that hold the key; `(-1, -1)` is `none`. -/
def locate (cp : ControlPlaneLudo V L) (k : U64) : Option (Nat × Slot) :=
  ((findSlot (cp.buckets.get (cp.candidate H k false)) k).map (cp.candidate H k false, ·)).or
    ((findSlot (cp.buckets.get (cp.candidate H k true)) k).map (cp.candidate H k true, ·))

section Remove

variable (P : RemovableLocator)

/-- `nKeys - 1` in 32 bits. -/
def prevKeys (cp : ControlPlaneLudo V L) : Nat := if cp.nKeys = 0 then 2 ^ 32 - 1 else cp.nKeys - 1

/-- `RemoveInBucket` at the slot that holds the key, and the `nKeys--` of `remove`. -/
def removeInBucket (cp : ControlPlaneLudo V P.State) (k : U64) (b : Nat) (s : Slot) :
    LudoExec (ControlPlaneLudo V P.State) := do
  let locator ← P.remove cp.locator k
  .ok { cp.mark b s false with locator := locator, nKeys := cp.prevKeys }

/-- `remove(k)`: from the first of its two buckets that holds it. -/
def remove (cp : ControlPlaneLudo V P.State) (k : U64) : LudoExec (ControlPlaneLudo V P.State) :=
  match findSlot (cp.buckets.get (cp.candidate H k false)) k with
  | some s => cp.removeInBucket P k (cp.candidate H k false) s
  | none =>
      match findSlot (cp.buckets.get (cp.candidate H k true)) k with
      | some s => cp.removeInBucket P k (cp.candidate H k true) s
      | none => .ok cp

end Remove

/-! ## Invariants -/

section Invariants

variable {P : Locator} (E : P.Exact) (cp : ControlPlaneLudo V P.State)

/-- The entries of `T` are in place: each key once, in the bucket that its locator bit selects, and where the seed of
    the bucket separates it from the others. -/
structure Arranged (T : Nat × Slot → Option (U64 × V)) : Prop where
  pow : ∃ j, cp.numBuckets = 2 ^ j
  size : cp.buckets.size = cp.numBuckets
  once : Lib.Once T
  located : ∀ b s k v, T (b, s) = some (k, v) → ∃ bit, E.bits cp.locator k = some bit ∧ cp.candidate H k bit = b
  separated : ∀ b s t k v k' v', T (b, s) = some (k, v) → T (b, t) = some (k', v') →
    seedSlot H (cp.buckets.get b).seed k = seedSlot H (cp.buckets.get b).seed k' → s = t

/-- What the control plane keeps where it is not rebuilt. -/
structure IndexInv : Prop extends Arranged H E cp cp.content where
  count : cp.nKeys = cp.occupiedSlots.length
  /-- `nKeys` has 32 bits -/
  word : cp.nKeys < 2 ^ 32

/-- `Arranged` as a check of the slots in use. -/
def ArrangedSlots : Prop :=
  cp.buckets.size = cp.numBuckets ∧ ∀ c ∈ cp.occupiedSlots,
    ((E.bits cp.locator ((cp.buckets.get c.1).keys c.2)).map fun bit =>
      cp.candidate H ((cp.buckets.get c.1).keys c.2) bit) = some c.1 ∧
    ∀ c' ∈ cp.occupiedSlots, ((cp.buckets.get c.1).keys c.2 = (cp.buckets.get c'.1).keys c'.2 → c = c') ∧
      (c.1 = c'.1 → seedSlot H (cp.buckets.get c.1).seed ((cp.buckets.get c.1).keys c.2)
        = seedSlot H (cp.buckets.get c.1).seed ((cp.buckets.get c.1).keys c'.2) → c = c')

instance : Decidable (cp.ArrangedSlots H E) := inferInstanceAs (Decidable (_ ∧ _))

end Invariants

/-! ## Finding a key -/

section Locate

variable {H} {cp : ControlPlaneLudo V L} {bucket : CpBucket V} {b : Nat} {s : Slot} {k : U64}

theorem findSlot_eq_some (h : findSlot bucket k = some s) : bucket.occupiedMask s = true ∧ bucket.keys s = k := by
  have hs := List.find?_some h
  simp only [Bool.and_eq_true, beq_iff_eq] at hs
  exact hs

theorem findSlot_isSome (hs : bucket.occupiedMask s = true) : (findSlot bucket (bucket.keys s)).isSome = true := by
  unfold findSlot
  rw [List.find?_isSome]
  exact ⟨s, List.mem_finRange s, by simp [hs]⟩

/-- `isMember` finds what `locate` finds. -/
theorem isMember_eq_locate (cp : ControlPlaneLudo V L) (k : U64) : cp.isMember H k = (cp.locate H k).isSome := by
  unfold isMember locate CpBucket.findInBucket findSlot
  rw [Option.isSome_or, Option.isSome_map, Option.isSome_map, Option.isSome_map, Option.isSome_map]

theorem locate_eq_some (h : cp.locate H k = some (b, s)) : ∃ second, cp.candidate H k second = b ∧
    (cp.buckets.get b).occupiedMask s = true ∧ (cp.buckets.get b).keys s = k := by
  rcases Option.or_eq_some_iff.mp h with hfirst | ⟨-, hsecond⟩
  · obtain ⟨t, ht, heq⟩ := Option.map_eq_some_iff.mp hfirst
    obtain ⟨rfl, rfl⟩ := Prod.mk.inj heq
    exact ⟨false, rfl, findSlot_eq_some ht⟩
  · obtain ⟨t, ht, heq⟩ := Option.map_eq_some_iff.mp hsecond
    obtain ⟨rfl, rfl⟩ := Prod.mk.inj heq
    exact ⟨true, rfl, findSlot_eq_some ht⟩

/-- A key in a slot of one of its two buckets is found. -/
theorem locate_isSome {second : Bool} (hmask : (cp.buckets.get (cp.candidate H k second)).occupiedMask s = true)
    (hkey : (cp.buckets.get (cp.candidate H k second)).keys s = k) : (cp.locate H k).isSome = true := by
  have hfound := findSlot_isSome hmask
  rw [hkey] at hfound
  unfold locate
  rw [Option.isSome_or, Option.isSome_map, Option.isSome_map]
  cases second with
  | false => rw [hfound, Bool.true_or]
  | true => rw [hfound, Bool.or_true]

end Locate

/-! ## Cells and the map -/

section Cells

variable {H} {cp cq : ControlPlaneLudo V L} {b : Nat} {s : Slot} {k : U64} {v : V}

theorem mem_cells {n : Nat} {c : Nat × Slot} : c ∈ cells n ↔ c.1 < n := by
  unfold cells
  simp only [List.mem_flatMap, List.mem_range, List.mem_map, List.mem_finRange, true_and]
  constructor
  · rintro ⟨b, hb, s, rfl⟩
    exact hb
  · intro hc
    exact ⟨c.1, hc, c.2, rfl⟩

theorem cells_nodup (n : Nat) : (cells n).Nodup := by
  unfold cells
  rw [List.nodup_flatMap]
  constructor
  · intro b _
    exact (List.nodup_finRange 4).map fun s t hst => (Prod.mk.inj hst).2
  · refine List.nodup_range.imp_of_mem ?_
    intro b b' _ _ hne c hc hc'
    obtain ⟨s, -, rfl⟩ := List.mem_map.mp hc
    obtain ⟨t, -, ht⟩ := List.mem_map.mp hc'
    exact hne (Prod.mk.inj ht).1.symm

/-- The cell after the first ones is not among them. -/
theorem cells_split {n : Nat} {c : Nat × Slot} {pre post : List (Nat × Slot)} (h : cells n = pre ++ c :: post) :
    c.1 < n ∧ c ∉ pre := by
  have hnodup := cells_nodup n
  rw [h, List.nodup_append] at hnodup
  refine ⟨mem_cells.mp (by rw [h]; simp), ?_⟩
  exact fun hpre => hnodup.2.2 _ hpre _ List.mem_cons_self rfl

theorem content_eq_some : cp.content (b, s) = some (k, v) ↔ b < cp.buckets.size ∧
    (cp.buckets.get b).occupiedMask s = true ∧ (cp.buckets.get b).keys s = k ∧ (cp.buckets.get b).values s = v := by
  unfold content
  split
  · rename_i h
    simp [h]
  · rename_i h
    simp only [reduceCtorEq, false_iff]
    rintro ⟨hlt, hmask, -⟩
    exact h ⟨hlt, hmask⟩

theorem content_eq_none : cp.content (b, s) = none ↔
    (b < cp.buckets.size → (cp.buckets.get b).occupiedMask s = false) := by
  unfold content
  simp

theorem content_mem_cells (c : Nat × Slot) (e : U64 × V) (h : cp.content c = some e) : c ∈ cells cp.buckets.size :=
  mem_cells.mpr (content_eq_some.mp h).1

theorem mem_occupiedSlots : (b, s) ∈ cp.occupiedSlots ↔ ∃ k v, cp.content (b, s) = some (k, v) := by
  unfold occupiedSlots
  rw [List.mem_filter, mem_cells]
  constructor
  · rintro ⟨hb, hmask⟩
    exact ⟨_, _, content_eq_some.mpr ⟨hb, hmask, rfl, rfl⟩⟩
  · rintro ⟨k, v, hc⟩
    obtain ⟨hb, hmask, -⟩ := content_eq_some.mp hc
    exact ⟨hb, hmask⟩

theorem arranged_of_slots {P : Locator} {E : P.Exact} {cp : ControlPlaneLudo V P.State} (hpow : ∃ j, cp.numBuckets = 2 ^ j)
    (h : cp.ArrangedSlots H E) : Arranged H E cp cp.content := by
  obtain ⟨hsize, hslots⟩ := h
  have hin : ∀ {b s k v}, cp.content (b, s) = some (k, v) → (b, s) ∈ cp.occupiedSlots ∧ (cp.buckets.get b).keys s = k := by
    intro b s k v hc
    exact ⟨mem_occupiedSlots.mpr ⟨k, v, hc⟩, (content_eq_some.mp hc).2.2.1⟩
  refine ⟨hpow, hsize, ?_, ?_, ?_⟩
  · rintro ⟨b, s⟩ ⟨b', s'⟩ k v v' hc hc'
    obtain ⟨hmem, hk⟩ := hin hc
    obtain ⟨hmem', hk'⟩ := hin hc'
    exact ((hslots _ hmem).2 _ hmem').1 (hk.trans hk'.symm)
  · intro b s k v hc
    obtain ⟨hmem, rfl⟩ := hin hc
    obtain ⟨bit, hbit, hcand⟩ := Option.map_eq_some_iff.mp (hslots _ hmem).1
    exact ⟨bit, hbit, hcand⟩
  · intro b s t k v k' v' hs ht hslot
    obtain ⟨hmem, rfl⟩ := hin hs
    obtain ⟨hmem', rfl⟩ := hin ht
    exact (Prod.mk.inj (((hslots _ hmem).2 _ hmem').2 rfl hslot)).2

/-- Each key once: then `toMap` has what the slots hold. -/
theorem toMap_eq_some_iff (h : Lib.Once cp.content) : cp.toMap k = some v ↔ Lib.Holds cp.content k v :=
  h.find_eq_some_iff content_mem_cells

theorem toMap_congr (h : Lib.Once cp.content) (h' : Lib.Once cq.content)
    (hholds : ∀ v, Lib.Holds cq.content k v ↔ Lib.Holds cp.content k v) : cq.toMap k = cp.toMap k :=
  h.find_congr h' content_mem_cells content_mem_cells hholds

/-- The slots in use, counted by their keys. -/
theorem length_occupiedSlots (cp : ControlPlaneLudo V L) :
    cp.occupiedSlots.length = (Lib.keysOf (cells cp.buckets.size) cp.content).length := by
  rw [Lib.length_keysOf]
  unfold occupiedSlots
  congr 1
  apply List.filter_congr
  intro c hc
  unfold content
  cases hmask : (cp.buckets.get c.1).occupiedMask c.2 with
  | false => simp
  | true => simp [mem_cells.mp hc]

/-- A table that has one key more uses one slot more. -/
theorem length_occupiedSlots_add (h : Lib.Once cp.content) (h' : Lib.Once cq.content) {l : List U64} (hl : l.Nodup)
    (hfresh : ∀ k ∈ l, cp.toMap k = none)
    (hkeys : ∀ k, (cq.toMap k).isSome = true ↔ k ∈ l ∨ (cp.toMap k).isSome = true) :
    cq.occupiedSlots.length = l.length + cp.occupiedSlots.length := by
  have hsome : ∀ {cr : ControlPlaneLudo V L}, Lib.Once cr.content → ∀ k,
      (cr.toMap k).isSome = true ↔ ∃ v, Lib.Holds cr.content k v := by
    intro cr hcr k
    rw [Option.isSome_iff_exists]
    simp only [toMap_eq_some_iff hcr]
  rw [length_occupiedSlots, length_occupiedSlots]
  refine h.length_keysOf_add h' (cells_nodup _) (cells_nodup _) content_mem_cells content_mem_cells hl ?_ ?_
  · intro k hk v hv
    have hnone := hfresh k hk
    rw [(toMap_eq_some_iff h).mpr hv] at hnone
    cases hnone
  · intro k
    rw [← hsome h, ← hsome h', hkeys]

end Cells

end ControlPlaneLudo

end Outback
