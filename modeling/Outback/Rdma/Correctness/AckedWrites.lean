import Outback.Rdma.Correctness.ServerWf

/-!
# `Rdma.Correctness.AckedWrites` — when an acknowledged write can be read

Every put and update is answered `status = true`. **`acked_write_reads`**: the value is readable from then on, whatever
requests on other keys follow, when the write landed in the key's own slot (`WriteLands`, a condition on the server
before the request); and if it is readable in that way then it did land there, or the request was an update of a key
whose slot is empty. A write that went to the LRU cache instead is lost (`acked_update_lost`).

`Holds` is the invariant behind it: the key's slot under the server's current seed is occupied and refers to an entry of
the key with the value. No request on another key breaks it (`Holds.effect`), a reseeding of the row included.
-/

namespace Outback

namespace RdmaServer

variable (H : HashFn)

/-- The key's slot under the current seed is occupied and refers to an entry of the key with value `v`. -/
structure Holds (s : RdmaServer) (k v : U64) : Prop where
  occupied : s.Occupied (s.lookup.row H k) (s.slot H (s.lookup.row H k) k)
  addr_lt : s.addr (s.lookup.row H k) (s.slot H (s.lookup.row H k) k) < s.packed.num
  key : (s.entryAt (s.lookup.row H k) (s.slot H (s.lookup.row H k) k)).key = k
  data : (s.entryAt (s.lookup.row H k) (s.slot H (s.lookup.row H k) k)).data = v

/-- The slot number of a key, computed from the server's current seed. -/
def ownLoc (s : RdmaServer) (k : U64) : Nat := 4 * s.lookup.row H k + (s.slot H (s.lookup.row H k) k).val

/-- Whatever requests on other keys are handled, a get of `k` through its own slot then answers `v`. -/
def AlwaysReads (s : RdmaServer) (k v : U64) : Prop :=
  ∀ s', Lib.Reaches (RdmaServer.step H) (fun _ req => req.key ≠ k) s s' →
    s'.outbackGetCallback (s'.ownLoc H k) = .ok ⟨true, v⟩

/-- The write lands in the key's own slot.
    * A put into an empty or a reseeded slot: the new entry's index fits into 32 bits (or the entry that the truncated
      index names is one of the key with the value).
    * A put that finds its fingerprint: the entry is one of the key.
    * A put into a full row: the key's slot holds the key with the value already.
    * An update: the key's slot is occupied by an entry of the key, and it is the entry the request names or has the
      value already. -/
def WriteLands (s : RdmaServer) : Request → Prop
  | .put loc k v =>
      let own := s.entryAt (locRow loc) (s.slot H (locRow loc) k)
      match s.status H (locRow loc) k with
      | .good | .emptyExists => s.packed.num < 2 ^ 32 ∨
          ((s.packed.rawArray (s.packed.num % 2 ^ 32)).key = k ∧ (s.packed.rawArray (s.packed.num % 2 ^ 32)).data = v)
      | .maybeUpdate => own.key = k
      | .full => own.key = k ∧ own.data = v
  | .update loc k v =>
      let r := s.lookup.row H k
      let t := s.slot H r k
      s.Occupied r t ∧ (s.entryAt r t).key = k ∧
        (s.addr (locRow loc) (locSlot loc) = s.addr r t ∨ (s.entryAt r t).data = v)
  | _ => False

end RdmaServer

/-- The request writes `v` to `k`. -/
inductive Request.Writes (k v : U64) : Request → Prop where
  | put (loc : Nat) : Writes k v (.put loc k v)
  | update (loc : Nat) : Writes k v (.update loc k v)

/-! ## Requests on other keys -/

section Holds

variable {H : HashFn} {s s' : RdmaServer} {k v : U64}

open RdmaServer

/-- What matters of the new server: the key's slot still refers to the same entry, and that entry is untouched. -/
theorem RdmaServer.Holds.congr (h : Holds H s k v) (hrow : s'.lookup.row H k = s.lookup.row H k)
    (hocc : s'.Occupied (s.lookup.row H k) (s'.slot H (s.lookup.row H k) k))
    (haddr : s'.addr (s.lookup.row H k) (s'.slot H (s.lookup.row H k) k)
      = s.addr (s.lookup.row H k) (s.slot H (s.lookup.row H k) k))
    (hent : s'.packed.rawArray (s.addr (s.lookup.row H k) (s.slot H (s.lookup.row H k) k))
      = s.entryAt (s.lookup.row H k) (s.slot H (s.lookup.row H k) k))
    (hnum : s.packed.num ≤ s'.packed.num) : Holds H s' k v where
  occupied := by rw [hrow]; exact hocc
  addr_lt := by rw [hrow, haddr]; exact h.addr_lt.trans_le hnum
  key := by rw [hrow, entryAt, haddr, hent]; exact h.key
  data := by rw [hrow, entryAt, haddr, hent]; exact h.data

/-- Pushing an entry leaves those below the counter. -/
theorem RdmaServer.Holds.push (h : Holds H s k v) (e : PackedStruct) :
    (s.packed.push e).rawArray (s.addr (s.lookup.row H k) (s.slot H (s.lookup.row H k) k))
      = s.entryAt (s.lookup.row H k) (s.slot H (s.lookup.row H k) k) :=
  PackedData.push_rawArray_lt h.addr_lt

theorem RdmaServer.Holds.divert (h : Holds H s k v) (k' v' : U64) : Holds H (s.divert k' v') k v :=
  h.congr rfl h.occupied rfl (h.push _) (Nat.le_succ _)

/-- Writing an entry of another key. -/
theorem RdmaServer.Holds.setEntry (h : Holds H s k v) {a : Nat} (e : PackedStruct) (ha : (s.packed.rawArray a).key ≠ k) :
    (s.packed.setEntry a e).rawArray (s.addr (s.lookup.row H k) (s.slot H (s.lookup.row H k) k))
      = s.entryAt (s.lookup.row H k) (s.slot H (s.lookup.row H k) k) := by
  have hne : s.addr (s.lookup.row H k) (s.slot H (s.lookup.row H k) k) ≠ a := by
    intro hEq
    rw [← hEq] at ha
    exact ha h.key
  rw [PackedData.setEntry_rawArray, Function.update_of_ne hne]
  rfl

/-- **No request on another key takes a held key away.** -/
theorem RdmaServer.Holds.effect {req : Request} (h : Holds H s k v) (hne : req.key ≠ k) (he : Effect H s req s') :
    Holds H s' k v := by
  cases he with
  | read => exact h
  | @insert loc k' v' hst hroom =>
      -- the slot that is filled was empty, so it is not the key's
      have hslot : ¬ (s.lookup.row H k = locRow loc ∧
          s.slot H (s.lookup.row H k) k = s.slot H (locRow loc) k') := by
        rintro ⟨hr, ht⟩
        have hgood := LudoBucket.checkSlots_good_iff.mp hst
        have hocc : occ (s.word (s.lookup.row H k) (s.slot H (s.lookup.row H k) k)) = true := h.occupied
        rw [hr] at ht
        rw [hr, ht] at hocc
        exact absurd (hgood.symm.trans hocc) (by decide)
      have hword : (s.insertAt H (locRow loc) (s.slot H (locRow loc) k') k' v').word (s.lookup.row H k)
          (s.slot H (s.lookup.row H k) k) = s.word (s.lookup.row H k) (s.slot H (s.lookup.row H k) k) := by
        rw [insertAt_word, if_neg hslot]
      refine h.congr rfl ?_ ?_ (h.push _) (Nat.le_succ _)
      · exact (congrArg occ hword).trans h.occupied
      · exact congrArg addrOf hword
  | @rewrite loc k' v' hst hk =>
      exact h.congr rfl h.occupied rfl (h.setEntry _ (fun e => hne (hk.symm.trans e))) (le_refl _)
  | collide hst hk hroom => exact h.divert _ _
  | @reseed loc k' v' hst seed hseed hroom =>
      generalize locRow loc = r at *
      have hslot := @reseed_slot H s r (s.lookup.row H k) k' k v' seed
      by_cases hr : s.lookup.row H k = r
      · -- the row is placed anew: the key's word is at its slot under the new seed
        subst hr
        rw [if_pos rfl] at hslot
        have hword := reseed_word_old (v := v') hseed h.occupied
        rw [h.key, ← hslot] at hword
        refine h.congr rfl ?_ ?_ (h.push _) (Nat.le_succ _)
        · exact (congrArg occ hword).trans h.occupied
        · exact congrArg addrOf hword
      · rw [if_neg hr] at hslot
        refine h.congr rfl ?_ ?_ (h.push _) (Nat.le_succ _)
        · rw [RdmaServer.Occupied, hslot, reseed_word_of_ne hr]
          exact h.occupied
        · rw [RdmaServer.addr, hslot, reseed_word_of_ne hr]
          rfl
  | overflow hst hroom =>
      refine (h.divert _ _).congr rfl ?_ setCachebit_word.1 rfl (le_refl _)
      exact setCachebit_word.2.trans (h.divert _ _).occupied
  | @update loc k' v' hk =>
      exact h.congr rfl h.occupied rfl (h.setEntry _ (fun e => hne (hk.symm.trans e))) (le_refl _)
  | miss hk hroom => exact h.divert _ _
  | @erase loc k' hk =>
      have hother : (s.entryAt (locRow loc) (locSlot loc)).key ≠ k := fun e => hne (hk.symm.trans e)
      have hslot : ¬ (s.lookup.row H k = locRow loc ∧ s.slot H (s.lookup.row H k) k = locSlot loc) := by
        rintro ⟨hr, ht⟩
        rw [← hr, ← ht] at hother
        exact hother h.key
      have hword : (s.erase (locRow loc) (locSlot loc)).word (s.lookup.row H k) (s.slot H (s.lookup.row H k) k)
          = s.word (s.lookup.row H k) (s.slot H (s.lookup.row H k) k) := by
        rw [erase_word, if_neg hslot]
      refine h.congr rfl ?_ ?_ (h.setEntry _ hother) (le_refl _)
      · exact (congrArg occ hword).trans h.occupied
      · exact congrArg addrOf hword
  | absent hk => exact h

end Holds

/-! ## Reading a key through its own slot -/

section Reads

variable {H : HashFn} {s s' : RdmaServer} {k v : U64}

open RdmaServer

theorem locRow_ownLoc : locRow (s.ownLoc H k) = s.lookup.row H k := locRow_slot ..

theorem locSlot_ownLoc : locSlot (s.ownLoc H k) = s.slot H (s.lookup.row H k) k := locSlot_slot ..

theorem RdmaWf.get_own (h : RdmaWf s)
    (hlt : s.addr (s.lookup.row H k) (s.slot H (s.lookup.row H k) k) < s.packed.numElements) :
    s.outbackGetCallback (s.ownLoc H k)
      = .ok ⟨true, (s.entryAt (s.lookup.row H k) (s.slot H (s.lookup.row H k) k)).data⟩ := by
  refine get_slot ?_ hlt
  rw [h.buckets]
  exact DataPlaneLudo.row_lt H h.pos k

/-- A held key is readable from then on. -/
theorem RdmaServer.Holds.alwaysReads (h : Holds H s k v) (hwf : RdmaWf s) : AlwaysReads H s k v := by
  intro s' hrun
  have hboth : Holds H s' k v ∧ RdmaWf s' := by
    refine hrun.invariant (P := fun s => Holds H s k v ∧ RdmaWf s) ⟨h, hwf⟩ ?_
    rintro t req t' ⟨hh, hw⟩ hne hstep
    have he := step_effect hstep
    exact ⟨hh.effect hne he, hw.effect he⟩
  rw [hboth.2.get_own (hboth.1.addr_lt.trans_le hboth.2.room), hboth.1.data]

/-- An update through the own slot, of whatever key the entry there has. -/
theorem RdmaWf.update_own (h : RdmaWf s) (w : U64)
    (hlt : s.addr (s.lookup.row H k) (s.slot H (s.lookup.row H k) k) < s.packed.numElements) :
    s.step H (.update (s.ownLoc H k) (s.entryAt (s.lookup.row H k) (s.slot H (s.lookup.row H k) k)).key w)
      = .ok (s.rewrite (s.addr (s.lookup.row H k) (s.slot H (s.lookup.row H k) k))
          (s.entryAt (s.lookup.row H k) (s.slot H (s.lookup.row H k) k)).key w) := by
  have hrow : s.lookup.row H k < s.buckets.numElements := by
    rw [h.buckets]
    exact DataPlaneLudo.row_lt H h.pos k
  unfold RdmaServer.step handle outbackUpdateCallback
  simp only [locRow_ownLoc, locSlot_ownLoc, LudoBuckets.row_ok hrow, Exec.ok_bind]
  have hread := PackedData.readKey_ok hlt
  have hupd := PackedData.updateData_ok hlt (s.entryAt (s.lookup.row H k) (s.slot H (s.lookup.row H k) k)).key 64 w
  unfold RdmaServer.addr RdmaServer.word LudoBuckets.word at hread hupd
  rw [hread, Exec.ok_bind]
  split
  · rw [hupd]
    rfl
  · rename_i hno
    exact absurd rfl hno

/-- **A key that is always readable through an occupied slot is held**: were the entry one of another key, an update of
    that key would change what the get answers. -/
theorem RdmaServer.AlwaysReads.holds (h : AlwaysReads H s k v) (hwf : RdmaWf s)
    (hocc : s.Occupied (s.lookup.row H k) (s.slot H (s.lookup.row H k) k)) : Holds H s k v := by
  have hrow : s.lookup.row H k < s.lookup.numBuckets := DataPlaneLudo.row_lt H hwf.pos k
  have haddr := hwf.addr_lt _ _ hrow hocc
  have hlt := haddr.trans_le hwf.room
  have hdata : (s.entryAt (s.lookup.row H k) (s.slot H (s.lookup.row H k) k)).data = v := by
    have hget := h s .refl
    rw [hwf.get_own hlt] at hget
    exact congrArg ReplyValue.val (Except.ok.inj hget)
  refine ⟨hocc, haddr, ?_, hdata⟩
  by_contra hkey
  have hstep := hwf.update_own (v + 1) hlt
  have hget := h _ (Lib.Reaches.snoc (a := .update (s.ownLoc H k) _ (v + 1)) .refl hkey hstep)
  have hwf' := hwf.effect (step_effect hstep)
  rw [hwf'.get_own hlt] at hget
  have hval := congrArg ReplyValue.val (Except.ok.inj hget)
  have hent : (s.rewrite (s.addr (s.lookup.row H k) (s.slot H (s.lookup.row H k) k))
      (s.entryAt (s.lookup.row H k) (s.slot H (s.lookup.row H k) k)).key (v + 1)).entryAt (s.lookup.row H k)
        (s.slot H (s.lookup.row H k) k) = ⟨_, 64, v + 1⟩ := Function.update_self ..
  have hne : v + 1 ≠ v := by bv_omega
  exact hne ((congrArg PackedStruct.data hent).symm.trans hval)

end Reads

/-! ## Where a write lands -/

section Lands

variable {H : HashFn} {s s' : RdmaServer} {k v : U64}

open RdmaServer

/-- The entry a new slot word refers to, once the index has passed through 32 bits. -/
theorem newEntry_iff : (((s.packed.push ⟨k, 8, v⟩).rawArray (s.packed.num % 2 ^ 32)).key = k ∧
      ((s.packed.push ⟨k, 8, v⟩).rawArray (s.packed.num % 2 ^ 32)).data = v) ↔
    s.packed.num < 2 ^ 32 ∨
      ((s.packed.rawArray (s.packed.num % 2 ^ 32)).key = k ∧ (s.packed.rawArray (s.packed.num % 2 ^ 32)).data = v) := by
  by_cases hlt : s.packed.num < 2 ^ 32
  · rw [Nat.mod_eq_of_lt hlt, PackedData.push_rawArray, Function.update_self]
    exact iff_of_true ⟨rfl, rfl⟩ (Or.inl hlt)
  · have hmod := Nat.mod_lt s.packed.num (show 0 < 2 ^ 32 by decide)
    rw [PackedData.push_rawArray_lt (by omega)]
    exact (or_iff_right hlt).symm

/-- The key's slot got the new word. -/
theorem holds_of_newWord (hrow : s'.lookup.row H k = s.lookup.row H k)
    (hword : s'.word (s.lookup.row H k) (s'.slot H (s.lookup.row H k) k) = s.newWord H k)
    (hpacked : s'.packed = s.packed.push ⟨k, 8, v⟩) : Holds H s' k v ↔
      s.packed.num < 2 ^ 32 ∨
        ((s.packed.rawArray (s.packed.num % 2 ^ 32)).key = k ∧
          (s.packed.rawArray (s.packed.num % 2 ^ 32)).data = v) := by
  have haddr : s'.addr (s.lookup.row H k) (s'.slot H (s.lookup.row H k) k) = s.packed.num % 2 ^ 32 := by
    rw [RdmaServer.addr, hword, addrOf_newWord]
  have hent : s'.entryAt (s.lookup.row H k) (s'.slot H (s.lookup.row H k) k)
      = (s.packed.push ⟨k, 8, v⟩).rawArray (s.packed.num % 2 ^ 32) := by rw [entryAt, haddr, hpacked]
  rw [← newEntry_iff]
  constructor
  · intro h
    have hkey := h.key
    have hdata := h.data
    rw [hrow, hent] at hkey hdata
    exact ⟨hkey, hdata⟩
  · rintro ⟨hkey, hdata⟩
    refine ⟨?_, ?_, by rw [hrow, hent]; exact hkey, by rw [hrow, hent]; exact hdata⟩
    · rw [hrow, RdmaServer.Occupied, hword]
      exact occ_newWord
    · rw [hrow, haddr, hpacked]
      exact Nat.lt_succ_of_le (Nat.mod_le _ _)

/-- The write went elsewhere: the key's slot refers to the entry it did before. -/
theorem holds_of_same (s' : RdmaServer) (hwf : RdmaWf s) (hrow : s'.lookup.row H k = s.lookup.row H k)
    (hocc : s'.Occupied (s.lookup.row H k) (s'.slot H (s.lookup.row H k) k)
      ↔ s.Occupied (s.lookup.row H k) (s.slot H (s.lookup.row H k) k))
    (haddr : s'.addr (s.lookup.row H k) (s'.slot H (s.lookup.row H k) k)
      = s.addr (s.lookup.row H k) (s.slot H (s.lookup.row H k) k))
    (hpacked : s'.packed = s.packed.push ⟨k, 8, v⟩) : Holds H s' k v ↔
      s.Occupied (s.lookup.row H k) (s.slot H (s.lookup.row H k) k) ∧
        (s.entryAt (s.lookup.row H k) (s.slot H (s.lookup.row H k) k)).key = k ∧
        (s.entryAt (s.lookup.row H k) (s.slot H (s.lookup.row H k) k)).data = v := by
  have hlt : s.Occupied (s.lookup.row H k) (s.slot H (s.lookup.row H k) k) →
      s.addr (s.lookup.row H k) (s.slot H (s.lookup.row H k) k) < s.packed.num :=
    hwf.addr_lt _ _ (DataPlaneLudo.row_lt H hwf.pos k)
  have hent : s.Occupied (s.lookup.row H k) (s.slot H (s.lookup.row H k) k) →
      s'.entryAt (s.lookup.row H k) (s'.slot H (s.lookup.row H k) k)
        = s.entryAt (s.lookup.row H k) (s.slot H (s.lookup.row H k) k) := by
    intro ho
    rw [entryAt, haddr, hpacked, PackedData.push_rawArray_lt (hlt ho)]
    rfl
  constructor
  · intro h
    have hoccupied := h.occupied
    have hkey := h.key
    have hdata := h.data
    rw [hrow, hocc] at hoccupied
    rw [hrow, hent hoccupied] at hkey hdata
    exact ⟨hoccupied, hkey, hdata⟩
  · rintro ⟨ho, hkey, hdata⟩
    refine ⟨by rw [hrow]; exact hocc.mpr ho, ?_, by rw [hrow, hent ho]; exact hkey, by rw [hrow, hent ho]; exact hdata⟩
    rw [hrow, haddr, hpacked]
    exact Nat.lt_succ_of_lt (hlt ho)

/-- A put holds its key afterwards exactly when it lands. -/
theorem put_holds_iff {loc : Nat} (hwf : RdmaWf s) (hloc : locRow loc = s.lookup.row H k)
    (he : Effect H s (.put loc k v) s') : Holds H s' k v ↔ s.WriteLands H (.put loc k v) := by
  have hrow : s.lookup.row H k < s.lookup.numBuckets := DataPlaneLudo.row_lt H hwf.pos k
  unfold WriteLands
  simp only [hloc]
  cases he with
  | insert hst hroom =>
      rw [hloc] at hst ⊢
      simp only [hst]
      refine holds_of_newWord rfl ?_ rfl
      show (s.insertAt H _ _ k v).word _ (s.slot H _ k) = _
      rw [insertAt_word, if_pos ⟨rfl, rfl⟩]
  | rewrite hst hk =>
      rw [hloc] at hst hk ⊢
      have hocc : s.Occupied (s.lookup.row H k) (s.slot H (s.lookup.row H k) k) := by
        by_contra hno
        have hgood : s.status H (s.lookup.row H k) k = .good :=
          LudoBucket.checkSlots_good_iff.mpr (Bool.eq_false_of_not_eq_true hno)
        rw [hgood] at hst
        cases hst
      have hent : (s.rewrite (s.addr (s.lookup.row H k) (s.slot H (s.lookup.row H k) k)) k v).entryAt
          (s.lookup.row H k) (s.slot H (s.lookup.row H k) k) = ⟨k, 64, v⟩ := Function.update_self ..
      simp only [hst]
      refine iff_of_true ⟨hocc, hwf.addr_lt _ _ hrow hocc, ?_, ?_⟩ hk
      · exact congrArg PackedStruct.key hent
      · exact congrArg PackedStruct.data hent
  | collide hst hk hroom =>
      rw [hloc] at hst hk
      simp only [hst]
      refine iff_of_false ?_ hk
      rw [holds_of_same (s.divert k v) hwf rfl Iff.rfl rfl rfl]
      exact fun h => hk h.2.1
  | reseed hst seed hseed hroom =>
      rw [hloc] at hst hseed ⊢
      simp only [hst]
      refine holds_of_newWord rfl ?_ rfl
      rw [reseed_slot, if_pos rfl]
      exact reseed_word_new hseed
  | overflow hst hroom =>
      rw [hloc] at hst ⊢
      simp only [hst]
      have hocc : s.Occupied (s.lookup.row H k) (s.slot H (s.lookup.row H k) k) := LudoBucket.occ_of_full hst _
      have hiff := @setCachebit_word (s.divert k v) (s.lookup.row H k) (s.lookup.row H k) (locSlot loc)
        (s.slot H (s.lookup.row H k) k)
      have hsame := holds_of_same ((s.divert k v).setCachebit (s.lookup.row H k) (locSlot loc)) hwf rfl
        (Eq.congr_left hiff.2) hiff.1 rfl
      rw [hsame]
      exact and_iff_right hocc

/-- So does an update. -/
theorem update_holds_iff {loc : Nat} (hwf : RdmaWf s) (he : Effect H s (.update loc k v) s') :
    Holds H s' k v ↔ s.WriteLands H (.update loc k v) := by
  have hlt := hwf.addr_lt (s.lookup.row H k) (s.slot H (s.lookup.row H k) k) (DataPlaneLudo.row_lt H hwf.pos k)
  unfold WriteLands
  simp only
  cases he with
  | update hk =>
      have hkeyloc : (s.packed.rawArray (s.addr (locRow loc) (locSlot loc))).key = k := hk
      have hent : (s.rewrite (s.addr (locRow loc) (locSlot loc)) k v).entryAt (s.lookup.row H k)
          (s.slot H (s.lookup.row H k) k)
          = if s.addr (s.lookup.row H k) (s.slot H (s.lookup.row H k) k) = s.addr (locRow loc) (locSlot loc)
            then ⟨k, 64, v⟩ else s.entryAt (s.lookup.row H k) (s.slot H (s.lookup.row H k) k) := by
        show Function.update _ _ _ _ = _
        rw [Function.update_apply]
        rfl
      constructor
      · intro h
        have hkey : ((s.rewrite (s.addr (locRow loc) (locSlot loc)) k v).entryAt (s.lookup.row H k)
          (s.slot H (s.lookup.row H k) k)).key = k := h.key
        have hdata : ((s.rewrite (s.addr (locRow loc) (locSlot loc)) k v).entryAt (s.lookup.row H k)
          (s.slot H (s.lookup.row H k) k)).data = v := h.data
        refine ⟨h.occupied, ?_⟩
        by_cases ha : s.addr (s.lookup.row H k) (s.slot H (s.lookup.row H k) k) = s.addr (locRow loc) (locSlot loc)
        · exact ⟨by rw [entryAt, ha]; exact hkeyloc, Or.inl ha.symm⟩
        · rw [hent, if_neg ha] at hkey hdata
          exact ⟨hkey, Or.inr hdata⟩
      · rintro ⟨hocc, hkey, hland⟩
        refine ⟨hocc, hlt hocc, ?_, ?_⟩
        · refine (congrArg PackedStruct.key hent).trans ?_
          split
          · rfl
          · exact hkey
        · refine (congrArg PackedStruct.data hent).trans ?_
          split
          · rfl
          · rename_i ha
            exact hland.resolve_left (Ne.symm ha)
  | miss hk hroom =>
      rw [holds_of_same (s.divert k v) hwf rfl Iff.rfl rfl rfl]
      constructor
      · rintro ⟨hocc, hkey, hdata⟩
        exact ⟨hocc, hkey, Or.inr hdata⟩
      · rintro ⟨hocc, hkey, hland⟩
        refine ⟨hocc, hkey, hland.resolve_left ?_⟩
        -- the entry the request names has another key
        intro ha
        rw [entryAt, ha] at hk
        exact hk hkey

/-- After a put the key's slot is occupied. -/
theorem occupied_after_put {loc : Nat} (hloc : locRow loc = s.lookup.row H k) (he : Effect H s (.put loc k v) s') :
    s'.Occupied (s'.lookup.row H k) (s'.slot H (s'.lookup.row H k) k) := by
  have hnotgood : s.status H (s.lookup.row H k) k ≠ .good →
      s.Occupied (s.lookup.row H k) (s.slot H (s.lookup.row H k) k) := by
    intro hne
    by_contra hno
    exact hne (LudoBucket.checkSlots_good_iff.mpr (Bool.eq_false_of_not_eq_true hno))
  cases he with
  | insert hst hroom =>
      rw [hloc]
      show occ ((s.insertAt H _ _ k v).word _ (s.slot H _ k)) = true
      rw [insertAt_word, if_pos ⟨rfl, rfl⟩]
      exact occ_newWord
  | rewrite hst hk => exact hnotgood (by rw [← hloc, hst]; decide)
  | collide hst hk hroom => exact hnotgood (by rw [← hloc, hst]; decide)
  | reseed hst seed hseed hroom =>
      rw [hloc] at hseed ⊢
      show occ ((s.reseed H (s.lookup.row H k) k v seed).word (s.lookup.row H k)
        ((s.reseed H (s.lookup.row H k) k v seed).slot H (s.lookup.row H k) k)) = true
      rw [reseed_slot, if_pos rfl, reseed_word_new hseed]
      exact occ_newWord
  | overflow hst hroom =>
      exact setCachebit_word.2.trans (hnotgood (by rw [← hloc, hst]; decide))

end Lands

/-! ## Acknowledged writes -/

/-- **An acknowledged write is readable from then on when it lands in the key's own slot.** In every server reached from
    a bulk load by any requests, let a put or an update of `k` be handled, its slot number in the row of `k`. If the
    server before it was `WriteLands`, every later get of `k` through its current slot answers `v`, whatever requests on
    other keys are handled in between. Conversely a write that stays readable in this way was `WriteLands`, unless it is
    an update of a key whose own slot is empty. -/
theorem acked_write_reads {H : HashFn} {existKeys : List U64} {s s' : RdmaServer} {req : Request} {k v x : U64}
    (hs : RdmaReachedFrom H existKeys Lib.anyStep s) (hw : req.Writes k v)
    (hloc : locRow req.loc = s.lookup.row H k) (hok : s.handle H req = .ok (s', ⟨true, x⟩)) :
    (s.WriteLands H req → s'.AlwaysReads H k v) ∧
      (s'.AlwaysReads H k v → s.WriteLands H req ∨
        (req = .update req.loc k v ∧ ¬ s.Occupied (s.lookup.row H k) (s.slot H (s.lookup.row H k) k))) := by
  have hwf := hs.rdmaWf
  have he := (handle_effect hok).1
  have hwf' := hwf.effect he
  cases hw with
  | put loc =>
      have hiff := put_holds_iff hwf hloc he
      refine ⟨fun h => (hiff.mpr h).alwaysReads hwf', fun h => Or.inl (hiff.mp ?_)⟩
      exact h.holds hwf' (occupied_after_put hloc he)
  | update loc =>
      have hiff := update_holds_iff hwf he
      refine ⟨fun h => (hiff.mpr h).alwaysReads hwf', fun h => ?_⟩
      by_cases hocc : s.Occupied (s.lookup.row H k) (s.slot H (s.lookup.row H k) k)
      · -- an update moves no word
        have hocc' : s'.Occupied (s'.lookup.row H k) (s'.slot H (s'.lookup.row H k) k) := by
          cases he with
          | update hk => exact hocc
          | miss hk hroom => exact hocc
        exact Or.inl (hiff.mp (h.holds hwf' hocc'))
      · exact Or.inr ⟨rfl, hocc⟩

/-- Loaded key 7, a put of key 9 into its empty row. -/
theorem acked_write_reads_nine : ∃ s', (rowServer 423 0 [7]).handle fastHasher64
      (.put ((rowServer 423 0 [7]).ownLoc fastHasher64 9) 9 5) = .ok (s', ⟨true, 0⟩) ∧
    s'.AlwaysReads fastHasher64 9 5 := by
  have hlands : (rowServer 423 0 [7]).WriteLands fastHasher64
      (.put ((rowServer 423 0 [7]).ownLoc fastHasher64 9) 9 5) := Or.inl (by decide)
  have hok : (rowServer 423 0 [7]).handle fastHasher64
      (.put ((rowServer 423 0 [7]).ownLoc fastHasher64 9) 9 5) = .ok (_, ⟨true, 0⟩) := rfl
  exact ⟨_, hok, (acked_write_reads (rowServer_seven _) (.put _) locRow_ownLoc hok).1 hlands⟩

/-- Loaded key 7, an update of key 9, which is not stored: its empty slot reads as packed entry `0`, the key check fails,
    the value goes to the LRU cache and the update is acknowledged. A get of key 9 then answers the data of entry `0`. -/
theorem acked_update_lost : ∃ s', RdmaReachedFrom fastHasher64 [7] Lib.anyStep (rowServer 423 0 [7]) ∧
    (rowServer 423 0 [7]).handle fastHasher64 (.update ((rowServer 423 0 [7]).ownLoc fastHasher64 9) 9 5)
      = .ok (s', ⟨true, 2⟩) ∧
    s'.outbackGetCallback (s'.ownLoc fastHasher64 9) = .ok ⟨true, 0⟩ :=
  ⟨_, rowServer_seven _, rfl, rfl⟩

end Outback
