import Outback.Rdma.Correctness.GetSound

/-!
# `Rdma.Correctness.PlacementInv` — every stored key is in the slot its row's seed gives it

`Placement` is what makes a get through the current seed find a stored key: each occupied slot refers to an entry below
the packed array's counter, the key of that entry hashes to the slot under the row's seed, and no two slots share a key
of their row or an address. **`placement_of_run`**: puts and updates keep it, whatever slot numbers they carry, and a
put that places its key leaves every other stored key where its row, address and value are concerned.

A reseeding put moves words between the slots of a row. All proofs go through `Carries`: what an occupied slot of the
new server refers to is the new entry, or what some occupied slot of the same row referred to before.
-/

namespace Outback

open RdmaServer

/-- The placement invariant. -/
structure Placement (H : HashFn) (s : RdmaServer) : Prop where
  addr_lt : ∀ r t, r < s.buckets.numElements → s.Occupied r t → s.addr r t < s.packed.num
  hashed : ∀ r t, r < s.buckets.numElements → s.Occupied r t → s.slot H r (s.entryAt r t).key = t
  keys : ∀ r t t', r < s.buckets.numElements → s.Occupied r t → s.Occupied r t' →
    (s.entryAt r t).key = (s.entryAt r t').key → t = t'
  addrs : ∀ r t r' t', r < s.buckets.numElements → r' < s.buckets.numElements → s.Occupied r t → s.Occupied r' t' →
    s.addr r t = s.addr r' t' → r = r' ∧ t = t'

/-- Slot `t` of row `r` of `s'` refers to the entry of slot `t₀` of `s`, and the key is the same. -/
structure RdmaServer.Moved (s s' : RdmaServer) (r : Nat) (t₀ t : Slot) : Prop where
  occupied : s.Occupied r t₀
  addr : s'.addr r t = s.addr r t₀
  key : (s'.entryAt r t).key = (s.entryAt r t₀).key

/-- Slot `t` of row `r` of `s'` refers to an entry of `k` that the step made. -/
structure RdmaServer.Added (s s' : RdmaServer) (r₀ : Nat) (k : U64) (r : Nat) (t : Slot) : Prop where
  row : r = r₀
  counter : s.packed.num < s'.packed.num
  addr : s'.addr r t = s.packed.num
  key : (s'.entryAt r t).key = k

/-- What the occupied slots of `s'` refer to: an old entry, or the one new entry of `k` in row `r₀`; in either case the
    key hashes to its slot. -/
structure Carries (H : HashFn) (s s' : RdmaServer) (r₀ : Nat) (k : U64) : Prop where
  rows : s'.buckets.numElements = s.buckets.numElements
  num : s.packed.num ≤ s'.packed.num
  slots : ∀ r t, r < s.buckets.numElements → s'.Occupied r t →
    s'.slot H r (s'.entryAt r t).key = t ∧ ((∃ t₀, s.Moved s' r t₀ t) ∨ s.Added s' r₀ k r t)

section Carries

variable {H : HashFn} {s s' : RdmaServer} {r₀ : Nat} {k : U64}

/-- **The invariant follows what the slots carry.** -/
theorem Placement.carries (h : Placement H s) (hc : Carries H s s' r₀ k) : Placement H s' := by
  have hlt : ∀ {r t t₀}, r < s.buckets.numElements → s.Moved s' r t₀ t → s'.addr r t < s.packed.num := by
    intro r t t₀ hr hm
    rw [hm.addr]
    exact h.addr_lt r t₀ hr hm.occupied
  have hkeys : ∀ r t t', r < s'.buckets.numElements → s'.Occupied r t → s'.Occupied r t' →
      (s'.entryAt r t).key = (s'.entryAt r t').key → t = t' := by
    intro r t t' hr ht ht' hk
    rw [hc.rows] at hr
    rw [← (hc.slots r t hr ht).1, ← (hc.slots r t' hr ht').1, hk]
  refine ⟨?_, ?_, hkeys, ?_⟩
  · intro r t hr ht
    rw [hc.rows] at hr
    rcases (hc.slots r t hr ht).2 with ⟨t₀, hm⟩ | ha
    · exact (hlt hr hm).trans_le hc.num
    · rw [ha.addr]
      exact ha.counter
  · intro r t hr ht
    rw [hc.rows] at hr
    exact (hc.slots r t hr ht).1
  · intro r t r' t' hr hr' ht ht' haddr
    have hr₁ : r < s.buckets.numElements := hc.rows ▸ hr
    have hr₂ : r' < s.buckets.numElements := hc.rows ▸ hr'
    rcases (hc.slots r t hr₁ ht).2 with ⟨t₀, hm⟩ | ha <;> rcases (hc.slots r' t' hr₂ ht').2 with ⟨t₁, hm'⟩ | ha'
    · -- both old: the same old slot, hence the same key
      obtain ⟨rfl, rfl⟩ := h.addrs r t₀ r' t₁ hr₁ hr₂ hm.occupied hm'.occupied (by rw [← hm.addr, ← hm'.addr, haddr])
      exact ⟨rfl, hkeys r t t' hr ht ht' (by rw [hm.key, hm'.key])⟩
    · have := hlt hr₁ hm
      rw [haddr, ha'.addr] at this
      exact absurd this (Nat.lt_irrefl _)
    · have := hlt hr₂ hm'
      rw [← haddr, ha.addr] at this
      exact absurd this (Nat.lt_irrefl _)
    · obtain rfl : r = r' := ha.row.trans ha'.row.symm
      exact ⟨rfl, hkeys r t t' hr ht ht' (by rw [ha.key, ha'.key])⟩

end Carries

/-! ## What each effect carries -/

section Effects

variable {H : HashFn} {s s' : RdmaServer} {k v : U64}

/-- An entry below the counter survives a push. -/
theorem Placement.push (h : Placement H s) {r : Nat} {t : Slot} (hr : r < s.buckets.numElements) (ht : s.Occupied r t)
    (e : PackedStruct) : (s.packed.push e).rawArray (s.addr r t) = s.entryAt r t :=
  PackedData.push_rawArray_lt (h.addr_lt r t hr ht)

/-- A step that keeps words, seeds and the keys of the entries in use. -/
theorem Placement.carries_of_same (h : Placement H s) (s' : RdmaServer)
    (hrows : s'.buckets.numElements = s.buckets.numElements)
    (hnum : s.packed.num ≤ s'.packed.num) (hseeds : s'.lookup.seeds = s.lookup.seeds)
    (hocc : ∀ r t, s'.Occupied r t → s.Occupied r t) (haddr : ∀ r t, s'.addr r t = s.addr r t)
    (hkey : ∀ r t, r < s.buckets.numElements → s.Occupied r t → (s'.entryAt r t).key = (s.entryAt r t).key) (r₀ : Nat)
    (k : U64) : Carries H s s' r₀ k := by
  refine ⟨hrows, hnum, ?_⟩
  intro r t hr ht
  have ht₀ := hocc r t ht
  refine ⟨?_, Or.inl ⟨t, ht₀, haddr r t, hkey r t hr ht₀⟩⟩
  rw [hkey r t hr ht₀, RdmaServer.slot, hseeds]
  exact h.hashed r t hr ht₀

/-- An entry written over one of the same key. -/
theorem Placement.carries_rewrite (h : Placement H s) {a : Nat} (ha : (s.packed.rawArray a).key = k) (r₀ : Nat) :
    Carries H s (s.rewrite a k v) r₀ k := by
  refine h.carries_of_same (s.rewrite a k v) rfl (Nat.le_refl _) rfl (fun _ _ ht => ht) (fun _ _ => rfl) ?_ r₀ k
  intro r t _ _
  show (Function.update s.packed.rawArray a ⟨k, 64, v⟩ (s.addr r t)).key = (s.packed.rawArray (s.addr r t)).key
  by_cases hEq : s.addr r t = a
  · rw [hEq, Function.update_self, ha]
  · rw [Function.update_of_ne hEq]

/-- An entry that no slot refers to. -/
theorem Placement.carries_divert (h : Placement H s) (r₀ : Nat) : Carries H s (s.divert k v) r₀ k := by
  refine h.carries_of_same (s.divert k v) rfl (Nat.le_succ _) rfl (fun _ _ ht => ht) (fun _ _ => rfl) ?_ r₀ k
  intro r t hr ht
  exact congrArg PackedStruct.key (h.push hr ht _)

/-- The same, and a cache bit. -/
theorem Placement.carries_overflow (h : Placement H s) (r : Nat) (t : Slot) :
    Carries H s ((s.divert k v).setCachebit r t) r k := by
  refine h.carries_of_same ((s.divert k v).setCachebit r t) rfl (Nat.le_succ _) rfl ?_ (fun _ _ => setCachebit_word.1) ?_ r k
  · intro r' t' ht
    rw [RdmaServer.Occupied, setCachebit_word.2] at ht
    exact ht
  · intro r' t' hr ht
    have haddr : ((s.divert k v).setCachebit r t).addr r' t' = s.addr r' t' := setCachebit_word.1
    rw [RdmaServer.entryAt, haddr]
    exact congrArg PackedStruct.key (h.push hr ht _)

/-- The new entry, where its word is. -/
theorem added_of_newWord {r : Nat} {t : Slot} (hsmall : s.packed.num < 2 ^ 32)
    (hpacked : s'.packed = s.packed.push ⟨k, 8, v⟩) (hword : s'.word r t = s.newWord H k) :
    s.Added s' r k r t ∧ (s'.entryAt r t).data = v := by
  have haddr : s'.addr r t = s.packed.num := by
    rw [RdmaServer.addr, hword, addrOf_newWord, Nat.mod_eq_of_lt hsmall]
  have hent : s'.entryAt r t = ⟨k, 8, v⟩ := by
    rw [RdmaServer.entryAt, haddr, hpacked, PackedData.push_rawArray, Function.update_self]
  refine ⟨⟨rfl, ?_, haddr, by rw [hent]⟩, by rw [hent]⟩
  rw [hpacked, PackedData.push_num]
  exact Nat.lt_succ_self _

/-- An old entry, where its word is. -/
theorem Placement.moved_of_word (h : Placement H s) {r : Nat} {t₀ t : Slot} (hr : r < s.buckets.numElements)
    (ht₀ : s.Occupied r t₀) (s' : RdmaServer) (hpacked : s'.packed = s.packed.push ⟨k, 8, v⟩) (hword : s'.word r t = s.word r t₀) :
    s.Moved s' r t₀ t ∧ s'.entryAt r t = s.entryAt r t₀ := by
  have haddr : s'.addr r t = s.addr r t₀ := congrArg addrOf hword
  have hent : s'.entryAt r t = s.entryAt r t₀ := by
    rw [RdmaServer.entryAt, haddr, hpacked]
    exact h.push hr ht₀ _
  exact ⟨⟨ht₀, haddr, by rw [hent]⟩, hent⟩

/-- A put into the key's own empty slot. -/
theorem Placement.carries_insert (h : Placement H s) (hsmall : s.packed.num < 2 ^ 32) (r₀ : Nat) :
    Carries H s (s.insertAt H r₀ (s.slot H r₀ k) k v) r₀ k := by
  refine ⟨rfl, Nat.le_succ _, ?_⟩
  intro r t hr ht
  have hword : (s.insertAt H r₀ (s.slot H r₀ k) k v).word r t
      = if r = r₀ ∧ t = s.slot H r₀ k then s.newWord H k else s.word r t := insertAt_word
  by_cases hnew : r = r₀ ∧ t = s.slot H r₀ k
  · obtain ⟨rfl, rfl⟩ := hnew
    rw [if_pos ⟨rfl, rfl⟩] at hword
    have hadd := (added_of_newWord (v := v) hsmall rfl hword).1
    refine ⟨?_, Or.inr hadd⟩
    rw [hadd.key]
    rfl
  · rw [if_neg hnew] at hword
    have ht₀ : s.Occupied r t := by rw [RdmaServer.Occupied, ← hword]; exact ht
    have hm := (h.moved_of_word hr ht₀ (s.insertAt H r₀ (s.slot H r₀ k) k v) rfl hword).1
    refine ⟨?_, Or.inl ⟨t, hm⟩⟩
    rw [hm.key]
    exact h.hashed r t hr ht₀

/-- A put that places its row anew. -/
theorem Placement.carries_reseed (h : Placement H s) (hsmall : s.packed.num < 2 ^ 32) {r₀ : Nat} {seed : U8}
    (hseed : forceSeed H (s.rowKeys r₀ k) = some seed) : Carries H s (s.reseed H r₀ k v seed) r₀ k := by
  refine ⟨rfl, Nat.le_succ _, ?_⟩
  intro r t hr ht
  have hslot : ∀ k', (s.reseed H r₀ k v seed).slot H r k' = if r = r₀ then seedSlot H seed k' else s.slot H r k' :=
    fun _ => reseed_slot
  by_cases hrow : r = r₀
  · subst hrow
    simp only [if_true] at hslot
    rcases reseed_word_cases (v := v) hseed t with hz | ⟨rfl, hnew⟩ | ⟨t₀, ht₀, rfl, hold⟩
    · rw [RdmaServer.Occupied, hz] at ht
      exact absurd ht (by decide)
    · have hadd := (added_of_newWord (v := v) hsmall rfl hnew).1
      exact ⟨by rw [hadd.key, hslot], Or.inr hadd⟩
    · have hm := (h.moved_of_word hr ht₀ (s.reseed H r k v seed) rfl hold).1
      exact ⟨by rw [hm.key, hslot], Or.inl ⟨t₀, hm⟩⟩
  · have hword : (s.reseed H r₀ k v seed).word r t = s.word r t := reseed_word_of_ne hrow
    have ht₀ : s.Occupied r t := by rw [RdmaServer.Occupied, ← hword]; exact ht
    have hm := (h.moved_of_word hr ht₀ (s.reseed H r₀ k v seed) rfl hword).1
    refine ⟨?_, Or.inl ⟨t, hm⟩⟩
    rw [hm.key, hslot, if_neg hrow]
    exact h.hashed r t hr ht₀

end Effects

/-! ## Requests -/

section Requests

variable {H : HashFn} {s s' : RdmaServer} {k v : U64}

/-- A put or an update, while the next packed index fits into 32 bits. -/
def WritesOnly (s : RdmaServer) : Request → Prop
  | .put _ _ _ | .update _ _ _ => s.packed.num < 2 ^ 32
  | .get _ _ | .remove _ _ => False

/-- What a put or an update carries. -/
theorem Placement.carries_effect {req : Request} (h : Placement H s) (hreq : WritesOnly s req) (he : Effect H s req s') :
    Carries H s s' (locRow req.loc) req.key := by
  cases he with
  | insert hst hroom => exact h.carries_insert hreq _
  | rewrite hst hk => exact h.carries_rewrite hk _
  | collide hst hk hroom => exact h.carries_divert _
  | reseed hst seed hseed hroom => exact h.carries_reseed hreq hseed
  | overflow hst hroom => exact h.carries_overflow _ _
  | update hk => exact h.carries_rewrite hk _
  | miss hk hroom => exact h.carries_divert _
  | read | erase hk | absent hk => exact absurd hreq id

/-- The occupied slot `t` of row `r` has a successor in the same row, with the same address and the same entry. -/
def RdmaServer.Kept (s s' : RdmaServer) (r : Nat) (t : Slot) : Prop :=
  ∃ t', s'.Occupied r t' ∧ s'.addr r t' = s.addr r t ∧ s'.entryAt r t' = s.entryAt r t

/-- What the reply to a put of `k` in row `r` promises. Bit 8 announces a new seed of the row, in the low byte; a put
    that is answered so, or with `0`, has placed its key and kept the others. -/
structure PutSpec (H : HashFn) (s s' : RdmaServer) (r : Nat) (k v val : U64) : Prop where
  newSeed : val &&& (1 <<< 8) ≠ 0 → s'.lookup.seeds = Function.update s.lookup.seeds r ((val &&& 0xFF).setWidth 8)
  sameSeeds : val &&& (1 <<< 8) = 0 → s'.lookup.seeds = s.lookup.seeds
  reads : val = 0 ∨ val &&& (1 <<< 8) ≠ 0 → s'.outbackGetCallback (4 * r + (s'.slot H r k).val) = .ok ⟨true, v⟩
  others : val = 0 ∨ val &&& (1 <<< 8) ≠ 0 → ∀ r' t, r' < s.buckets.numElements → s.Occupied r' t → s.Kept s' r' t

/-- The reply of a reseeding put: bit 8 is set and the low byte is the seed. -/
theorem seedVal_fields (seed : U8) : ((1 <<< 8) + seed.setWidth 64 : U64) &&& (1 <<< 8) ≠ 0 ∧
    (((1 <<< 8) + seed.setWidth 64 : U64) &&& 0xFF).setWidth 8 = seed := by
  revert seed
  decide

/-- A put that is answered `1` or `3` promises nothing but the seeds. -/
theorem putSpec_of_other {r : Nat} {val : U64} (hseeds : s'.lookup.seeds = s.lookup.seeds) (hval : val = 1 ∨ val = 3) :
    PutSpec H s s' r k v val := by
  have hbit : val &&& (1 <<< 8) = 0 := by rcases hval with rfl | rfl <;> rfl
  have hnot : ¬ (val = 0 ∨ val &&& (1 <<< 8) ≠ 0) := by
    rintro (h0 | hne)
    · rcases hval with rfl | rfl <;> exact absurd h0 (by decide)
    · exact hne hbit
  exact ⟨fun hne => absurd hbit hne, fun _ => hseeds, fun h => absurd h hnot, fun h => absurd h hnot⟩

theorem Placement.putSpec_insert (h : Placement H s) (hsmall : s.packed.num < 2 ^ 32) {r : Nat}
    (hr : r < s.buckets.numElements) (hst : s.status H r k = .good) (hroom : s.packed.num < s.packed.numElements) :
    PutSpec H s (s.insertAt H r (s.slot H r k) k v) r k v 0 := by
  have hword : (s.insertAt H r (s.slot H r k) k v).word r (s.slot H r k) = s.newWord H k := by
    rw [insertAt_word, if_pos ⟨rfl, rfl⟩]
  obtain ⟨hadd, hdata⟩ := added_of_newWord (v := v) hsmall rfl hword
  refine ⟨fun hne => absurd rfl hne, fun _ => rfl, fun _ => ?_, fun _ r' t hr' ht => ?_⟩
  · have hget := get_slot (s := s.insertAt H r (s.slot H r k) k v) hr (by rw [hadd.addr]; exact hroom)
    rw [hdata] at hget
    exact hget
  · -- the slot that is filled was empty
    have hne : ¬ (r' = r ∧ t = s.slot H r k) := by
      rintro ⟨rfl, rfl⟩
      have hempty := LudoBucket.checkSlots_good_iff.mp hst
      exact absurd (hempty.symm.trans ht) (by decide)
    have hold : (s.insertAt H r (s.slot H r k) k v).word r' t = s.word r' t := by rw [insertAt_word, if_neg hne]
    obtain ⟨hm, hent⟩ := h.moved_of_word hr' ht (s.insertAt H r (s.slot H r k) k v) rfl hold
    exact ⟨t, by rw [RdmaServer.Occupied, hold]; exact ht, hm.addr, hent⟩

theorem Placement.putSpec_reseed (h : Placement H s) (hsmall : s.packed.num < 2 ^ 32) {r : Nat}
    (hr : r < s.buckets.numElements) {seed : U8} (hseed : forceSeed H (s.rowKeys r k) = some seed)
    (hroom : s.packed.num < s.packed.numElements) :
    PutSpec H s (s.reseed H r k v seed) r k v ((1 <<< 8) + seed.setWidth 64) := by
  obtain ⟨hbit, hlow⟩ := seedVal_fields seed
  have hslot : (s.reseed H r k v seed).slot H r k = seedSlot H seed k := by rw [reseed_slot, if_pos rfl]
  obtain ⟨hadd, hdata⟩ := added_of_newWord (v := v) hsmall rfl (reseed_word_new (v := v) hseed)
  refine ⟨fun _ => by rw [hlow]; rfl, fun h0 => absurd h0 hbit, fun _ => ?_, fun _ r' t hr' ht => ?_⟩
  · have hget := get_slot (s := s.reseed H r k v seed) hr (by rw [hadd.addr]; exact hroom)
    rw [hdata] at hget
    rw [hslot]
    exact hget
  · by_cases hrow : r' = r
    · -- in the reseeded row the word is at its key's slot under the new seed
      subst hrow
      have hold := reseed_word_old (v := v) hseed ht
      obtain ⟨hm, hent⟩ := h.moved_of_word hr' ht (s.reseed H r' k v seed) rfl hold
      exact ⟨_, by rw [RdmaServer.Occupied, hold]; exact ht, hm.addr, hent⟩
    · have hold : (s.reseed H r k v seed).word r' t = s.word r' t := reseed_word_of_ne hrow
      obtain ⟨hm, hent⟩ := h.moved_of_word hr' ht (s.reseed H r k v seed) rfl hold
      exact ⟨t, by rw [RdmaServer.Occupied, hold]; exact ht, hm.addr, hent⟩

/-- **One put.** -/
theorem Placement.putSpec {loc : Nat} {rep : ReplyValue} (h : Placement H s) (hsmall : s.packed.num < 2 ^ 32)
    (hok : s.handle H (.put loc k v) = .ok (s', rep)) : PutSpec H s s' (locRow loc) k v rep.val := by
  have hr : locRow loc < s.buckets.numElements := by
    obtain ⟨b, hb, -⟩ := Lib.bind_eq_ok.mp hok
    exact (LudoBuckets.row_eq_ok hb).1
  obtain ⟨he, rfl⟩ := put_effect hok
  simp only [RdmaServer.putVal]
  cases he with
  | insert hst hroom =>
      simp only [hst]
      exact h.putSpec_insert hsmall hr hst hroom
  | rewrite hst hk | collide hst hk hroom =>
      simp only [hst]
      exact putSpec_of_other rfl (Or.inl rfl)
  | reseed hst seed hseed hroom =>
      simp only [hst, hseed, Option.getD_some]
      exact h.putSpec_reseed hsmall hr hseed hroom
  | overflow hst hroom =>
      simp only [hst]
      exact putSpec_of_other rfl (Or.inr rfl)

end Requests

/-- **The placement invariant over whole runs.** From any server with `Placement`, after any puts and updates of any
    clients, whatever rows and slot numbers they carry: `Placement` holds, and the next put is answered as `PutSpec`
    says. -/
theorem placement_of_run {H : HashFn} {s₀ s : RdmaServer} (h₀ : Placement H s₀)
    (hrun : Lib.Reaches (RdmaServer.step H) WritesOnly s₀ s) :
    Placement H s ∧ ∀ loc k v s' rep, s.packed.num < 2 ^ 32 → s.handle H (.put loc k v) = .ok (s', rep) →
      PutSpec H s s' (locRow loc) k v rep.val := by
  have h : Placement H s := by
    refine hrun.invariant h₀ ?_
    intro t req t' ht hreq hstep
    exact ht.carries (ht.carries_effect hreq (step_effect hstep))
  exact ⟨h, fun loc k v s' rep hsmall hok => h.putSpec hsmall hok⟩

/-! ## The bulk load -/

/-- A bulk-loaded server starts with it. -/
theorem Loaded.placement {H : HashFn} {cp : ExactLudo} {existKeys : List U64} {alien : U64 → Bool}
    {mem : Nat → PackedStruct} {s : RdmaServer} (h : Loaded H cp existKeys)
    (hok : RdmaServer.setupLudoTable H cp existKeys alien mem = .ok s) : Placement H s := by
  have htab := h.tableInv hok
  obtain ⟨s', hok', hlk, hbk, -⟩ := rdmaSetup_ok H cp existKeys alien mem
  obtain rfl : s' = s := Except.ok.inj (hok'.symm.trans hok)
  have hrows : s'.buckets.numElements = s'.lookup.numBuckets := htab.wf.buckets
  have hhashed : ∀ r t, r < s'.buckets.numElements → s'.Occupied r t → s'.slot H r (s'.entryAt r t).key = t :=
    fun r t hr ht => (htab.placed r t (hrows ▸ hr) ht).2.1
  refine ⟨fun r t hr ht => htab.wf.addr_lt r t (hrows ▸ hr) ht, hhashed, ?_, ?_⟩
  · intro r t t' hr ht ht' hk
    rw [← hhashed r t hr ht, ← hhashed r t' hr ht', hk]
  · intro r t r' t' hr hr' ht ht' haddr
    have hnb : s'.buckets.numElements = cp.numBuckets := by rw [hrows, hlk]; rfl
    rw [RdmaServer.Occupied, RdmaServer.word, hbk] at ht ht'
    rw [RdmaServer.addr, RdmaServer.addr, RdmaServer.word, RdmaServer.word, hbk] at haddr
    obtain ⟨u, hu, rfl, ha⟩ := h.occupied (hnb ▸ hr) ht
    obtain ⟨u', hu', rfl, ha'⟩ := h.occupied (hnb ▸ hr') ht'
    rw [ha, ha'] at haddr
    obtain ⟨rfl, rfl⟩ := h.distinct r u r' u' hu hu' (BitVec.eq_of_toNat_eq haddr)
    exact ⟨rfl, rfl⟩

/-- Keys 7 and 542 in row 423, under seed 0. -/
def pairServer : RdmaServer := rowServer 423 0 [7, 542]

theorem pairServer_loaded : Loaded fastHasher64 (rowTable 423 0 [7, 542]) [7, 542] :=
  rowTable_loaded (by decide) rfl (by decide +kernel)

/-- The server after a put of key 2054, whose slot is taken by key 542: the row gets seed 6. -/
def pairServerPut : RdmaServer := pairServer.reseed fastHasher64 423 2054 5 6

theorem pairServer_put : pairServer.handle fastHasher64 (.put (4 * 423) 2054 5) = .ok (pairServerPut, ⟨true, 262⟩) :=
  rfl

theorem pairServer_step : pairServer.step fastHasher64 (.put (4 * 423) 2054 5) = .ok pairServerPut := by
  rw [RdmaServer.step, pairServer_put]
  rfl

/-- A put of key 3038 moves the row on to seed 10. -/
theorem pairServerPut_put : pairServerPut.handle fastHasher64 (.put (4 * 423) 3038 6)
    = .ok (pairServerPut.reseed fastHasher64 423 3038 6 10, ⟨true, 266⟩) := rfl

/-- The two puts after a bulk load. -/
theorem placement_of_run_pair : Lib.Reaches (RdmaServer.step fastHasher64) WritesOnly pairServer pairServerPut ∧
    Placement fastHasher64 pairServerPut ∧
    PutSpec fastHasher64 pairServerPut (pairServerPut.reseed fastHasher64 423 3038 6 10) 423 3038 6 266 := by
  have hrun : Lib.Reaches (RdmaServer.step fastHasher64) WritesOnly pairServer pairServerPut :=
    Lib.Reaches.snoc (a := .put (4 * 423) 2054 5) .refl (by decide : pairServer.packed.num < 2 ^ 32) pairServer_step
  obtain ⟨hpl, hput⟩ := placement_of_run (pairServer_loaded.placement (rowServer_setup _ _ _)) hrun
  exact ⟨hrun, hpl, hput _ _ _ _ _ (by decide) pairServerPut_put⟩

end Outback
