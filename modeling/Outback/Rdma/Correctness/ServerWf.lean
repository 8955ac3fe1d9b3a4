import Outback.Rdma.Correctness.Effects

/-!
# `Rdma.Correctness.ServerWf` — what every reachable RDMA server keeps

From a bulk load, after any requests: there is a bucket for every row, and an occupied slot refers to an entry below the
packed array's counter (`RdmaReachedFrom.rdmaWf`). `rdmaSetup_ok` is the bulk load itself.
-/

namespace Outback

/-- Every occupied slot refers to an entry that has been loaded. -/
structure RdmaWf (s : RdmaServer) : Prop where
  buckets : s.buckets.numElements = s.lookup.numBuckets
  pos : 0 < s.lookup.numBuckets
  room : s.packed.num ≤ s.packed.numElements
  addr_lt : ∀ r t, r < s.lookup.numBuckets → s.Occupied r t → s.addr r t < s.packed.num

section Wf

variable {H : HashFn} {s s' : RdmaServer}

open RdmaServer

/-- Only words and the counter matter. -/
theorem RdmaWf.congr (h : RdmaWf s) (hb : s'.buckets.numElements = s.buckets.numElements)
    (hl : s'.lookup.numBuckets = s.lookup.numBuckets) (hroom : s'.packed.num ≤ s'.packed.numElements)
    (haddr : ∀ r t, r < s.lookup.numBuckets → s'.Occupied r t → s'.addr r t < s'.packed.num) : RdmaWf s' where
  buckets := by rw [hb, hl, h.buckets]
  pos := by rw [hl]; exact h.pos
  room := hroom
  addr_lt := fun r t hr => haddr r t (hl ▸ hr)

theorem RdmaWf.divert (h : RdmaWf s) (hroom : s.packed.num < s.packed.numElements) (k v : U64) :
    RdmaWf (s.divert k v) :=
  h.congr rfl rfl hroom fun r t hr ht => Nat.lt_succ_of_lt (h.addr_lt r t hr ht)

theorem RdmaWf.effect {req : Request} (h : RdmaWf s) (he : Effect H s req s') : RdmaWf s' := by
  cases he with
  | read => exact h
  | @insert loc k v hst hroom =>
      refine h.congr rfl rfl hroom fun r t hr ht => ?_
      show addrOf _ < s.packed.num + 1
      rw [RdmaServer.Occupied, insertAt_word] at ht
      rw [insertAt_word]
      split at ht
      · rename_i hslot
        rw [if_pos hslot, addrOf_newWord]
        exact Nat.lt_succ_of_le (Nat.mod_le _ _)
      · rename_i hslot
        rw [if_neg hslot]
        exact Nat.lt_succ_of_lt (h.addr_lt r t hr ht)
  | rewrite hst hk => exact h.congr rfl rfl h.room h.addr_lt
  | collide hst hk hroom => exact h.divert hroom _ _
  | @reseed loc k v hst seed hseed hroom =>
      refine h.congr rfl rfl hroom fun r t hr ht => ?_
      show addrOf _ < s.packed.num + 1
      rw [RdmaServer.Occupied] at ht
      by_cases hrow : r = locRow loc
      · subst hrow
        rcases reseed_word_cases hseed t with hz | ⟨-, hnew⟩ | ⟨t₀, ht₀, -, hold⟩
        · rw [hz] at ht
          exact absurd ht (by decide)
        · rw [hnew, addrOf_newWord]
          exact Nat.lt_succ_of_le (Nat.mod_le _ _)
        · rw [hold]
          exact Nat.lt_succ_of_lt (h.addr_lt _ t₀ hr ht₀)
      · rw [reseed_word_of_ne hrow] at ht ⊢
        exact Nat.lt_succ_of_lt (h.addr_lt r t hr ht)
  | overflow hst hroom =>
      have hd := h.divert hroom
      refine (hd _ _).congr rfl rfl (hd _ _).room fun r t hr ht => ?_
      rw [RdmaServer.Occupied, setCachebit_word.2] at ht
      rw [RdmaServer.addr, setCachebit_word.1]
      exact (hd _ _).addr_lt r t hr ht
  | update hk => exact h.congr rfl rfl h.room h.addr_lt
  | miss hk hroom => exact h.divert hroom _ _
  | @erase loc k hk =>
      refine h.congr rfl rfl h.room fun r t hr ht => ?_
      rw [RdmaServer.Occupied, erase_word] at ht
      rw [RdmaServer.addr, erase_word]
      split at ht
      · exact absurd ht (by decide)
      · rename_i hne
        rw [if_neg hne]
        exact h.addr_lt r t hr ht
  | absent hk => exact h

/-- The bulk load: entry `i` holds key `i` with data `i`, and the counter is behind them. -/
theorem rdmaSetup_ok (H : HashFn) (cp : ExactLudo) (existKeys : List U64) (alien : U64 → Bool)
    (mem : Nat → PackedStruct) : ∃ s, RdmaServer.setupLudoTable H cp existKeys alien mem = .ok s ∧
      s.lookup = cp.dataPlane alien ∧ s.buckets = cp.remoteBuckets H ∧
      s.packed.num = existKeys.length ∧ s.packed.numElements = 2 * existKeys.length ∧
      ∀ i : Fin existKeys.length, s.packed.rawArray i = ⟨existKeys.get i, 8, BitVec.ofNat 64 i⟩ := by
  obtain ⟨pd, hpd, hnum, hel, hload, -⟩ := PackedData.bulkLoadAll_ok existKeys ⟨mem, 0, 2 * existKeys.length⟩
    (by simp only; omega)
  refine ⟨⟨cp.dataPlane alien, cp.remoteBuckets H, pd, ⟨[], 2048, 10⟩⟩, ?_, rfl, rfl, ?_, hel, ?_⟩
  · unfold RdmaServer.setupLudoTable
    rw [hpd]
    rfl
  · simpa using hnum
  · intro i
    have hi := hload i i.isLt
    simp only [Nat.zero_add] at hi
    exact hi

theorem Loaded.rdmaWf {cp : ExactLudo} {existKeys : List U64} {alien : U64 → Bool} {mem : Nat → PackedStruct}
    (h : Loaded H cp existKeys) (hok : RdmaServer.setupLudoTable H cp existKeys alien mem = .ok s) : RdmaWf s := by
  obtain ⟨s', hok', hlk, hbk, hnum, hel, -⟩ := rdmaSetup_ok H cp existKeys alien mem
  obtain rfl : s' = s := Except.ok.inj (hok'.symm.trans hok)
  have hnb : s'.lookup.numBuckets = cp.numBuckets := by rw [hlk]; rfl
  refine ⟨by rw [hbk, hnb]; rfl, by rw [hnb]; exact h.inv.numBuckets_pos, by omega, fun r t hr ht => ?_⟩
  rw [RdmaServer.Occupied, RdmaServer.word, hbk] at ht
  rw [hnb] at hr
  obtain ⟨t₀, ht₀, -, ha⟩ := h.occupied hr ht
  rw [RdmaServer.addr, RdmaServer.word, hbk, ha, hnum]
  exact h.value_lt ht₀

/-- **The whole run.** -/
theorem RdmaReachedFrom.rdmaWf {existKeys : List U64} {C : RdmaServer → Request → Prop}
    (h : RdmaReachedFrom H existKeys C s) : RdmaWf s := by
  obtain ⟨cp, alien, mem, s₀, hld, hok, hrun⟩ := h
  exact hrun.invariant (hld.rdmaWf hok) (fun _ _ _ hwf _ hstep => hwf.effect (step_effect hstep))

end Wf

end Outback
