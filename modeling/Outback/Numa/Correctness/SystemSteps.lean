import Outback.Numa.Allocators
import Outback.Numa.Correctness.AllocInside
import Outback.Numa.Correctness.Handlers
import Outback.Numa.Correctness.InsideRegion
import Outback.Numa.Correctness.Ownership

/-!
# `Numa.Correctness.SystemSteps` — what one step of the system does to the slots

Every step but a copy changes at most one slot word of every region, in one of the ways of `WordMove`. A client's
operation, a handler and a replay are inverted once each (`clientStep_buckets`, `call_buckets`, `replayNext_buckets`), and
so is a tick (`tick_inv`). `SystemInv` is what every reachable system keeps of the versions, the lanes and the views.
-/

namespace Outback

/-! ## Slot words -/

/-- What a step does to a slot word. The address of a filled slot satisfies `P`; `clears` says that slots are cleared. -/
inductive WordMove (clears : Prop) (P : Nat → Prop) (word : U64) : U64 → Prop where
  | same : WordMove clears P word word
  /-- the cache bit is set -/
  | mark {word' : U64} (h : occ word = true) (h' : occ word' = true) (ha : addrOf word' = addrOf word) :
      WordMove clears P word word'
  | fill {word' : U64} (h : occ word = false) (h' : occ word' = true) (hP : P (addrOf word')) :
      WordMove clears P word word'
  | clear (h : clears) : WordMove clears P word 0

/-- Every slot word of a bucket array makes such a move. -/
def BucketsMove (clears : Prop) (P : Nat → Prop) (b b' : Nat → LudoBucket) : Prop :=
  ∀ r t, WordMove clears P ((b r).slots t) ((b' r).slots t)

section Moves

variable {clears clears' : Prop} {P P' : Nat → Prop} {word word' : U64} {b b' : Nat → LudoBucket}

theorem WordMove.mono (h : WordMove clears P word word') (hc : clears → clears') (hP : ∀ a, P a → P' a) :
    WordMove clears' P' word word' := by
  cases h with
  | same => exact .same
  | mark h h' ha => exact .mark h h' ha
  | fill h h' hp => exact .fill h h' (hP _ hp)
  | clear h => exact .clear (hc h)

/-- Without clears an occupied slot keeps its address. -/
theorem WordMove.kept (h : WordMove False P word word') (hocc : occ word = true) :
    occ word' = true ∧ addrOf word' = addrOf word := by
  cases h with
  | same => exact ⟨hocc, rfl⟩
  | mark _ hocc' ha => exact ⟨hocc', ha⟩
  | fill hempty _ _ => exact absurd hocc (by rw [hempty]; decide)
  | clear h => exact h.elim

/-- An occupied slot had its address before, or it has been filled. -/
theorem WordMove.origin (h : WordMove clears P word word') (hocc : occ word' = true) :
    (occ word = true ∧ addrOf word = addrOf word') ∨ P (addrOf word') := by
  cases h with
  | same => exact Or.inl ⟨hocc, rfl⟩
  | mark hocc₀ _ ha => exact Or.inl ⟨hocc₀, ha.symm⟩
  | fill _ _ hP => exact Or.inr hP
  | clear _ => exact absurd hocc (by decide)

theorem BucketsMove.refl (b : Nat → LudoBucket) : BucketsMove clears P b b := fun _ _ => .same

theorem BucketsMove.of_eq (h : b' = b) : BucketsMove clears P b b' := by
  rw [h]
  exact .refl b

theorem BucketsMove.mono (h : BucketsMove clears P b b') (hc : clears → clears') (hP : ∀ a, P a → P' a) :
    BucketsMove clears' P' b b' := fun r t => (h r t).mono hc hP

/-- One slot written. -/
theorem BucketsMove.write {lbs : LudoBuckets} {r : Nat} {s : Slot} {word : U64}
    (h : WordMove clears P (lbs.word r s) word) :
    BucketsMove clears P lbs.bucketsArray (lbs.setRow r ((lbs.bucketsArray r).write s word)).bucketsArray := by
  intro r' s'
  have hword := LudoBuckets.write_word lbs r r' s s' word
  unfold LudoBuckets.word at hword h
  rw [hword]
  split
  · rename_i heq
    obtain ⟨rfl, rfl⟩ := heq
    exact h
  · exact .same

/-- An index written to an empty slot. -/
theorem BucketsMove.writeAddr (H : HashFn) {lbs : LudoBuckets} {key : U64} {r : Nat} {s : Slot} {addr : U64}
    (hempty : occ (lbs.word r s) = false) (hP : P (addr.toNat % 2 ^ 40)) :
    BucketsMove clears P lbs.bucketsArray (lbs.writeAddr H key r s addr).bucketsArray :=
  .write (.fill hempty (occ_insert _ _) (by rw [addrOf_combine]; exact hP))

theorem BucketsMove.setCachebit {lbs : LudoBuckets} {r : Nat} {s : Slot} (hocc : occ (lbs.word r s) = true) :
    BucketsMove clears P lbs.bucketsArray (lbs.setCachebit r s).bucketsArray := by
  obtain ⟨haddr, hocc'⟩ := setBit63_fields (lbs.word r s)
  exact .write (.mark hocc (hocc'.trans hocc) haddr)

theorem BucketsMove.removeAddr (lbs : LudoBuckets) (hc : clears) (r : Nat) (s : Slot) :
    BucketsMove clears P lbs.bucketsArray (lbs.removeAddr r s).bucketsArray := .write (.clear hc)

/-- A region written back. -/
theorem BucketsMove.setRegion {sh : Shared} {ver : Nat} (rg : Region)
    (h : BucketsMove clears P (sh.regions ver).buckets rg.buckets) (v : Nat) :
    BucketsMove clears (fun a => v = ver ∧ P a) (sh.regions v).buckets ((sh.setRegion ver rg).regions v).buckets := by
  by_cases hv : v = ver
  · subst hv
    rw [Shared.setRegion_self]
    exact h.mono (fun h => h) (fun a ha => ⟨rfl, ha⟩)
  · rw [Shared.setRegion_of_ne _ _ hv]
    exact .refl _

/-- Without clears a held address stays held. -/
theorem Region.Holds.move {rg rg' : Region} {rows i : Nat} (h : rg.Holds rows i)
    (hm : BucketsMove False P rg.buckets rg'.buckets) : rg'.Holds rows i := by
  obtain ⟨r, hr, t, hocc, ha⟩ := h
  obtain ⟨hocc', ha'⟩ := (hm r t).kept hocc
  exact ⟨r, hr, t, hocc', ha'.trans ha⟩

/-- An address is held that was, or one that the step wrote. -/
theorem Region.Holds.of_move {rg rg' : Region} {rows i : Nat} (h : rg'.Holds rows i)
    (hm : BucketsMove clears P rg.buckets rg'.buckets) : rg.Holds rows i ∨ P i := by
  obtain ⟨r, hr, t, hocc, ha⟩ := h
  rcases (hm r t).origin hocc with ⟨hocc₀, ha₀⟩ | hP
  · exact Or.inl ⟨r, hr, t, hocc₀, ha₀.trans ha⟩
  · exact Or.inr (ha ▸ hP)

end Moves

/-! ## The operation of a client -/

section HandedOut

variable {reg reg' : SharedNumaRegistry} {i : Nat}

theorem SharedNumaRegistry.mem_handedOut : i ∈ reg.handedOut reg' ↔ ∃ lane, lane < reg.lanes.lanes ∧
    reg'.lanes.laneNextFreeIndex lane ≠ reg.lanes.laneNextFreeIndex lane ∧
    reg.lanes.laneNextFreeIndex lane = i ∧ i < reg.currentEpoch.geometry.numDataEntries := by
  unfold SharedNumaRegistry.handedOut
  simp only [List.mem_map, List.mem_filter, List.mem_range, decide_eq_true_eq]
  constructor
  · rintro ⟨lane, ⟨hlane, hne, hlt⟩, rfl⟩
    exact ⟨lane, hlane, hne, rfl, hlt⟩
  · rintro ⟨lane, hlane, hne, rfl, hlt⟩
    exact ⟨lane, ⟨hlane, hne, hlt⟩, rfl⟩

theorem SharedNumaRegistry.not_mem_handedOut (h : reg'.lanes = reg.lanes) : i ∉ reg.handedOut reg' := by
  rw [SharedNumaRegistry.mem_handedOut, h]
  rintro ⟨lane, -, hne, -⟩
  exact hne rfl

/-- A lane moved by one stride. -/
theorem SharedNumaRegistry.mem_handedOut_bump {lane : Nat} (hlane : lane < reg.lanes.lanes)
    (h : reg'.lanes.laneNextFreeIndex = Lib.bump reg.lanes.lanes reg.lanes.laneNextFreeIndex lane) :
    i ∈ reg.handedOut reg' ↔
      i = reg.lanes.laneNextFreeIndex lane ∧ i < reg.currentEpoch.geometry.numDataEntries := by
  rw [SharedNumaRegistry.mem_handedOut, h]
  unfold Lib.bump
  constructor
  · rintro ⟨lane', hlane', hne, rfl, hlt⟩
    by_cases heq : lane' = lane
    · exact ⟨by rw [heq], hlt⟩
    · exact absurd (Function.update_of_ne heq ..) hne
  · rintro ⟨rfl, hlt⟩
    refine ⟨lane, hlane, ?_, rfl, hlt⟩
    rw [Function.update_self]
    omega

end HandedOut

section Client

variable {H : HashFn} {st st' : Store} {c c' : ClientView} {tid : Nat} {env : OpEnv}

/-- The body of the inserting cases writes inside the packed array. -/
theorem insertAt_index_lt {laneId idx row : Nat} {k v : U64} {s : Slot} (ha : st.nextIndex laneId = some idx)
    (hok : st.insertAt H laneId k v row s = .ok st') : idx < st.packed.numElements := by
  unfold Store.insertAt at hok
  rw [show st.lanes.allocRemoteDataSlot laneId st.numDataEntries
    = (some idx, (st.lanes.allocRemoteDataSlot laneId st.numDataEntries).2) from Prod.ext ha rfl] at hok
  obtain ⟨pd, hpd, -⟩ := Lib.bind_eq_ok.mp hok
  exact (PackedData.updateData_eq_ok hpd).1

/-- So does a put that finds an empty slot. -/
theorem numaPut_index_lt {laneId idx : Nat} {k v : U64} {s : Slot} (hs : st.putSlot H k = some s)
    (ha : st.nextIndex laneId = some idx) (hok : st.numaPut H laneId k v = .ok st') : idx < st.packed.numElements := by
  unfold Store.numaPut at hok
  obtain ⟨b, hb, hok⟩ := Lib.bind_eq_ok.mp hok
  obtain ⟨-, rfl⟩ := LudoBuckets.row_eq_ok hb
  simp only at hok
  cases hst : st.status H k with
  | good =>
      rw [show LudoBucket.checkSlots H _ k _ = .good from hst] at hok
      exact insertAt_index_lt ha hok
  | emptyExists =>
      rw [show LudoBucket.checkSlots H _ k _ = .emptyExists from hst] at hok
      simp only [find_eq_putSlot hst, hs] at hok
      exact insertAt_index_lt ha hok
  | maybeUpdate | full =>
      unfold Store.putSlot at hs
      rw [hst] at hs
      cases hs

/-- An operation fills a slot with the index it allocates, or clears one, or writes no slot. -/
theorem step_buckets {op : NumaOp} (hok : st.step H op = .ok st') :
    BucketsMove (∃ k, op = .remove k)
      (fun a => ∃ laneId idx, st.nextIndex laneId = some idx ∧ idx < st.packed.numElements ∧
        st'.lanes = (st.takeIndex laneId).lanes ∧ a = idx % 2 ^ 40)
      st.buckets.bucketsArray st'.buckets.bucketsArray := by
  cases op with
  | put laneId k v =>
      cases numaPut_inv hok with
      | noSpace s hs ha => exact .refl _
      | insert s idx hs ha =>
          refine .write (.fill (Bool.not_eq_true _ ▸ not_occupied_putSlot hs) (occ_insert _ _) ?_)
          exact ⟨laneId, idx, ha, numaPut_index_lt hs ha hok, rfl, addrOf_insertWord _ idx⟩
      | update hst hk => exact .refl _
      | dropped hst hk => exact .refl _
      | overwrite hst => exact .refl _
  | update k v =>
      rcases numaUpdate_cases hok with ⟨-, rfl⟩ | ⟨-, rfl⟩ <;> exact .refl _
  | remove k =>
      rcases numaRemove_cases hok with ⟨-, rfl⟩ | ⟨-, rfl⟩
      · exact .refl _
      · exact .write (.clear ⟨k, rfl⟩)

/-- The lanes behind an operation of a client: one of them has moved on, or none. -/
theorem clientStep_lanes {op : ClientOp} (hok : c.step H tid env op = .ok c') :
    c'.shared.registry.lanes = c.shared.registry.lanes ∨ ∃ lane, lane < c.shared.registry.lanes.lanes ∧
      c'.shared.registry.lanes.laneNextFreeIndex
        = Lib.bump c.shared.registry.lanes.lanes c.shared.registry.lanes.laneNextFreeIndex lane := by
  have hlanes := (maybeCheckVersion_data c tid env).registry.lanes
  rcases clientStep_inv hok with rfl | ⟨w, numaOp, st, -, -, hst, rfl⟩
  · exact Or.inl hlanes
  · have hcommit : ((c.maybeCheckVersion tid env).commit w st).shared.registry.lanes =
        if (c.maybeCheckVersion tid env).process.registryMapped then st.lanes
        else (c.maybeCheckVersion tid env).shared.registry.lanes := rfl
    rw [hcommit]
    split
    · rcases step_lanes hst with hl | ⟨laneId, hl⟩
      · exact Or.inl (hl.trans hlanes)
      · refine Or.inr ⟨laneId % c.shared.registry.lanes.lanes, Nat.mod_lt _ (Lanes.lanes_pos _), ?_⟩
        rw [hl, ← hlanes]
        rfl
    · exact Or.inl hlanes

/-- **The slots behind an operation of a client.** A slot of a region is filled only through wrappers over it, with an
    index inside them that the operation was handed out. -/
theorem clientStep_buckets {op : ClientOp} (hok : c.step H tid env op = .ok c') (v : Nat) :
    BucketsMove (∃ k, op = .write (.remove k))
      (fun a => ∃ w idx, (c.maybeCheckVersion tid env).selectWrappers = .ok (some w) ∧ w.ver = v ∧
        idx < w.numDataEntries ∧ idx ∈ c.shared.registry.handedOut c'.shared.registry ∧ a = idx % 2 ^ 40)
      (c.shared.regions v).buckets (c'.shared.regions v).buckets := by
  have hdata := maybeCheckVersion_data c tid env
  rcases clientStep_inv hok with rfl | ⟨w, numaOp, st, rfl, hsel, hst, rfl⟩
  · exact .of_eq (hdata.buckets v)
  · have hregion : ((c.maybeCheckVersion tid env).store w).buckets.bucketsArray
        = ((c.maybeCheckVersion tid env).shared.regions w.ver).buckets := rfl
    have hm := BucketsMove.setRegion ⟨st.packed.rawArray, st.buckets.bucketsArray⟩ (hregion ▸ step_buckets hst) v
    rw [← hdata.buckets v]
    refine hm.mono ?_ ?_
    · rintro ⟨k, hk⟩
      cases numaOp with
      | remove k' => exact ⟨k', rfl⟩
      | put _ _ _ | update _ _ => cases hk
    · rintro a ⟨rfl, laneId, idx, ha, hlt, hl, rfl⟩
      refine ⟨w, idx, hsel, rfl, hlt, ?_, rfl⟩
      -- an index was found, so the registry is mapped and the counters are written back
      have hentries := nextIndex_lt ha
      have hmapped : (c.maybeCheckVersion tid env).process.registryMapped = true := by
        by_contra hm
        have hzero : ((c.maybeCheckVersion tid env).store w).numDataEntries = 0 := if_neg hm
        omega
      have hcur : ((c.maybeCheckVersion tid env).store w).numDataEntries
          = c.shared.registry.currentEpoch.geometry.numDataEntries := by
        rw [← hdata.currentEpoch]
        exact if_pos hmapped
      have hlane : laneId % c.shared.registry.lanes.lanes < c.shared.registry.lanes.lanes :=
        Nat.mod_lt _ (Lanes.lanes_pos _)
      refine (SharedNumaRegistry.mem_handedOut_bump hlane ?_).mpr ⟨?_, hcur ▸ hentries⟩
      · show (if (c.maybeCheckVersion tid env).process.registryMapped then st.lanes
          else (c.maybeCheckVersion tid env).shared.registry.lanes).laneNextFreeIndex = _
        rw [if_pos hmapped, hl, ← hdata.registry.lanes]
        rfl
      · rw [nextIndex_eq ha, ← hdata.registry.lanes]
        rfl

end Client

/-! ## The call of a handler -/

section Handler

variable {H : HashFn} {s : NumaServer} {r : NumaServer × ReplyValue} {clears : Prop} {P : Nat → Prop}

/-- What `bulk_load_data` returns is stored as it is. -/
theorem loadedAddr (num : Nat) : ((BitVec.ofNat 32 num).setWidth 64).toNat % 2 ^ 40 = (BitVec.ofNat 32 num).toNat := by
  have := (BitVec.ofNat 32 num).isLt
  rw [BitVec.toNat_setWidth]
  omega

theorem NumaServer.buckets_eq_ok {lbs : LudoBuckets} (h : s.buckets = .ok lbs) :
    lbs.bucketsArray = (s.orch.shared.regions s.ludoBuckets.ver).buckets := by
  unfold NumaServer.buckets at h
  split at h
  · cases h
    rfl
  · cases h

theorem NumaServer.packed_eq_ok {pd : PackedData} (h : s.packed = .ok pd) :
    pd.num = s.packedData.num ∧ pd.numElements = s.packedData.numElements := by
  unfold NumaServer.packed at h
  split at h
  · cases h
    exact ⟨rfl, rfl⟩
  · cases h

theorem NumaServer.putPacked_buckets (pd : PackedData) (v : Nat) :
    ((s.putPacked pd).orch.shared.regions v).buckets = (s.orch.shared.regions v).buckets := by
  by_cases hv : v = s.packedData.ver
  · subst hv
    rw [show (s.putPacked pd).orch.shared.regions s.packedData.ver
      = { s.orch.shared.regions s.packedData.ver with packed := pd.rawArray } from Shared.setRegion_self _ _ _]
  · exact congrArg Region.buckets (Shared.setRegion_of_ne _ _ hv)

/-- A handler writes the buckets it has read. -/
theorem NumaServer.putBuckets_move {t : NumaServer} {lbs lbs' : LudoBuckets} (hb : s.buckets = .ok lbs)
    (ht : ∀ v, (t.orch.shared.regions v).buckets = (s.orch.shared.regions v).buckets)
    (hver : t.ludoBuckets.ver = s.ludoBuckets.ver) (hm : BucketsMove clears P lbs.bucketsArray lbs'.bucketsArray)
    (v : Nat) : BucketsMove clears (fun a => v = s.ludoBuckets.ver ∧ P a) (s.orch.shared.regions v).buckets
      ((t.putBuckets lbs').orch.shared.regions v).buckets := by
  rw [NumaServer.buckets_eq_ok hb, ← hver, ← ht] at hm
  rw [← ht, ← hver]
  exact BucketsMove.setRegion { t.orch.shared.regions t.ludoBuckets.ver with buckets := lbs'.bucketsArray } hm v

/-- What a call does to the slots and to the counter of `packed_data`. -/
structure CallMoves (clears : Prop) (s s' : NumaServer) : Prop where
  num : s'.packedData.num = s.packedData.num ∨ s'.packedData.num = s.packedData.num + 1
  /-- a call that allocates is not deferred, and finds room -/
  allocates : s'.packedData.num ≠ s.packedData.num →
    s.orch.mutationsBlocked = false ∧ s.packedData.num < s.packedData.numElements
  buckets : ∀ v, BucketsMove clears
    (fun a => v = s.ludoBuckets.ver ∧ s'.packedData.num = s.packedData.num + 1 ∧
      a = (BitVec.ofNat 32 s.packedData.num).toNat)
    (s.orch.shared.regions v).buckets (s'.orch.shared.regions v).buckets

theorem CallMoves.of_same {s' : NumaServer} (hnum : s'.packedData.num = s.packedData.num)
    (hbuckets : ∀ v, (s'.orch.shared.regions v).buckets = (s.orch.shared.regions v).buckets) : CallMoves clears s s' :=
  ⟨Or.inl hnum, fun hne => absurd hnum hne, fun v => .of_eq (hbuckets v)⟩

theorem insertDirect_moves {lbs : LudoBuckets} {key val : U64} {row : Nat} {slot : Slot} {v : U64}
    (hopen : s.orch.mutationsBlocked = false) (hb : s.buckets = .ok lbs) (hempty : occ (lbs.word row slot) = false)
    (h : s.insertDirect H lbs key val row slot v = .ok r) : CallMoves clears s r.1 := by
  unfold NumaServer.insertDirect at h
  obtain ⟨pd, hpd, h⟩ := Lib.bind_eq_ok.mp h
  obtain ⟨q, hq, h⟩ := Lib.bind_eq_ok.mp h
  obtain ⟨hroom, rfl⟩ := PackedData.bulkLoadData_eq_ok hq
  obtain ⟨hnum, hel⟩ := NumaServer.packed_eq_ok hpd
  rw [hnum, hel] at hroom
  cases h
  have hmoved : ((s.putPacked (pd.push ⟨key, 8, val⟩)).putBuckets (lbs.writeAddr H key row slot
      ((BitVec.ofNat 32 pd.num).setWidth 64))).packedData.num = s.packedData.num + 1 := congrArg (· + 1) hnum
  refine ⟨Or.inr hmoved, fun _ => ⟨hopen, hroom⟩, fun w => ?_⟩
  have hm : BucketsMove clears (· = (BitVec.ofNat 32 s.packedData.num).toNat) lbs.bucketsArray
      (lbs.writeAddr H key row slot ((BitVec.ofNat 32 pd.num).setWidth 64)).bucketsArray := by
    refine .writeAddr H hempty ?_
    rw [loadedAddr, hnum]
  exact (NumaServer.putBuckets_move hb (NumaServer.putPacked_buckets _) rfl hm w).mono (fun h => h)
    (fun a ha => ⟨ha.1, hmoved, ha.2⟩)

theorem applyPut_moves {loc : Nat} {key val : U64} {reply : ReplyValue} (hopen : s.orch.mutationsBlocked = false)
    (h : s.applyPut H loc key val reply = .ok r) : CallMoves clears s r.1 := by
  unfold NumaServer.applyPut at h
  obtain ⟨lbs, hb, h⟩ := Lib.bind_eq_ok.mp h
  obtain ⟨b, hrow, h⟩ := Lib.bind_eq_ok.mp h
  obtain ⟨-, rfl⟩ := LudoBuckets.row_eq_ok hrow
  simp only at h
  cases hst : (lbs.bucketsArray (locRow loc)).checkSlots H key
      (seedSlot H (s.orch.lookup.seeds (locRow loc)) key) with
  | good =>
      rw [hst] at h
      exact insertDirect_moves hopen hb (LudoBucket.checkSlots_good_iff.mp hst) h
  | maybeUpdate =>
      rw [hst] at h
      obtain ⟨pd, hpd, h⟩ := Lib.bind_eq_ok.mp h
      obtain ⟨k, -, h⟩ := Lib.bind_eq_ok.mp h
      split at h
      · obtain ⟨pd', hpd', h⟩ := Lib.bind_eq_ok.mp h
        obtain ⟨-, rfl⟩ := PackedData.updateData_eq_ok hpd'
        have hnum := (NumaServer.packed_eq_ok hpd).1
        cases h
        exact .of_same hnum (NumaServer.putPacked_buckets _)
      · cases h
        exact .of_same rfl (fun _ => rfl)
  | emptyExists =>
      rw [hst] at h
      simp only at h
      split at h
      · rename_i t hfind
        exact insertDirect_moves hopen hb (LudoBucket.checkSlots_good_iff.mp (by simpa using List.find?_some hfind)) h
      · cases h
        exact .of_same rfl (fun _ => rfl)
  | full =>
      rw [hst] at h
      cases h
      refine ⟨Or.inl rfl, fun hne => absurd rfl hne, fun v => ?_⟩
      have hmark : BucketsMove clears (fun _ => False) lbs.bucketsArray (lbs.setCachebit (locRow loc)
          (seedSlot H (s.orch.lookup.seeds (locRow loc)) key)).bucketsArray :=
        .setCachebit (LudoBucket.occ_of_full hst _)
      exact (NumaServer.putBuckets_move hb (fun _ => rfl) rfl hmark v).mono (fun h => h) (fun a ha => ha.2.elim)

theorem outbackUpdateDirect_moves {loc : Nat} {key val : U64} (h : s.outbackUpdateDirect loc key val = .ok r) :
    CallMoves clears s r.1 := by
  unfold NumaServer.outbackUpdateDirect at h
  obtain ⟨lbs, -, h⟩ := Lib.bind_eq_ok.mp h
  obtain ⟨b, -, h⟩ := Lib.bind_eq_ok.mp h
  obtain ⟨pd, hpd, h⟩ := Lib.bind_eq_ok.mp h
  obtain ⟨k, -, h⟩ := Lib.bind_eq_ok.mp h
  split at h
  · obtain ⟨pd', hpd', h⟩ := Lib.bind_eq_ok.mp h
    obtain ⟨-, rfl⟩ := PackedData.updateData_eq_ok hpd'
    have hnum := (NumaServer.packed_eq_ok hpd).1
    cases h
    exact .of_same hnum (NumaServer.putPacked_buckets _)
  · cases h
    exact .of_same rfl (fun _ => rfl)

/-- A remove that succeeds leaves the counter alone. -/
theorem removeDataWithKeyCheck_num {pd pd' : PackedData} {i : Nat} {key : U64} {res : Bool}
    (h : pd.removeDataWithKeyCheck i key = .ok (pd', res)) : pd'.num = pd.num := by
  unfold PackedData.removeDataWithKeyCheck at h
  obtain ⟨e, -, h⟩ := Lib.bind_eq_ok.mp h
  split at h <;> cases h <;> rfl

theorem applyRemove_moves {loc : Nat} {key : U64} (hc : clears) (h : s.applyRemove loc key = .ok r) :
    CallMoves clears s r.1 := by
  unfold NumaServer.applyRemove at h
  obtain ⟨lbs, hb, h⟩ := Lib.bind_eq_ok.mp h
  obtain ⟨b, -, h⟩ := Lib.bind_eq_ok.mp h
  obtain ⟨pd, hpd, h⟩ := Lib.bind_eq_ok.mp h
  obtain ⟨⟨pd', res⟩, hrem, h⟩ := Lib.bind_eq_ok.mp h
  have hnum : pd'.num = s.packedData.num := (removeDataWithKeyCheck_num hrem).trans (NumaServer.packed_eq_ok hpd).1
  cases res with
  | true =>
      cases h
      refine ⟨Or.inl hnum, fun hne => absurd hnum hne, fun v => ?_⟩
      have hclear : BucketsMove clears (fun _ => False) lbs.bucketsArray
        (lbs.removeAddr (locRow loc) (locSlot loc)).bucketsArray := .removeAddr _ hc _ _
      exact (NumaServer.putBuckets_move hb (NumaServer.putPacked_buckets _) rfl hclear v).mono (fun h => h)
        (fun _ ha => ha.2.elim)
  | false =>
      cases h
      exact .of_same rfl (fun _ => rfl)

theorem deferPut_moves (s : NumaServer) (key val : U64) : CallMoves clears s (s.deferPut key val) := by
  unfold NumaServer.deferPut Server.deferInsert
  split
  · split <;> exact .of_same rfl (fun _ => rfl)
  · exact .of_same rfl (fun _ => rfl)

theorem deferRemove_moves (s : NumaServer) (key : U64) : CallMoves clears s (s.deferRemove key) := by
  unfold NumaServer.deferRemove Server.deferDelete
  split
  · split <;> exact .of_same rfl (fun _ => rfl)
  · exact .of_same rfl (fun _ => rfl)

/-- **The slots behind a call.** A put fills a slot with what `bulk_load_data` returned. -/
theorem call_moves {c : DirectCall} (h : s.call H c = .ok r) :
    CallMoves (∃ loc key, c = .remove loc key) s r.1 := by
  cases c with
  | get loc =>
      obtain ⟨v, -, h⟩ := Lib.bind_eq_ok.mp h
      cases h
      exact .of_same rfl (fun _ => rfl)
  | put loc key val reply =>
      change s.outbackPutDirect H loc key val reply = .ok r at h
      unfold NumaServer.outbackPutDirect at h
      split at h
      · cases h
        exact deferPut_moves s key val
      · rename_i hopen
        exact applyPut_moves (by simpa using hopen) h
  | update loc key val => exact outbackUpdateDirect_moves h
  | remove loc key =>
      change s.outbackRemoveDirect loc key = .ok r at h
      unfold NumaServer.outbackRemoveDirect at h
      split at h
      · cases h
        exact deferRemove_moves s key
      · exact applyRemove_moves ⟨loc, key, rfl⟩ h

/-- A put queues no delete. -/
theorem put_deferredDeletes {loc : Nat} {key val : U64} {reply : ReplyValue}
    (h : s.call H (.put loc key val reply) = .ok r) : r.1.orch.deferredDeletes = s.orch.deferredDeletes := by
  change s.outbackPutDirect H loc key val reply = .ok r at h
  unfold NumaServer.outbackPutDirect at h
  split at h
  · cases h
    unfold NumaServer.deferPut Server.deferInsert
    split
    · split <;> rfl
    · rfl
  · obtain ⟨regions, num, cache, -, heq⟩ := applyPut_keeps h
    rw [heq]

end Handler

/-! ## A replay -/

/-- What a replay does to the slots and to the orchestrator's views. -/
structure ReplayMoves (clears : Prop) (s s' : Server) : Prop where
  views : s'.newWrappers = s.newWrappers ∨ ∃ w, s.newWrappers = some w ∧ w.num < w.numDataEntries ∧
    s'.newWrappers = some { w with num := w.num + 1 }
  buckets : ∀ v, BucketsMove clears
    (fun a => ∃ w, s.newWrappers = some w ∧ w.ver = v ∧ w.num < w.numDataEntries ∧
      s'.newWrappers = some { w with num := w.num + 1 } ∧ a = (BitVec.ofNat 32 w.num).toNat)
    (s.shared.regions v).buckets (s'.shared.regions v).buckets

section Replay

variable {H : HashFn} {s s' : Server} {clears : Prop}

theorem ReplayMoves.refl (s : Server) : ReplayMoves clears s s := ⟨Or.inl rfl, fun _ => .refl _⟩

/-- The body of `replay_insert`: a slot is filled with what `bulk_load_data` returned, or no slot is written. -/
theorem replayPut_moves (clears : Prop) {lookup : DataPlaneLudo} {lbs lbs' : LudoBuckets} {pd pd' : PackedData} {key val : U64}
    (h : Server.replayPut H lookup lbs pd key val = .ok (pd', lbs')) :
    (pd'.num = pd.num ∧ lbs' = lbs) ∨ (pd'.num = pd.num + 1 ∧ pd.num < pd.numElements ∧
      BucketsMove clears (· = (BitVec.ofNat 32 pd.num).toNat) lbs.bucketsArray lbs'.bucketsArray) := by
  unfold Server.replayPut at h
  simp only at h
  obtain ⟨b, hrow, h⟩ := Lib.bind_eq_ok.mp h
  obtain ⟨-, rfl⟩ := LudoBuckets.row_eq_ok hrow
  -- the two inserting cases
  have hinsert : ∀ t : Slot, occ (lbs.word (lookup.row H key) t) = false →
      (do let q ← pd.bulkLoadData key 8 val
          return (q.1, lbs.writeAddr H key (lookup.row H key) t (q.2.setWidth 64))) = .ok (pd', lbs') →
      pd'.num = pd.num + 1 ∧ pd.num < pd.numElements ∧
        BucketsMove clears (· = (BitVec.ofNat 32 pd.num).toNat) lbs.bucketsArray lbs'.bucketsArray := by
    intro t hempty h
    obtain ⟨q, hq, h⟩ := Lib.bind_eq_ok.mp h
    obtain ⟨hlt, rfl⟩ := PackedData.bulkLoadData_eq_ok hq
    cases h
    exact ⟨rfl, hlt, .writeAddr H hempty (loadedAddr pd.num)⟩
  cases hst : (lbs.bucketsArray (lookup.row H key)).checkSlots H key (lookup.slot H key) with
  | good =>
      rw [hst] at h
      exact Or.inr (hinsert _ (LudoBucket.checkSlots_good_iff.mp hst) h)
  | maybeUpdate =>
      rw [hst] at h
      obtain ⟨e, -, h⟩ := Lib.bind_eq_ok.mp h
      split at h
      · obtain ⟨pd₁, hpd₁, h⟩ := Lib.bind_eq_ok.mp h
        obtain ⟨-, rfl⟩ := PackedData.updateData_eq_ok hpd₁
        cases h
        exact Or.inl ⟨rfl, rfl⟩
      · cases h
        exact Or.inl ⟨rfl, rfl⟩
  | emptyExists =>
      rw [hst] at h
      simp only at h
      split at h
      · rename_i t hfind
        exact Or.inr (hinsert t (LudoBucket.checkSlots_good_iff.mp (by simpa using List.find?_some hfind)) h)
      · cases h
        exact Or.inl ⟨rfl, rfl⟩
  | full =>
      rw [hst] at h
      cases h
      exact Or.inl ⟨rfl, rfl⟩

theorem replayInsert_moves (clears : Prop) {key val : U64} (h : s.replayInsert H key val = .ok s') : ReplayMoves clears s s' := by
  unfold Server.replayInsert at h
  split at h
  · cases h
    exact .refl s
  · rename_i w hw
    obtain ⟨⟨pd', lbs'⟩, hput, h⟩ := Lib.bind_eq_ok.mp h
    cases h
    rcases replayPut_moves clears hput with ⟨hnum, rfl⟩ | ⟨hnum, hlt, hm⟩
    · have hnum : pd'.num = w.num := hnum
      refine ⟨Or.inl ?_, fun v => ?_⟩
      · show some { w with num := pd'.num } = s.newWrappers
        rw [hnum, hw]
      · exact (BucketsMove.setRegion (P := fun _ => False) ⟨pd'.rawArray, (s.shared.regions w.ver).buckets⟩
          (.refl _) v).mono (fun h => h) (fun _ ha => ha.2.elim)
    · have hnum : pd'.num = w.num + 1 := hnum
      have hviews : some { w with num := pd'.num } = some { w with num := w.num + 1 } := by rw [hnum]
      refine ⟨Or.inr ⟨w, hw, hlt, hviews⟩, fun v => ?_⟩
      exact (BucketsMove.setRegion ⟨pd'.rawArray, lbs'.bucketsArray⟩ hm v).mono (fun h => h)
        (fun a ha => ⟨w, hw, ha.1.symm, hlt, hviews, ha.2⟩)

/-- The scan of `replay_delete` clears one slot or none. -/
theorem replayScan_moves {P : Nat → Prop} {lbs lbs' : LudoBuckets} {pd pd' : PackedData} {key : U64} {row : Nat}
    {primary : Slot} (hc : clears) {l : List Slot}
    (h : Server.replayScan lbs pd key row primary l = .ok (pd', lbs')) :
    BucketsMove clears P lbs.bucketsArray lbs'.bucketsArray := by
  induction l with
  | nil =>
      cases h
      exact .refl _
  | cons t l ih =>
      unfold Server.replayScan at h
      split at h
      · exact ih h
      · split at h
        · exact ih h
        · obtain ⟨⟨pd₁, res⟩, -, h⟩ := Lib.bind_eq_ok.mp h
          cases res with
          | true =>
              cases h
              exact .removeAddr _ hc _ _
          | false => exact ih h

theorem replayDelete_moves {key : U64} (hc : clears) (h : s.replayDelete H key = .ok s') : ReplayMoves clears s s' := by
  unfold Server.replayDelete at h
  split at h
  · cases h
    exact .refl s
  · rename_i w hw
    obtain ⟨⟨pd', lbs'⟩, hrem, h⟩ := Lib.bind_eq_ok.mp h
    cases h
    have hm : BucketsMove clears (fun _ => False) (s.shared.regions w.ver).buckets lbs'.bucketsArray := by
      unfold Server.replayRemove at hrem
      obtain ⟨b, -, hrem⟩ := Lib.bind_eq_ok.mp hrem
      obtain ⟨⟨pd₁, res⟩, -, hrem⟩ := Lib.bind_eq_ok.mp hrem
      cases res with
      | true =>
          cases hrem
          exact .removeAddr ⟨(s.shared.regions w.ver).buckets, w.numBuckets⟩ hc _ _
      | false => exact replayScan_moves hc hrem
    exact ⟨Or.inl rfl, fun v => (BucketsMove.setRegion ⟨pd'.rawArray, lbs'.bucketsArray⟩ hm v).mono (fun h => h)
      (fun _ ha => ha.2.elim)⟩

theorem replay_moves {m : Mutation} (h : s.replay H m = .ok s') : ReplayMoves (∃ key, m = .delete key) s s' := by
  cases m with
  | insert key val => exact replayInsert_moves _ h
  | delete key => exact replayDelete_moves ⟨key, rfl⟩ h

/-- **One round of the replay loops.** -/
theorem replayNext_moves (h : s.replayNext H = .ok s') : ReplayMoves (s.deferredDeletes ≠ []) s s' ∧
    ∃ t inserts deletes, ReplayKeeps s t ∧ s' = t.withQueues inserts deletes ∧ (s.deferredDeletes = [] → deletes = []) := by
  unfold Server.replayNext at h
  split at h
  · rename_i key val rest hins
    obtain ⟨t, ht, h⟩ := Lib.bind_eq_ok.mp h
    cases h
    obtain ⟨hviews, hbuckets⟩ := replayInsert_moves (s.deferredDeletes ≠ []) ht
    have hkeep := replayInsert_keeps ht
    refine ⟨⟨hviews, hbuckets⟩, t, rest, t.deferredDeletes, hkeep, rfl, fun hd => ?_⟩
    obtain ⟨regions, wrappers, rfl⟩ := hkeep
    exact hd
  · rename_i key rest hins hdel
    obtain ⟨t, ht, h⟩ := Lib.bind_eq_ok.mp h
    cases h
    have hdeletes : s.deferredDeletes ≠ [] := by rw [hdel]; simp
    obtain ⟨hviews, hbuckets⟩ := replayDelete_moves hdeletes ht
    exact ⟨⟨hviews, hbuckets⟩, t, t.deferredInserts, rest, replayDelete_keeps ht, rfl, fun hd => absurd hd hdeletes⟩
  · cases h
    exact ⟨.refl s, s, _, _, .refl s, rfl, fun h => h⟩

end Replay

/-! ## A tick -/

section Tick

variable {H : HashFn} {s s' : Server} {inp : TickInput}

theorem drainOld_empty (hi : s.deferredInserts = []) (hd : s.deferredDeletes = [])
    (hw : ¬ (s.pendingOldVer > 0 ∧ (s.registry.epochOf s.pendingOldVer).activeWriters > 0)) :
    s.drainOld H inp = .ok (s.finishDrain inp) := by
  have hqueues : s.withQueues [] [] = s := by
    unfold Server.withQueues
    rw [← hi, ← hd]
  rw [drainOld_replays inp hw, Server.replayOrder, hi, hd]
  show Except.ok ((s.withQueues [] []).finishDrain inp) = _
  rw [hqueues]

/-- The end of `drain_old` writes registry words. -/
theorem finishDrain_keeps (s : Server) (inp : TickInput) : Quiet s (s.finishDrain inp) ∧
    (s.finishDrain inp).shared.regions = s.shared.regions ∧ (s.finishDrain inp).newWrappers = s.newWrappers ∧
    (s.finishDrain inp).deferredDeletes = s.deferredDeletes := by
  refine ⟨quiet_drainEnd s (inp.nowMs 0), ?_⟩
  unfold Server.finishDrain
  split <;> exact ⟨rfl, rfl, rfl⟩

/-- Handlers are blocked and the orchestrator waits for clients or replays. -/
def Server.Switching (s : Server) : Prop :=
  s.registry.resizeState = .readyToSwitch ∨ s.registry.resizeState = .drainOld

instance (s : Server) : Decidable s.Switching := inferInstanceAs (Decidable (_ ∨ _))

/-- A tick that completes no copy and replays nothing. -/
structure QuietTick (s s' : Server) : Prop where
  quiet : Quiet s s'
  orch : OrchInv s → OrchInv s'
  regions : s'.shared.regions = s.shared.regions
  newWrappers : s'.newWrappers = s.newWrappers
  deferredDeletes : s'.deferredDeletes = s.deferredDeletes
  switching : s'.Switching → s.Switching ∧ s'.pendingOldVer = s.pendingOldVer

/-- **What a tick without mutations to replay can do.** -/
theorem tick_inv (h : s.checkState H inp = .ok s')
    (hq : ¬ (s.Draining ∧ (s.deferredInserts ≠ [] ∨ s.deferredDeletes ≠ []))) :
    s' = s.copied s.registry.currentVersion inp.packedStruct ∨ QuietTick s s' := by
  rcases checkState_cases h with hquiet | ⟨-, rfl⟩
  · have horch : OrchInv s → OrchInv s' := fun hinv => hinv.move (checkState_move h)
    refine Or.inr ?_
    by_cases hst : s.registry.resizeState = .drainOld
    · have hdrain : s.drainOld H inp = .ok s' := by
        unfold Server.checkState at h
        rw [hst] at h
        exact h
      by_cases hw : s.pendingOldVer > 0 ∧ (s.registry.epochOf s.pendingOldVer).activeWriters > 0
      · unfold Server.drainOld at hdrain
        rw [if_pos hw] at hdrain
        cases hdrain
        exact ⟨hquiet, horch, rfl, rfl, rfl, fun hs => ⟨hs, rfl⟩⟩
      · obtain ⟨hi, hd⟩ := not_or.mp (fun hne => hq ⟨⟨hst, hw⟩, hne⟩)
        rw [drainOld_empty (not_not.mp hi) (not_not.mp hd) hw] at hdrain
        cases hdrain
        obtain ⟨-, hregions, hviews, hdel⟩ := finishDrain_keeps s inp
        refine ⟨hquiet, horch, hregions, hviews, hdel, fun hs => ?_⟩
        have hdone : (s.finishDrain inp).registry.resizeState = .gcPending := by
          unfold Server.finishDrain
          split <;> rfl
        unfold Server.Switching at hs
        rw [hdone] at hs
        rcases hs with hs | hs <;> cases hs
    · cases checkState_move h with
      | wait ack gc => exact ⟨hquiet, horch, rfl, rfl, rfl, fun hs => ⟨hs, rfl⟩⟩
      | trigger hst' | abort hst' linked hl | reclaimed hst' =>
          refine ⟨hquiet, horch, rfl, rfl, rfl, fun hs => ?_⟩
          rcases hs with hs | hs <;> cases hs
      | acked hst' pending ack => exact ⟨hquiet, horch, rfl, rfl, rfl, fun _ => ⟨Or.inl hst', rfl⟩⟩
      | copy hst' g => exact absurd hquiet.currentVersion (nextVersion_ne _)
      | drained hst' => exact absurd hst' hst
  · exact Or.inl rfl

end Tick

end Outback
