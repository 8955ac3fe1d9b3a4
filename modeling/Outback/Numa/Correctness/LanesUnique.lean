import Outback.Numa.LaneAccess
import Outback.Numa.Correctness.AllocInside

/-!
# `Numa.Correctness.LanesUnique` — no index is handed out twice

A resize stores every lane counter back while allocations with the old epoch in hand are under way. **`lanes_unique`**: the
indices that are returned are pairwise different, not below the bulk-loaded ones and below `num_data_entries` of the version
their call loaded, as long as fewer than `kMaxEpochSlots - 1` resizes go on beside one call. A resize that the call finds
under way counts: `lane_returned_twice` is a run in which only that one is too many, and the slot of the loaded version is
filled again before the comparison.

A counter counts the entries of one version (`laneVersion`): its values lie in the upper half of that version or behind it.
What an allocation may return lies in the upper half of the version it loaded, so that the two versions are the same.
-/

namespace Outback

/-- Fewer resizes than would fill the slot of a version again go on beside a call, the one it finds under way included. -/
def FewResizes (w : LaneWorld) : LaneStep → Prop
  | .advance tid _ => w.pc tid ≠ .idle → (w.calls tid).underWay + (w.calls tid).begun < kMaxEpochSlots - 1
  | .copy => True

/-- Fewer than that begin during a call. -/
def FewBegin (w : LaneWorld) : LaneStep → Prop
  | .advance tid _ => w.pc tid ≠ .idle → (w.calls tid).begun < kMaxEpochSlots - 1
  | .copy => True

instance (w : LaneWorld) (a : LaneStep) : Decidable (FewResizes w a) := by
  cases a <;> unfold FewResizes <;> infer_instance

instance (w : LaneWorld) (a : LaneStep) : Decidable (FewBegin w a) := by
  cases a <;> unfold FewBegin <;> infer_instance

/-! ## Versions -/

theorem entriesAt_double (n v : Nat) : entriesAt (2 * n) v = entriesAt n v * 2 := by
  unfold entriesAt
  rw [Nat.mul_comm 2 n, Nat.mul_right_comm]

theorem le_entriesAt (n v : Nat) : n ≤ entriesAt n v := Nat.le_mul_of_pos_right _ (Nat.two_pow_pos _)

/-- A version that is followed by fewer than `kMaxEpochSlots - 1` doublings keeps its slot. -/
theorem slot_ne_of_recent {v v' : Nat} (hslot : v % kMaxEpochSlots ≠ 0) (hlt : v < v')
    (hrecent : doublings v' < doublings v + (kMaxEpochSlots - 1)) :
    v % kMaxEpochSlots ≠ v' % kMaxEpochSlots := by
  unfold doublings kMaxEpochSlots at *
  omega

/-- There is no version in between. -/
theorem le_of_lt_nextVersion {v v' : Nat} (hslot : v % kMaxEpochSlots ≠ 0) (hlt : v < nextVersion v') : v ≤ v' := by
  unfold nextVersion kMaxEpochSlots at *
  split at hlt <;> omega

namespace LaneWorld

/-- The version whose entries lane `i` counts. -/
def laneVersion (w : LaneWorld) (i : Nat) : Nat :=
  match w.reset with
  | none => w.registry.currentVersion
  | some r => if i < r.lane then r.plan.newVer else w.registry.currentVersion

/-- The latest version with a filled epoch. -/
def filledVersion (w : LaneWorld) : Nat :=
  match w.reset with
  | none => w.registry.currentVersion
  | some r => r.plan.newVer

/-- Thread `tid` has taken index `a` and is going to return it. -/
def Holds (w : LaneWorld) (tid a : Nat) : Prop := ∃ ver, w.pc tid = .compare ver a ∧ a < (w.calls tid).entries

/-- No lane gives out index `a` any more. -/
def Taken (n : Nat) (w : LaneWorld) (a : Nat) : Prop :=
  a < entriesAt n w.registry.currentVersion * 2 ∧ ∀ i, i < w.registry.lanes.lanes → entriesAt n (w.laneVersion i) ≤ a →
    (a - entriesAt n (w.laneVersion i)) % w.registry.lanes.lanes = i → a < w.registry.lanes.laneNextFreeIndex i

end LaneWorld

/-- A reset under way goes from the current version to the next one. -/
structure LaneReset.Fits (n : Nat) (reg : SharedNumaRegistry) (r : LaneReset) : Prop where
  newVer : r.plan.newVer = nextVersion reg.currentVersion
  oldEntries : r.plan.oldDataEntries = entriesAt n reg.currentVersion * 2
  filled : (reg.epochOf r.plan.newVer).version = r.plan.newVer
  le : r.lane ≤ reg.lanes.lanes

/-- Epochs and counters agree with the versions they belong to. -/
structure CountersFit (n : Nat) (w : LaneWorld) : Prop where
  epochs : EpochsFit (2 * n) w.registry
  recent : ∀ v, v % kMaxEpochSlots ≠ 0 → v ≤ w.filledVersion →
    doublings w.filledVersion < doublings v + (kMaxEpochSlots - 1) → (w.registry.epochOf v).version = v
  threads : w.registry.lanes.memThreads ≤ kMaxNumaLanes
  reset : ∀ r, w.reset = some r → r.Fits n w.registry
  lanes : ∀ i, i < w.registry.lanes.lanes →
    ∃ q, w.registry.lanes.laneNextFreeIndex i = entriesAt n (w.laneVersion i) + i + q * w.registry.lanes.lanes

/-- A call has loaded a version with an epoch of its own, and knows the resizes since. -/
def AllocPc.Loaded (n : Nat) (w : LaneWorld) (call : AllocCall) : AllocPc → Prop
  | .idle => True
  | .fetchAdd ver | .compare ver _ =>
      ver % kMaxEpochSlots ≠ 0 ∧ ver ≤ w.registry.currentVersion ∧ call.entries = entriesAt n ver * 2 ∧
        doublings w.filledVersion ≤ doublings ver + (call.underWay + call.begun)

structure LaneInv (n : Nat) (w : LaneWorld) : Prop where
  counters : CountersFit n w
  calls : ∀ tid, (w.pc tid).Loaded n w (w.calls tid)
  held : ∀ tid a, w.Holds tid a → n ≤ a ∧ w.Taken n a
  returned : ∀ r ∈ w.returned, (n ≤ r.idx ∧ r.idx < r.entries) ∧ w.Taken n r.idx
  /-- no index is in two hands -/
  once : ∀ tid tid' a, w.Holds tid a → w.Holds tid' a → tid = tid'
  notReturned : ∀ tid a, w.Holds tid a → ∀ r ∈ w.returned, r.idx ≠ a
  distinct : (w.returned.map Allocation.idx).Nodup

/-! ## The counters -/

section Counters

variable {n : Nat} {w w' : LaneWorld} {a i ver : Nat}

/-- The current version is filled, and a lane counts it or the one being published. -/
theorem CountersFit.laneVersion_cases (h : CountersFit n w) (i : Nat) :
    w.laneVersion i = w.registry.currentVersion ∨
      entriesAt n (w.laneVersion i) = entriesAt n w.registry.currentVersion * 2 := by
  unfold LaneWorld.laneVersion
  cases hr : w.reset with
  | none => exact Or.inl rfl
  | some r =>
      by_cases hi : i < r.lane
      · refine Or.inr ((congrArg (entriesAt n) (if_pos hi)).trans ?_)
        rw [(h.reset r hr).newVer]
        exact entriesAt_nextVersion n h.epochs.slot
      · exact Or.inl (if_neg hi)

theorem CountersFit.le_filledVersion (h : CountersFit n w) : w.registry.currentVersion ≤ w.filledVersion := by
  unfold LaneWorld.filledVersion
  cases hr : w.reset with
  | none => exact le_refl _
  | some r =>
      simp only
      rw [(h.reset r hr).newVer]
      exact (lt_nextVersion _).le

/-- Threads and records are no part of it. -/
theorem CountersFit.same (h : CountersFit n w) (hserver : w'.server = w.server) (hreset : w'.reset = w.reset) :
    CountersFit n w' := by
  obtain ⟨server, reset, pc, calls, returned⟩ := w'
  subst hserver hreset
  exact ⟨h.epochs, h.recent, h.threads, h.reset, h.lanes⟩

theorem LaneWorld.Taken.same (h : w.Taken n a) (hserver : w'.server = w.server) (hreset : w'.reset = w.reset) :
    w'.Taken n a := by
  obtain ⟨server, reset, pc, calls, returned⟩ := w'
  subst hserver hreset
  exact h

/-- Every lane either goes on with its version or counts one behind the current version's entries: what was taken stays. -/
theorem LaneWorld.Taken.keep (h : w.Taken n a) (hcur : w.registry.currentVersion ≤ w'.registry.currentVersion)
    (hm : w'.registry.lanes.lanes = w.registry.lanes.lanes)
    (hlanes : ∀ i, i < w.registry.lanes.lanes →
      w'.laneVersion i = w.laneVersion i ∧
        w.registry.lanes.laneNextFreeIndex i ≤ w'.registry.lanes.laneNextFreeIndex i ∨
      entriesAt n w.registry.currentVersion * 2 ≤ entriesAt n (w'.laneVersion i)) : w'.Taken n a := by
  refine ⟨h.1.trans_le (Nat.mul_le_mul_right 2 (entriesAt_mono n hcur)), fun i hi hle hmod => ?_⟩
  rw [hm] at hi hmod
  rcases hlanes i hi with ⟨hver, hnext⟩ | hpast
  · rw [hver] at hle hmod
    exact (h.2 i hi hle hmod).trans_le hnext
  · exact absurd h.1 (by omega)

/-- What a call has loaded stays, if the resizes since are counted. -/
theorem AllocPc.Loaded.keep {pc : AllocPc} {call call' : AllocCall} (h : pc.Loaded n w call)
    (hcur : w.registry.currentVersion ≤ w'.registry.currentVersion) (hentries : call'.entries = call.entries)
    (hcount : doublings w'.filledVersion + (call.underWay + call.begun)
      ≤ doublings w.filledVersion + (call'.underWay + call'.begun)) : pc.Loaded n w' call' := by
  cases pc with
  | idle => trivial
  | fetchAdd ver | compare ver idx =>
      obtain ⟨hslot, hle, hloaded, hbound⟩ := h
      exact ⟨hslot, hle.trans hcur, hentries.trans hloaded, by omega⟩

/-- The version a call has loaded still has its slot. -/
theorem CountersFit.limit (h : CountersFit n w) {call : AllocCall} {idx : Nat}
    (hc : (AllocPc.compare ver idx).Loaded n w call) (hfew : call.underWay + call.begun < kMaxEpochSlots - 1) :
    (w.registry.epochOf ver).geometry.numDataEntries = call.entries := by
  obtain ⟨hslot, hle, hentries, hcount⟩ := hc
  have hversion := h.recent ver hslot (hle.trans h.le_filledVersion) (by omega)
  have hfit := h.epochs.entries (ver % kMaxEpochSlots)
  change (w.registry.epochOf ver).version ≠ 0 → (w.registry.epochOf ver).geometry.numDataEntries
    = entriesAt (2 * n) (w.registry.epochOf ver).version at hfit
  rw [hversion, entriesAt_double] at hfit
  rw [hentries]
  exact hfit (by rintro rfl; exact hslot rfl)

/-- A counter that is below the entries of the loaded version counts this version, which is the current one. -/
theorem CountersFit.laneVersion_eq (h : CountersFit n w) (hi : i < w.registry.lanes.lanes)
    (hslot : ver % kMaxEpochSlots ≠ 0) (hle : ver ≤ w.registry.currentVersion)
    (hlt : w.registry.lanes.laneNextFreeIndex i < entriesAt n ver * 2) :
    ver = w.registry.currentVersion ∧ w.laneVersion i = w.registry.currentVersion := by
  obtain ⟨q, hq⟩ := h.lanes i hi
  have hmono := entriesAt_mono n hle
  rcases h.laneVersion_cases i with hver | hpast
  · refine ⟨?_, hver⟩
    rw [hver] at hq
    by_contra hne
    have hpos : 0 < ver := Nat.pos_of_ne_zero (by rintro rfl; exact hslot rfl)
    have hdouble := entriesAt_lt n hpos (lt_of_le_of_ne hle hne) h.epochs.slot
    omega
  · omega

/-- What such a counter gives out is nobody's. -/
theorem CountersFit.fresh (h : CountersFit n w) (hi : i < w.registry.lanes.lanes)
    (hslot : ver % kMaxEpochSlots ≠ 0) (hle : ver ≤ w.registry.currentVersion)
    (hlt : w.registry.lanes.laneNextFreeIndex i < entriesAt n ver * 2) :
    n ≤ w.registry.lanes.laneNextFreeIndex i ∧ ¬ w.Taken n (w.registry.lanes.laneNextFreeIndex i) := by
  obtain ⟨-, hver⟩ := h.laneVersion_eq hi hslot hle hlt
  obtain ⟨q, hq⟩ := h.lanes i hi
  rw [hver] at hq
  have hn := le_entriesAt n w.registry.currentVersion
  refine ⟨by omega, fun htaken => ?_⟩
  have hmod : (w.registry.lanes.laneNextFreeIndex i - entriesAt n (w.laneVersion i)) % w.registry.lanes.lanes = i := by
    rw [hver, hq, Nat.add_assoc, Nat.add_sub_cancel_left, Nat.add_mul_mod_self_right, Nat.mod_eq_of_lt hi]
  exact lt_irrefl _ (htaken.2 i hi (by rw [hver]; omega) hmod)

end Counters

/-! ## A step of an allocation -/

section Advance

variable {n : Nat} {w : LaneWorld} {tid laneId : Nat}

/-- What `fetch_add` leaves of the counters. -/
theorem CountersFit.fetchAdd (h : CountersFit n w) (pc : Nat → AllocPc) : CountersFit n
    { w with
      pc := pc
      server := w.server.withRegistry { w.registry with lanes := (w.registry.lanes.allocRemoteDataSlot laneId 0).2 } } := by
  refine ⟨h.epochs.keeps ⟨rfl, fun _ => rfl, fun _ => rfl, rfl, fun i => ?_⟩, h.recent, h.threads,
    fun r hr => ⟨(h.reset r hr).newVer, (h.reset r hr).oldEntries, (h.reset r hr).filled, (h.reset r hr).le⟩, fun i hi => ?_⟩
  · exact w.registry.lanes.le_allocRemoteDataSlot laneId 0 i
  · obtain ⟨q, hq⟩ := h.lanes i hi
    show ∃ q, Function.update w.registry.lanes.laneNextFreeIndex (laneId % w.registry.lanes.lanes) _ i
      = entriesAt n (w.laneVersion i) + i + q * w.registry.lanes.lanes
    by_cases hlane : i = laneId % w.registry.lanes.lanes
    · refine ⟨q + 1, ?_⟩
      rw [hlane, Function.update_self, ← hlane, hq, Nat.succ_mul]
      omega
    · rw [Function.update_of_ne hlane]
      exact ⟨q, hq⟩

/-- The index that a `fetch_add` below the entries of the loaded version gives out is taken from then on. -/
theorem CountersFit.taken (h : CountersFit n w) {ver : Nat} (pc : Nat → AllocPc) (hslot : ver % kMaxEpochSlots ≠ 0)
    (hle : ver ≤ w.registry.currentVersion)
    (hlt : w.registry.lanes.laneNextFreeIndex (laneId % w.registry.lanes.lanes) < entriesAt n ver * 2) : LaneWorld.Taken n
    { w with
      pc := pc
      server := w.server.withRegistry { w.registry with lanes := (w.registry.lanes.allocRemoteDataSlot laneId 0).2 } }
    (w.registry.lanes.laneNextFreeIndex (laneId % w.registry.lanes.lanes)) := by
  have hlane : laneId % w.registry.lanes.lanes < w.registry.lanes.lanes := Nat.mod_lt _ w.registry.lanes.lanes_pos
  obtain ⟨rfl, hlv⟩ := h.laneVersion_eq hlane hslot hle hlt
  refine ⟨hlt, fun i hi hbase hmod => ?_⟩
  change i < w.registry.lanes.lanes at hi
  change entriesAt n (w.laneVersion i) ≤ _ at hbase
  change (_ - entriesAt n (w.laneVersion i)) % w.registry.lanes.lanes = i at hmod
  -- a lane that has been reset counts behind the index; of the others only this one counts through it
  rcases h.laneVersion_cases i with hcur | hpast
  · have hlane' : laneId % w.registry.lanes.lanes = i := by
      obtain ⟨q, hq⟩ := h.lanes _ hlane
      rw [hlv] at hq
      rw [hcur, hq, Nat.add_assoc, Nat.add_sub_cancel_left, Nat.add_mul_mod_self_right, Nat.mod_eq_of_lt hlane] at hmod
      exact hmod
    show _ < Function.update w.registry.lanes.laneNextFreeIndex (laneId % w.registry.lanes.lanes) _ i
    rw [hlane', Function.update_self, ← hlane']
    exact Nat.lt_add_of_pos_right w.registry.lanes.lanes_pos
  · rw [hpast] at hbase
    exact absurd hlt (Nat.not_lt.mpr hbase)

/-- The call that begins has loaded the current version. -/
theorem LaneInv.begin (h : LaneInv n w) (hpc : w.pc tid = .idle) : LaneInv n (w.advance tid laneId) := by
  rw [LaneWorld.advance_idle hpc]
  have hold : ∀ t a, LaneWorld.Holds { w.setPc tid (.fetchAdd w.registry.currentVersion) with
      calls := Function.update w.calls tid
        ⟨w.registry.currentEpoch.geometry.numDataEntries, if w.reset.isSome then 1 else 0, 0⟩ } t a → w.Holds t a := by
    rintro t a ⟨ver, hver, hlt⟩
    by_cases ht : t = tid
    · subst ht
      exact absurd ((Function.update_self ..).symm.trans hver) (by simp)
    · exact ⟨ver, (Function.update_of_ne ht ..).symm.trans hver,
        hlt.trans_eq (congrArg AllocCall.entries (Function.update_of_ne ht ..))⟩
  refine ⟨h.counters.same rfl rfl, fun t => ?_, fun t a ht => h.held t a (hold t a ht), h.returned,
    fun t t' a ht ht' => h.once t t' a (hold t a ht) (hold t' a ht'), fun t a ht => h.notReturned t a (hold t a ht),
    h.distinct⟩
  by_cases ht : t = tid
  · subst ht
    show AllocPc.Loaded n w (Function.update w.calls t _ t) (Function.update w.pc t _ t)
    rw [Function.update_self, Function.update_self]
    refine ⟨h.counters.epochs.slot, le_refl _, ?_, ?_⟩
    · exact h.counters.epochs.currentEntries.trans (entriesAt_double n _)
    · unfold LaneWorld.filledVersion
      cases hr : w.reset with
      | none => exact Nat.le_add_right _ _
      | some r =>
          simp only
          rw [(h.counters.reset r hr).newVer, doublings_nextVersion h.counters.epochs.slot]
          exact le_refl _
  · show AllocPc.Loaded n w (Function.update w.calls tid _ t) (Function.update w.pc tid _ t)
    rw [Function.update_of_ne ht, Function.update_of_ne ht]
    exact h.calls t

/-- An index is taken from its lane. -/
theorem LaneInv.take (h : LaneInv n w) {ver : Nat} (hpc : w.pc tid = .fetchAdd ver) : LaneInv n (w.advance tid laneId) := by
  have hcall := h.calls tid
  rw [hpc] at hcall
  obtain ⟨hslot, hle, hentries, -⟩ := hcall
  have hlane : laneId % w.registry.lanes.lanes < w.registry.lanes.lanes := Nat.mod_lt _ w.registry.lanes.lanes_pos
  rw [LaneWorld.advance_fetchAdd hpc]
  set idx := w.registry.lanes.laneNextFreeIndex (laneId % w.registry.lanes.lanes) with hidx
  set w' : LaneWorld := { w.setPc tid (.compare ver idx) with
    server := w.server.withRegistry { w.registry with
      lanes := (w.registry.lanes.allocRemoteDataSlot laneId 0).2 } } with hw'
  have hkeep : ∀ a, w.Taken n a → w'.Taken n a := fun a ha => ha.keep (le_refl _) rfl fun i _ =>
    Or.inl ⟨rfl, w.registry.lanes.le_allocRemoteDataSlot laneId 0 i⟩
  -- what the thread holds now, and what the others have held before
  have hself : ∀ a, w'.Holds tid a → a = idx ∧ a < entriesAt n ver * 2 := by
    rintro a ⟨v, hv, hlt⟩
    obtain ⟨-, rfl⟩ := AllocPc.compare.inj ((Function.update_self ..).symm.trans hv)
    exact ⟨rfl, hentries ▸ hlt⟩
  have hother : ∀ t a, t ≠ tid → w'.Holds t a → w.Holds t a :=
    fun t a ht ⟨v, hv, hlt⟩ => ⟨v, (Function.update_of_ne ht ..).symm.trans hv, hlt⟩
  have hfresh := fun hlt => h.counters.fresh hlane hslot hle hlt
  refine ⟨h.counters.fetchAdd _, fun t => ?_, fun t a ht => ?_, fun r hr => ⟨(h.returned r hr).1, hkeep _ (h.returned r hr).2⟩,
    fun t t' a ht ht' => ?_, fun t a ht => ?_, h.distinct⟩
  · by_cases ht : t = tid
    · subst ht
      show AllocPc.Loaded n w (w.calls t) (Function.update w.pc t _ t)
      rw [Function.update_self]
      have hcall := h.calls t
      rwa [hpc] at hcall
    · show AllocPc.Loaded n w (w.calls t) (Function.update w.pc tid _ t)
      rw [Function.update_of_ne ht]
      exact h.calls t
  · by_cases htid : t = tid
    · subst htid
      obtain ⟨rfl, hlt⟩ := hself a ht
      exact ⟨(hfresh hlt).1, h.counters.taken _ hslot hle hlt⟩
    · exact ⟨(h.held t a (hother t a htid ht)).1, hkeep a (h.held t a (hother t a htid ht)).2⟩
  · by_cases htid : t = tid
    · subst htid
      obtain ⟨rfl, hlt⟩ := hself a ht
      by_contra hne
      exact (hfresh hlt).2 (h.held t' _ (hother t' _ (Ne.symm hne) ht')).2
    · by_cases htid' : t' = tid
      · subst htid'
        obtain ⟨rfl, hlt⟩ := hself a ht'
        exact absurd (h.held t _ (hother t _ htid ht)).2 (hfresh hlt).2
      · exact h.once t t' a (hother t a htid ht) (hother t' a htid' ht')
  · by_cases htid : t = tid
    · subst htid
      obtain ⟨rfl, hlt⟩ := hself a ht
      rintro r hr heq
      exact (hfresh hlt).2 (by rw [← hidx, ← heq]; exact (h.returned r hr).2)
    · exact h.notReturned t a (hother t a htid ht)

/-- The comparison: the index is returned or dropped. -/
theorem LaneInv.compare (h : LaneInv n w) {ver idx : Nat} (hpc : w.pc tid = .compare ver idx)
    (hfew : (w.calls tid).underWay + (w.calls tid).begun < kMaxEpochSlots - 1) : LaneInv n (w.advance tid laneId) := by
  have hcall := h.calls tid
  rw [hpc] at hcall
  have hlimit := h.counters.limit hcall hfew
  have hpcs : ∀ t, (Function.update w.pc tid .idle t).Loaded n w (w.calls t) := by
    intro t
    by_cases ht : t = tid
    · rw [ht, Function.update_self]
      trivial
    · rw [Function.update_of_ne ht]
      exact h.calls t
  have hholds : ∀ t a, (∃ v, Function.update w.pc tid .idle t = .compare v a ∧ a < (w.calls t).entries) →
      t ≠ tid ∧ w.Holds t a := by
    rintro t a ⟨v, hv, hlt⟩
    by_cases ht : t = tid
    · rw [ht, Function.update_self] at hv
      cases hv
    · rw [Function.update_of_ne ht] at hv
      exact ⟨ht, v, hv, hlt⟩
  rw [LaneWorld.advance_compare hpc, hlimit]
  split
  · exact ⟨h.counters.same rfl rfl, hpcs, fun t a ht => h.held t a (hholds t a ht).2, h.returned,
      fun t t' a ht ht' => h.once t t' a (hholds t a ht).2 (hholds t' a ht').2,
      fun t a ht => h.notReturned t a (hholds t a ht).2, h.distinct⟩
  · rename_i hlt
    have hhold : w.Holds tid idx := ⟨ver, hpc, Nat.not_le.mp hlt⟩
    have hnew : ∀ r ∈ w.returned ++ [⟨idx, (w.calls tid).entries⟩], r ∈ w.returned ∨ r = ⟨idx, (w.calls tid).entries⟩ := by
      intro r hr
      simpa using hr
    refine ⟨h.counters.same rfl rfl, hpcs, fun t a ht => h.held t a (hholds t a ht).2, fun r hr => ?_,
      fun t t' a ht ht' => h.once t t' a (hholds t a ht).2 (hholds t' a ht').2, fun t a ht r hr => ?_, ?_⟩
    · rcases hnew r hr with hr | rfl
      · exact h.returned r hr
      · exact ⟨⟨(h.held tid idx hhold).1, Nat.not_le.mp hlt⟩, (h.held tid idx hhold).2⟩
    · obtain ⟨hne, hta⟩ := hholds t a ht
      rcases hnew r hr with hr | rfl
      · exact h.notReturned t a hta r hr
      · rintro rfl
        exact hne (h.once t tid _ hta hhold)
    · rw [List.map_append]
      refine List.nodup_append.mpr ⟨h.distinct, List.nodup_singleton _, fun a ha b hb => ?_⟩
      obtain ⟨r, hr, rfl⟩ := List.mem_map.mp ha
      rw [List.map_singleton, List.mem_singleton] at hb
      rw [hb]
      exact h.notReturned tid idx hhold r hr

/-- **A step of an allocation.** -/
theorem LaneInv.advance (h : LaneInv n w) (hfew : FewResizes w (.advance tid laneId)) :
    LaneInv n (w.advance tid laneId) := by
  cases hpc : w.pc tid with
  | idle => exact h.begin hpc
  | fetchAdd ver => exact h.take hpc
  | compare ver idx => exact h.compare hpc (hfew (by rw [hpc]; simp))

end Advance

/-! ## A step of a resize -/

section Copy

variable {n : Nat} {w w' : LaneWorld}

/-- A step that leaves the threads where they are: what they hold and what was returned stays. -/
theorem LaneInv.resize (h : LaneInv n w) (hpc : w'.pc = w.pc) (hreturned : w'.returned = w.returned)
    (hentries : ∀ t, (w'.calls t).entries = (w.calls t).entries) (hcounters : CountersFit n w')
    (hcalls : ∀ tid, (w'.pc tid).Loaded n w' (w'.calls tid)) (hkeep : ∀ a, w.Taken n a → w'.Taken n a) : LaneInv n w' := by
  have hholds : ∀ t a, w'.Holds t a → w.Holds t a := by
    rintro t a ⟨v, hv, hlt⟩
    rw [hpc] at hv
    rw [hentries] at hlt
    exact ⟨v, hv, hlt⟩
  refine ⟨hcounters, hcalls, fun t a ht => ?_, fun r hr => ?_, fun t t' a ht ht' => ?_, fun t a ht r hr => ?_, ?_⟩
  · exact ⟨(h.held t a (hholds t a ht)).1, hkeep a (h.held t a (hholds t a ht)).2⟩
  · rw [hreturned] at hr
    exact ⟨(h.returned r hr).1, hkeep _ (h.returned r hr).2⟩
  · exact h.once t t' a (hholds t a ht) (hholds t' a ht')
  · rw [hreturned] at hr
    exact h.notReturned t a (hholds t a ht) r hr
  · rw [hreturned]
    exact h.distinct

/-- The epoch is filled. -/
theorem LaneInv.fill (h : LaneInv n w) (hr : w.reset = none) : LaneInv n w.copy := by
  have hc := h.counters
  have hcopy : w.copy = { w with
      server := w.server.fillEpoch (w.registry.copyPlan w.registry.currentVersion)
      reset := some ⟨w.registry.copyPlan w.registry.currentVersion, 0⟩
      calls := w.countBegun } := by
    unfold LaneWorld.copy
    rw [hr]
  have hfilled : w.filledVersion = w.registry.currentVersion := by
    unfold LaneWorld.filledVersion
    rw [hr]
  have hversion : ∀ i, w.laneVersion i = w.registry.currentVersion := by
    intro i
    unfold LaneWorld.laneVersion
    rw [hr]
  have hold : (w.registry.copyPlan w.registry.currentVersion).oldDataEntries = entriesAt n w.registry.currentVersion * 2 :=
    hc.epochs.currentEntries.trans (entriesAt_double n _)
  obtain ⟨hnewslot, hne⟩ := nextVersion_slot w.registry.currentVersion
  have hnew : (w.registry.copyPlan w.registry.currentVersion).geometry.numDataEntries
      = entriesAt (2 * n) (nextVersion w.registry.currentVersion) := by
    show (w.registry.copyPlan w.registry.currentVersion).oldDataEntries * 2 = _
    rw [hold, entriesAt_double, entriesAt_nextVersion n hc.epochs.slot]
  have hself : ((w.server.fillEpoch (w.registry.copyPlan w.registry.currentVersion)).registry.epochOf
      (nextVersion w.registry.currentVersion)).version = nextVersion w.registry.currentVersion := by
    show (SharedNumaRegistry.epochOf (SharedNumaRegistry.setEpoch _ _ _) _).version = _
    rw [show (w.registry.copyPlan w.registry.currentVersion).newVer = nextVersion w.registry.currentVersion from rfl,
      SharedNumaRegistry.setEpoch_self]
  rw [hcopy]
  refine h.resize rfl rfl (fun _ => rfl) ⟨?_, fun v hv hle hrecent => ?_, hc.threads, ?_, fun i hi => ?_⟩ (fun tid => ?_)
    (fun a ha => ha.keep (le_refl _) rfl fun i _ => Or.inl ⟨?_, le_refl _⟩)
  · exact hc.epochs.fillEpoch hne.symm hnew
  · -- the new version itself, or one in another slot
    change v ≤ nextVersion w.registry.currentVersion at hle
    change doublings (nextVersion w.registry.currentVersion) < doublings v + (kMaxEpochSlots - 1) at hrecent
    rcases Nat.lt_or_ge v (nextVersion w.registry.currentVersion) with hlt | hge
    · have hvslot := slot_ne_of_recent hv hlt hrecent
      have hmono := doublings_nextVersion hc.epochs.slot
      have hkept : (w.server.fillEpoch (w.registry.copyPlan w.registry.currentVersion)).registry.epochOf v
          = w.registry.epochOf v := SharedNumaRegistry.setEpoch_of_ne _ _ hvslot
      refine (congrArg ResizeEpoch.version hkept).trans (hc.recent v hv ?_ ?_)
      · rw [hfilled]
        exact le_of_lt_nextVersion hv hlt
      · rw [hfilled]
        omega
    · obtain rfl : v = nextVersion w.registry.currentVersion := le_antisymm hle hge
      exact hself
  · rintro r hr'
    cases hr'
    exact ⟨rfl, hold, hself, Nat.zero_le _⟩
  · obtain ⟨q, hq⟩ := hc.lanes i hi
    rw [hversion] at hq
    exact ⟨q, hq⟩
  · refine (h.calls tid).keep (le_refl _) rfl ?_
    show doublings (nextVersion w.registry.currentVersion) + ((w.calls tid).underWay + (w.calls tid).begun)
      ≤ doublings w.filledVersion + ((w.calls tid).underWay + ((w.calls tid).begun + 1))
    rw [doublings_nextVersion hc.epochs.slot, hfilled]
    omega
  · rw [hversion]
    exact if_neg (t := nextVersion w.registry.currentVersion) (Nat.not_lt_zero i)

/-- Lane `r.lane` is stored back. -/
theorem LaneInv.resetOne (h : LaneInv n w) {r : LaneReset} (hr : w.reset = some r) (hlt : r.lane < w.registry.lanes.lanes) :
    LaneInv n { w with server := w.server.resetLane r.plan r.lane, reset := some ⟨r.plan, r.lane + 1⟩ } := by
  have hc := h.counters
  have hfit := hc.reset r hr
  have hpast : entriesAt n r.plan.newVer = entriesAt n w.registry.currentVersion * 2 := by
    rw [hfit.newVer]
    exact entriesAt_nextVersion n hc.epochs.slot
  have hfilled : w.filledVersion = r.plan.newVer := by
    unfold LaneWorld.filledVersion
    rw [hr]
  -- the lane goes over to the new version, the others stay
  have hlanes : ∀ i, (if i < r.lane + 1 then r.plan.newVer else w.registry.currentVersion)
      = if i = r.lane then r.plan.newVer else w.laneVersion i := by
    intro i
    unfold LaneWorld.laneVersion
    rw [hr]
    by_cases hi : i = r.lane
    · rw [if_pos hi, if_pos (by omega)]
    · rw [if_neg hi]
      exact if_congr (by omega) rfl rfl
  refine h.resize rfl rfl (fun _ => rfl) ⟨?_, ?_, hc.threads, ?_, fun i hi => ?_⟩ (fun tid => ?_)
    (fun a ha => ha.keep (le_refl _) rfl fun i _ => ?_)
  · exact ⟨hc.epochs.slot, hc.epochs.current, hc.epochs.entries⟩
  · intro v hv hle hrecent
    exact hc.recent v hv (hle.trans_eq hfilled.symm) (hfilled ▸ hrecent)
  · rintro r' hr'
    cases hr'
    exact ⟨hfit.newVer, hfit.oldEntries, hfit.filled, hlt⟩
  · show ∃ q, Function.update w.registry.lanes.laneNextFreeIndex r.lane (r.plan.oldDataEntries + r.lane) i
      = entriesAt n (if i < r.lane + 1 then r.plan.newVer else w.registry.currentVersion) + i + q * w.registry.lanes.lanes
    rw [hlanes]
    by_cases hi' : i = r.lane
    · rw [hi', Function.update_self, if_pos rfl, hpast, hfit.oldEntries]
      exact ⟨0, by rw [Nat.zero_mul, Nat.add_zero]⟩
    · rw [Function.update_of_ne hi', if_neg hi']
      exact hc.lanes i hi
  · refine (h.calls tid).keep (le_refl _) rfl ?_
    rw [hfilled]
    exact le_refl _
  · show (if i < r.lane + 1 then r.plan.newVer else w.registry.currentVersion) = w.laneVersion i ∧
        w.registry.lanes.laneNextFreeIndex i ≤ Function.update w.registry.lanes.laneNextFreeIndex r.lane _ i ∨
      _ ≤ entriesAt n (if i < r.lane + 1 then r.plan.newVer else w.registry.currentVersion)
    rw [hlanes]
    by_cases hi' : i = r.lane
    · rw [if_pos hi', hpast]
      exact Or.inr (le_refl _)
    · rw [if_neg hi', Function.update_of_ne hi']
      exact Or.inl ⟨rfl, le_refl _⟩

/-- All lanes are stored back, and the version is published. -/
theorem LaneInv.publish (h : LaneInv n w) {r : LaneReset} (hr : w.reset = some r) (hge : w.registry.lanes.lanes ≤ r.lane) :
    LaneInv n { w with server := w.server.publish r.plan, reset := none } := by
  have hc := h.counters
  have hfit := hc.reset r hr
  have hslot : r.plan.newVer % kMaxEpochSlots ≠ 0 := by
    rw [hfit.newVer]
    exact (nextVersion_slot _).1
  have hcur : w.registry.currentVersion ≤ r.plan.newVer := by
    rw [hfit.newVer]
    exact (lt_nextVersion _).le
  have hfilled : w.filledVersion = r.plan.newVer := by
    unfold LaneWorld.filledVersion
    rw [hr]
  have hversion : ∀ i, i < w.registry.lanes.lanes → w.laneVersion i = r.plan.newVer := by
    intro i hi
    unfold LaneWorld.laneVersion
    rw [hr]
    exact if_pos (by omega)
  have hset := KeepsEpochs.setEpoch w.server.registry r.plan.newVer
    { w.server.registry.epochOf r.plan.newVer with published := true } rfl rfl
  refine h.resize rfl rfl (fun _ => rfl) ⟨hc.epochs.publish hslot hfit.filled, ?_, hc.threads, ?_, fun i hi => ?_⟩
    (fun tid => ?_) (fun a ha => ha.keep hcur rfl fun i hi => Or.inl ⟨(hversion i hi).symm, le_refl _⟩)
  · intro v hv hle hrecent
    exact (hset.version _).trans (hc.recent v hv (hle.trans_eq hfilled.symm) (hfilled ▸ hrecent))
  · rintro r' hr'
    cases hr'
  · obtain ⟨q, hq⟩ := hc.lanes i hi
    rw [hversion i hi] at hq
    exact ⟨q, hq⟩
  · refine (h.calls tid).keep hcur rfl ?_
    rw [hfilled]
    exact le_refl _

/-- **A step of a resize.** -/
theorem LaneInv.copy (h : LaneInv n w) : LaneInv n w.copy := by
  cases hr : w.reset with
  | none => exact h.fill hr
  | some r =>
      have hlanes := effectiveLanes_eq h.counters.threads
      unfold LaneWorld.copy
      rw [hr]
      simp only
      split
      · rename_i hlt
        exact h.resetOne hr (hlt.trans_eq hlanes)
      · rename_i hge
        exact h.publish hr (hlanes.symm.trans_le (Nat.not_lt.mp hge))

end Copy

/-! ## Runs -/

/-- The world of a bulk load. -/
theorem laneInv_start {H : HashFn} {cp : ExactLudo} {existKeys : List U64} {memThreads : Nat} {alien : U64 → Bool}
    {regMem : Nat → PackedStruct} {packedStruct : PackedStruct} {st : Store}
    (hset : setupLudoTable H cp existKeys memThreads alien regMem packedStruct = .ok st) (sSlow sStop : Nat) :
    LaneInv existKeys.length (st.server sSlow sStop).laneWorld := by
  obtain ⟨st', hset', -, -, hlanes, -, hel, -⟩ :=
    setupLudoTable_ok H cp existKeys memThreads alien regMem packedStruct
  obtain rfl : st' = st := Except.ok.inj (hset'.symm.trans hset)
  have hput := putInv_start (H := H) hset sSlow sStop (fun _ => st'.lookup) id (fun _ => 0)
  have hep : EpochsFit (2 * existKeys.length) (st'.server sSlow sStop).registry := by
    rw [← hel]
    exact hput.regions.epochs
  refine ⟨⟨hep, fun v hv hle _ => ?_, ?_, fun r hr => (by cases hr), fun i hi => ⟨0, ?_⟩⟩, fun _ => trivial, ?_,
    fun r hr => (by cases hr), ?_, ?_, List.nodup_nil⟩
  · have hle : v ≤ 1 := hle
    obtain rfl : v = 1 := by
      rcases Nat.le_one_iff_eq_zero_or_eq_one.mp hle with rfl | rfl
      · exact absurd rfl hv
      · rfl
    rfl
  · show st'.lanes.memThreads ≤ kMaxNumaLanes
    rw [hlanes]
    exact max_le (by decide) (min_le_right _ _)
  · have hi : i < st'.lanes.lanes := hi
    rw [hlanes, setupLanes_lanes] at hi
    show st'.lanes.laneNextFreeIndex i = entriesAt existKeys.length 1 + i + 0 * st'.lanes.lanes
    rw [hlanes, Nat.zero_mul, Nat.add_zero]
    exact (if_pos hi).trans (congrArg (· + i) (Nat.mul_one _).symm)
  · rintro tid a ⟨v, hv, -⟩
    cases hv
  · rintro tid tid' a ⟨v, hv, -⟩
    cases hv
  · rintro tid a ⟨v, hv, -⟩
    cases hv

/-- **No index is handed out twice.** From any bulk load, for any number of threads on any lanes and any number of
    resizes, at single accesses: as long as fewer than `kMaxEpochSlots - 1` resizes go on beside a call, all indices that
    were returned are different, at least the number of loaded keys, and below `num_data_entries` of the version that their
    call had loaded. -/
theorem lanes_unique {H : HashFn} {cp : ExactLudo} {existKeys : List U64} {memThreads : Nat} {alien : U64 → Bool}
    {regMem : Nat → PackedStruct} {packedStruct : PackedStruct} {st : Store} {sSlow sStop : Nat}
    (hset : setupLudoTable H cp existKeys memThreads alien regMem packedStruct = .ok st) {w : LaneWorld}
    (hrun : Lib.Reaches LaneWorld.step FewResizes (st.server sSlow sStop).laneWorld w) :
    (w.returned.map Allocation.idx).Nodup ∧ ∀ r ∈ w.returned, existKeys.length ≤ r.idx ∧ r.idx < r.entries := by
  have hinv : LaneInv existKeys.length w := by
    refine hrun.invariant (laneInv_start hset sSlow sStop) fun v a v' hv hfew hstep => ?_
    cases a with
    | advance tid laneId =>
        cases hstep
        exact hv.advance hfew
    | copy =>
        cases hstep
        exact hv.copy
  exact ⟨hinv.distinct, fun r hr => (hinv.returned r hr).1⟩

/-- Threads that allocate for the store of key 7. -/
def sevenLaneWorld : LaneWorld := sevenServer.laneWorld

/-- A whole call of thread `tid`. -/
def callAlloc (tid : Nat) : List LaneStep := List.replicate 3 (.advance tid 0)

/-- A call finishes beside a resize, another one behind it, and a third one has come too late for its version. -/
theorem lanes_unique_seven : ∃ w, Lib.Reaches LaneWorld.step FewResizes sevenLaneWorld w ∧
    w.returned = [⟨1, 2⟩, ⟨3, 4⟩] ∧ (w.returned.map Allocation.idx).Nodup ∧
    ∀ r ∈ w.returned, 1 ≤ r.idx ∧ r.idx < r.entries := by
  have hset := rowStore_setup 423 0 [7]
  obtain ⟨w, hrun, hw⟩ : ∃ w, Lib.Reaches LaneWorld.step FewResizes sevenLaneWorld w ∧
      decide (w.returned = [⟨1, 2⟩, ⟨3, 4⟩]) = true := Lib.exists_along
    ([.advance 1 0, .copy] ++ callAlloc 0 ++ [.copy, .advance 1 0, .copy, .advance 1 0] ++ callAlloc 0) (by decide +kernel)
  have hrun' : Lib.Reaches LaneWorld.step FewResizes ((rowStore 423 0 [7]).server 1 1).laneWorld w := hrun
  exact ⟨w, hrun, of_decide_eq_true hw, lanes_unique hset hrun'⟩

/-- Thread 1 begins a call beside a resize and takes index 2, which is behind version 1. The resize stores the lane back,
    and thread 0 is given 2 in version 2. Fourteen resizes later the slot of version 1 holds version 17, and thread 1
    returns 2 as well. -/
theorem lane_returned_twice : ¬ ∀ w, Lib.Reaches LaneWorld.step FewBegin sevenLaneWorld w →
    (w.returned.map Allocation.idx).Nodup ∧ ∀ r ∈ w.returned, 1 ≤ r.idx ∧ r.idx < r.entries := by
  intro h
  obtain ⟨w, hrun, hw⟩ : ∃ w, Lib.Reaches LaneWorld.step FewBegin sevenLaneWorld w ∧
      decide (w.returned.map Allocation.idx = [1, 2, 2]) = true := Lib.exists_along
    (callAlloc 0 ++ [.copy, .advance 1 0, .advance 1 0, .copy, .copy] ++ callAlloc 0 ++
      List.replicate 42 .copy ++ [.advance 1 0]) (by decide +kernel)
  have hnodup := (h w hrun).1
  rw [of_decide_eq_true hw] at hnodup
  exact absurd hnodup (by decide)

end Outback
