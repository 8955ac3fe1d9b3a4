import Outback.Numa.PutAccess

/-!
# `Numa.LaneAccess` — `alloc_remote_data_slot` and the lane reset of `do_copy` at single accesses

An allocation loads `current_version`, advances its lane's counter and compares the old value with `num_data_entries` of
the epoch slot it holds a reference to. `do_copy` fills the next epoch, stores one lane counter after the other and then
`current_version`. Between any two of these accesses other threads run. `do_copy` may be called at any time: the
thresholds, the copied region and the later states of the resize do not touch what an allocation reads.

`returned` and `calls` are no state of the program. They record the indices handed out so far, and of each call
`num_data_entries` of the version it loaded and the resizes that have gone on beside it.
-/

namespace Outback

/-- What a thread does next. -/
inductive AllocPc where
  /-- it is in no call -/
  | idle
  /-- `lane_next_free_index[lane].fetch_add(lanes)`; `ep` is the epoch slot of `ver` -/
  | fetchAdd (ver : Nat)
  /-- compare `idx` with `ep.num_data_entries` -/
  | compare (ver idx : Nat)
  deriving DecidableEq, Repr

/-- A call of `alloc_remote_data_slot`. -/
structure AllocCall where
  /-- `num_data_entries` of the version that was loaded -/
  entries : Nat
  /-- the `do_copy` under way when the call began, if any, counts as one -/
  underWay : Nat
  /-- those that have begun since -/
  begun : Nat
  deriving DecidableEq, Repr

/-- An index that was handed out, and what it had to be below. -/
structure Allocation where
  idx : Nat
  entries : Nat
  deriving DecidableEq, Repr

/-- A `do_copy` behind the fill of its epoch: the lanes below `lane` have been reset. -/
structure LaneReset where
  plan : CopyPlan
  lane : Nat

structure LaneWorld where
  server : Server
  reset : Option LaneReset
  pc : Nat → AllocPc
  calls : Nat → AllocCall
  returned : List Allocation

namespace Server

/-- `reg_->lane_next_free_index[i] = old_ep.num_data_entries + i`. -/
def resetLane (s : Server) (plan : CopyPlan) (i : Nat) : Server :=
  s.withRegistry { s.registry with
    lanes := { s.registry.lanes with
      laneNextFreeIndex := Function.update s.registry.lanes.laneNextFreeIndex i (plan.oldDataEntries + i) } }

/-- The lanes below `n`, one after the other. -/
theorem resetLane_foldl (s : Server) (plan : CopyPlan) (n : Nat) :
    (List.range n).foldl (fun s i => s.resetLane plan i) s
      = s.withRegistry { s.registry with
          lanes := { s.registry.lanes with
            laneNextFreeIndex := fun i =>
              if i < n then plan.oldDataEntries + i else s.registry.lanes.laneNextFreeIndex i } } := by
  induction n with
  | zero => rfl
  | succ n ih =>
      rw [List.range_succ, List.foldl_append, ih]
      simp only [List.foldl_cons, List.foldl_nil, resetLane, withRegistry, registry, Shared.withRegistry]
      congr 4
      funext i
      by_cases hi : i = n
      · subst hi
        rw [Function.update_self, if_pos (Nat.lt_succ_self i)]
      · rw [Function.update_of_ne hi]
        exact if_congr (by omega) rfl rfl

/-- Without anyone in between, the single stores are the loop of `do_copy`. -/
theorem resetLane_all (s : Server) (plan : CopyPlan) :
    (List.range s.effectiveLanes).foldl (fun s i => s.resetLane plan i) s = s.resetLanes plan :=
  resetLane_foldl s plan s.effectiveLanes

end Server

namespace LaneWorld

def registry (w : LaneWorld) : SharedNumaRegistry := w.server.registry

/-- The world after thread `tid` went on to `pc`. -/
def setPc (w : LaneWorld) (tid : Nat) (pc : AllocPc) : LaneWorld := { w with pc := Function.update w.pc tid pc }

/-- The next access of thread `tid`, with `remote_lane_id` at `laneId`; a thread in no call begins one. -/
def advance (w : LaneWorld) (tid laneId : Nat) : LaneWorld :=
  match w.pc tid with
  | .idle =>
      let call : AllocCall :=
        ⟨w.registry.currentEpoch.geometry.numDataEntries, if w.reset.isSome then 1 else 0, 0⟩
      { w.setPc tid (.fetchAdd w.registry.currentVersion) with calls := Function.update w.calls tid call }
  | .fetchAdd ver =>
      let l := w.registry.lanes
      let lane := laneId % l.lanes
      let idx := l.laneNextFreeIndex lane
      { w.setPc tid (.compare ver idx) with
        server := w.server.withRegistry { w.registry with
          lanes := { l with laneNextFreeIndex := Function.update l.laneNextFreeIndex lane (idx + l.lanes) } } }
  | .compare ver idx =>
      if idx ≥ (w.registry.epochOf ver).geometry.numDataEntries then w.setPc tid .idle
      else { w.setPc tid .idle with returned := w.returned ++ [⟨idx, (w.calls tid).entries⟩] }

/-- One more resize beside every call under way. -/
def countBegun (w : LaneWorld) : Nat → AllocCall := fun tid => { w.calls tid with begun := (w.calls tid).begun + 1 }

/-- The next store of `do_copy`. -/
def copy (w : LaneWorld) : LaneWorld :=
  match w.reset with
  | none =>
      let plan := w.registry.copyPlan w.registry.currentVersion
      { w with server := w.server.fillEpoch plan, reset := some ⟨plan, 0⟩, calls := w.countBegun }
  | some r =>
      if r.lane < w.server.effectiveLanes then
        { w with server := w.server.resetLane r.plan r.lane, reset := some ⟨r.plan, r.lane + 1⟩ }
      else { w with server := w.server.publish r.plan, reset := none }

end LaneWorld

inductive LaneStep where
  | advance (tid laneId : Nat)
  | copy

def LaneWorld.step (w : LaneWorld) : LaneStep → Exec LaneWorld
  | .advance tid laneId => .ok (w.advance tid laneId)
  | .copy => .ok w.copy

/-- A server and threads in no call. -/
def Server.laneWorld (s : Server) : LaneWorld := ⟨s, none, fun _ => .idle, fun _ => ⟨0, 0, 0⟩, []⟩

namespace LaneWorld

variable {w : LaneWorld} {tid laneId ver idx : Nat}

/-- A call begins. -/
theorem advance_idle (h : w.pc tid = .idle) : w.advance tid laneId
    = { w.setPc tid (.fetchAdd w.registry.currentVersion) with
        calls := Function.update w.calls tid
          ⟨w.registry.currentEpoch.geometry.numDataEntries, if w.reset.isSome then 1 else 0, 0⟩ } := by
  unfold advance
  rw [h]

/-- The counter of the lane, whatever the epoch. -/
theorem advance_fetchAdd (h : w.pc tid = .fetchAdd ver) : w.advance tid laneId
    = { w.setPc tid (.compare ver (w.registry.lanes.laneNextFreeIndex (laneId % w.registry.lanes.lanes))) with
        server := w.server.withRegistry { w.registry with
          lanes := (w.registry.lanes.allocRemoteDataSlot laneId 0).2 } } := by
  unfold advance
  rw [h]
  rfl

theorem advance_compare (h : w.pc tid = .compare ver idx) : w.advance tid laneId
    = if idx ≥ (w.registry.epochOf ver).geometry.numDataEntries then w.setPc tid .idle
      else { w.setPc tid .idle with returned := w.returned ++ [⟨idx, (w.calls tid).entries⟩] } := by
  unfold advance
  rw [h]

/-- The accesses of a call made without a break are `alloc_remote_data_slot`. -/
theorem advance_three (hidle : w.pc tid = .idle) :
    let r := w.registry.lanes.allocRemoteDataSlot laneId w.registry.currentEpoch.geometry.numDataEntries
    let w' := ((w.advance tid laneId).advance tid laneId).advance tid laneId
    w'.registry.lanes = r.2 ∧ w'.returned.map Allocation.idx = w.returned.map Allocation.idx ++ r.1.toList := by
  have hadd : (w.advance tid laneId).pc tid = .fetchAdd w.registry.currentVersion := by
    rw [advance_idle hidle]
    exact Function.update_self ..
  have hcompare : ((w.advance tid laneId).advance tid laneId).pc tid = .compare w.registry.currentVersion
      (w.registry.lanes.laneNextFreeIndex (laneId % w.registry.lanes.lanes)) := by
    rw [advance_fetchAdd hadd, advance_idle hidle]
    exact Function.update_self ..
  have hkept : ((w.advance tid laneId).advance tid laneId).registry.lanes = (w.registry.lanes.allocRemoteDataSlot laneId 0).2 ∧
      ((w.advance tid laneId).advance tid laneId).registry.epochOf w.registry.currentVersion = w.registry.currentEpoch ∧
      ((w.advance tid laneId).advance tid laneId).returned = w.returned := by
    rw [advance_fetchAdd hadd, advance_idle hidle]
    exact ⟨rfl, rfl, rfl⟩
  obtain ⟨hlanes, hepoch, hreturned⟩ := hkept
  dsimp only
  rw [advance_compare hcompare, hepoch]
  by_cases hfull : w.registry.lanes.laneNextFreeIndex (laneId % w.registry.lanes.lanes)
      ≥ w.registry.currentEpoch.geometry.numDataEntries
  · have hnone : (w.registry.lanes.allocRemoteDataSlot laneId w.registry.currentEpoch.geometry.numDataEntries).1 = none :=
      if_pos hfull
    rw [if_pos hfull, hnone]
    exact ⟨hlanes, (congrArg _ hreturned).trans (List.append_nil _).symm⟩
  · have hsome : (w.registry.lanes.allocRemoteDataSlot laneId w.registry.currentEpoch.geometry.numDataEntries).1
        = some (w.registry.lanes.laneNextFreeIndex (laneId % w.registry.lanes.lanes)) := if_neg hfull
    rw [if_neg hfull, hsome, hreturned]
    exact ⟨hlanes, List.map_append⟩

end LaneWorld

end Outback
