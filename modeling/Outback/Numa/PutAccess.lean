import Outback.Numa.World

/-!
# `Numa.PutAccess` — `numa_put` at single accesses, with `alloc_remote_data_slot` in the middle

`numa_put` as the sequence of what an inserting put does to shared memory: the version check, the look at the slots, the
load of `current_version` in `alloc_remote_data_slot`, its `fetch_add` on a lane, the comparison with the epoch, the
packed entry and the slot word. A thread inside the call is at a `PutPc`, which carries what it has selected and loaded;
`ClientView.advancePut` makes its next access. Between any two accesses other threads run, and the orchestrator goes on
with `do_copy`. A put that finds nothing to insert is over with its look at the slots.

The row's lock byte orders the puts of one row and is left out, and so is the deletion of wrappers that another thread of
the process has handed out: a put goes on with the wrappers it has selected. Both only add interleavings.
-/

namespace Outback

/-- What an inserting put has chosen: its wrappers, and the empty slot of the row. -/
structure PutTarget where
  wrappers : Wrappers
  key : U64
  val : U64
  row : Nat
  slot : Slot
  deriving DecidableEq, Repr

/-- What a thread does next. -/
inductive PutPc where
  /-- it is in no put -/
  | idle
  /-- `maybe_check_version` is over: select the wrappers and look at the slots -/
  | checked (key val : U64)
  /-- `current_epoch`: load `current_version` -/
  | loadVersion (t : PutTarget)
  /-- `lane_next_free_index[lane].fetch_add(lanes)`; the epoch in hand is that of `ver` -/
  | fetchAdd (t : PutTarget) (ver : Nat)
  /-- compare `idx` with the epoch's `num_data_entries` -/
  | compare (t : PutTarget) (ver idx : Nat)
  /-- `pd->update_data(idx, ...)` -/
  | writeEntry (t : PutTarget) (idx : Nat)
  /-- `lbs->write_addr(..., idx)` -/
  | writeSlot (t : PutTarget) (idx : Nat)
  deriving DecidableEq, Repr

namespace ClientView

/-- The put behind its version check, up to the call of `alloc_remote_data_slot`. -/
def lookAtSlots (H : HashFn) (c : ClientView) (key val : U64) : Exec (ClientView × PutPc) := do
  match ← c.selectWrappers with
  | none => return (c, .idle)
  | some w =>
      if ← c.selectLock then
        let st := c.store w
        let row := st.lookup.row H key
        let b ← st.buckets.row row
        let slot := st.lookup.slot H key
        match b.checkSlots H key slot with
        | .good => return (c, .loadVersion ⟨w, key, val, row, slot⟩)
        | .emptyExists =>
            match (List.finRange 4).find? (fun s => b.checkSlots H key s = .good) with
            | some s => return (c, .loadVersion ⟨w, key, val, row, s⟩)
            | none => return (c, .idle)
        -- nothing is allocated: the rest of the put
        | .maybeUpdate | .full =>
            let st ← st.numaPut H c.region.remoteLaneId key val
            return (c.commit w st, .idle)
      else return (c, .idle)

/-- The next access of a put. -/
def advancePut (H : HashFn) (c : ClientView) : PutPc → Exec (ClientView × PutPc)
  | .idle => .ok (c, .idle)
  | .checked key val => c.lookAtSlots H key val
  -- without a registry there is no index
  | .loadVersion t =>
      if c.process.registryMapped = false then .ok (c, .idle)
      else .ok (c, .fetchAdd t c.shared.registry.currentVersion)
  | .fetchAdd t ver =>
      if c.process.registryMapped = false then .error .danglingPointer
      else
        let l := c.shared.registry.lanes
        let lane := c.region.remoteLaneId % l.lanes
        let idx := l.laneNextFreeIndex lane
        .ok ({ c with shared := c.shared.withRegistry { c.shared.registry with
          lanes := { l with laneNextFreeIndex := Function.update l.laneNextFreeIndex lane (idx + l.lanes) } } },
          .compare t ver idx)
  | .compare t ver idx =>
      if idx ≥ (c.shared.registry.epochOf ver).geometry.numDataEntries then .ok (c, .idle)
      else .ok (c, .writeEntry t idx)
  | .writeEntry t idx => do
      let st := c.store t.wrappers
      let pd ← st.packed.updateData idx t.key 8 t.val
      return (c.commit t.wrappers { st with packed := pd }, .writeSlot t idx)
  | .writeSlot t idx =>
      let st := c.store t.wrappers
      .ok (c.commit t.wrappers { st with
        buckets := st.buckets.writeAddr H t.key t.row t.slot (BitVec.ofNat 64 idx) }, .idle)

/-- The accesses of a put made without a break. -/
def runPut (H : HashFn) : Nat → ClientView × PutPc → Exec (ClientView × PutPc)
  | 0, r => .ok r
  | n + 1, r => do runPut H n (← r.1.advancePut H r.2)

end ClientView

/-! ## The world -/

/-- Clients, the orchestrator and the puts under way. -/
structure PutWorld where
  world : World
  pc : Nat → PutPc

namespace PutWorld

def registry (w : PutWorld) : SharedNumaRegistry := w.world.server.registry

/-- The world after thread `tid` left its view as `c` and goes on at `pc`. -/
def putView (w : PutWorld) (tid : Nat) (c : ClientView) (pc : PutPc) : PutWorld where
  world := w.world.putView tid c
  pc := Function.update w.pc tid pc

end PutWorld

/-- The thread that takes a step. -/
def WorldStep.caller : WorldStep → Option Nat
  | .connect tid _ => some tid
  | .client tid _ _ => some tid
  | .orchestrator _ => none

inductive PutStep where
  /-- a step of the coarser world: of it, a put does its version check -/
  | world (a : WorldStep)
  /-- the put of a thread goes on -/
  | advance (tid : Nat)

/-- One step. A call is made by a thread that is in no put. -/
def PutWorld.step (H : HashFn) (w : PutWorld) : PutStep → Exec PutWorld
  | .world (.client tid env (.write (.put _ key val))) =>
      if w.pc tid = .idle then
        .ok (w.putView tid ((w.world.view tid).maybeCheckVersion tid env) (.checked key val))
      else .ok w
  | .world a =>
      if a.caller.all (fun tid => w.pc tid = .idle) then do
        return { w with world := ← w.world.step H a }
      else .ok w
  | .advance tid => do
      let r ← (w.world.view tid).advancePut H (w.pc tid)
      return w.putView tid r.1 r.2

/-- A server with processes and threads that have not connected yet. -/
def Server.putWorld (s : Server) (lookup : Nat → DataPlaneLudo) (proc lane : Nat → Nat) : PutWorld :=
  ⟨s.world lookup proc lane, fun _ => .idle⟩

end Outback
