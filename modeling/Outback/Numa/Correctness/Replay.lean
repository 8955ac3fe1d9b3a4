import Outback.Numa.Resize
import Outback.Lib.Scatter

/-!
# `Numa.Correctness.Replay` — the order in which deferred mutations are replayed

`defer_insert` and `defer_delete` append to two queues; `drain_old` empties the queue of inserts and then the queue of
deletes (`drainOld_replays`). So a delete is replayed after every insert, also after those that were deferred behind it.

**`replay_order_iff`**: on a map from keys to values the replay has the effect of the mutations in the order of their
arrival exactly when no deleted key is inserted again, that is when every key with a delete has a delete as its last
mutation. A delete followed by an insert of the same key is the shortest sequence without it (`replay_order_reversed`).
-/

namespace Outback

/-- A structural mutation that a handler defers. -/
inductive Mutation where
  | insert (key val : U64)
  | delete (key : U64)
  deriving DecidableEq

namespace Mutation

/-- What it writes to a map. -/
def write : Mutation → U64 × Option U64
  | .insert key val => (key, some val)
  | .delete key => (key, none)

/-- The map after the mutations, taken in order. -/
def applyAll (m : U64 → Option U64) (ms : List Mutation) : U64 → Option U64 := Lib.scatter m (ms.map write)

/-- The key and the value of an insert. -/
def insert? : Mutation → Option (U64 × U64)
  | .insert key val => some (key, val)
  | .delete _ => none

/-- The key of a delete. -/
def delete? : Mutation → Option U64
  | .insert _ _ => none
  | .delete key => some key

end Mutation

namespace Server

/-- `g_defer_insert_fn` or `g_defer_delete_fn`. -/
def defer (s : Server) : Mutation → Bool × Server
  | .insert key val => s.deferInsert key val
  | .delete key => s.deferDelete key

/-- The server after the mutations were deferred one after the other. -/
def deferAll (s : Server) (ms : List Mutation) : Server := ms.foldl (fun s m => (s.defer m).2) s

/-- The queued mutations in the order in which `drain_old` takes them. -/
def replayOrder (s : Server) : List Mutation :=
  s.deferredInserts.map (fun p => .insert p.1 p.2) ++ s.deferredDeletes.map .delete

/-- `replay_insert` or `replay_delete`. -/
def replay (H : HashFn) (s : Server) : Mutation → Exec Server
  | .insert key val => s.replayInsert H key val
  | .delete key => s.replayDelete H key

def withQueues (s : Server) (inserts : List (U64 × U64)) (deletes : List U64) : Server :=
  { s with deferredInserts := inserts, deferredDeletes := deletes }

/-- `drain_old` behind its two loops. -/
def finishDrain (s : Server) (inp : TickInput) : Server :=
  let s := if s.pendingOldVer > 0 then
      s.withRegistry (s.registry.setEpoch s.pendingOldVer
        { s.registry.epochOf s.pendingOldVer with cleanupAllowed := true })
    else s
  { s with gcStartTime := inp.nowMs 0 }.setState .gcPending

end Server

/-! ## What `drain_old` does with the queues -/

section Drain

variable {H : HashFn} {s : Server}

/-- A replay neither reads nor writes the queues. -/
theorem replay_withQueues (inserts : List (U64 × U64)) (deletes : List U64) (m : Mutation) :
    (s.withQueues inserts deletes).replay H m = (s.replay H m).map (·.withQueues inserts deletes) := by
  cases m with
  | insert key val =>
      unfold Server.replay Server.replayInsert
      cases hw : s.newWrappers with
      | none =>
          rw [show (s.withQueues inserts deletes).newWrappers = none from hw]
          rfl
      | some w =>
          simp only [Server.withQueues, hw]
          cases Server.replayPut H s.lookup ⟨(s.shared.regions w.ver).buckets, w.numBuckets⟩
            ⟨(s.shared.regions w.ver).packed, w.num, w.numDataEntries⟩ key val <;> rfl
  | delete key =>
      unfold Server.replay Server.replayDelete
      cases hw : s.newWrappers with
      | none =>
          rw [show (s.withQueues inserts deletes).newWrappers = none from hw]
          rfl
      | some w =>
          simp only [Server.withQueues, hw]
          cases Server.replayRemove H s.lookup ⟨(s.shared.regions w.ver).buckets, w.numBuckets⟩
            ⟨(s.shared.regions w.ver).packed, w.num, w.numDataEntries⟩ key <;> rfl

theorem replayAll_withQueues (inserts : List (U64 × U64)) (deletes : List U64) (ms : List Mutation) :
    ms.foldlM (Server.replay H) (s.withQueues inserts deletes)
      = (ms.foldlM (Server.replay H) s).map (·.withQueues inserts deletes) := by
  induction ms generalizing s with
  | nil => rfl
  | cons m ms ih =>
      rw [List.foldlM_cons, List.foldlM_cons, replay_withQueues]
      cases s.replay H m with
      | error e => rfl
      | ok t => exact ih

/-- The queues are as they were. -/
theorem replayAll_queues {t : Server} {ms : List Mutation} (h : ms.foldlM (Server.replay H) s = .ok t) :
    t.deferredInserts = s.deferredInserts ∧ t.deferredDeletes = s.deferredDeletes := by
  have hEq := replayAll_withQueues (H := H) (s := s) s.deferredInserts s.deferredDeletes ms
  rw [show s.withQueues s.deferredInserts s.deferredDeletes = s from rfl, h] at hEq
  have ht := Except.ok.inj hEq
  rw [ht]
  exact ⟨rfl, rfl⟩

theorem replayInserts_eq (l : List (U64 × U64)) :
    s.replayInserts H l = ((l.map fun p => Mutation.insert p.1 p.2).foldlM (Server.replay H) s).map
      (fun t => t.withQueues [] t.deferredDeletes) := by
  induction l generalizing s with
  | nil => rfl
  | cons p l ih =>
      obtain ⟨key, val⟩ := p
      rw [List.map_cons, List.foldlM_cons]
      unfold Server.replayInserts Server.replay
      simp only
      cases s.replayInsert H key val with
      | error e => rfl
      | ok t => exact ih

theorem replayDeletes_eq (l : List U64) :
    s.replayDeletes H l = ((l.map Mutation.delete).foldlM (Server.replay H) s).map
      (fun t => t.withQueues t.deferredInserts []) := by
  induction l generalizing s with
  | nil => rfl
  | cons key l ih =>
      rw [List.map_cons, List.foldlM_cons]
      unfold Server.replayDeletes Server.replay
      simp only
      cases s.replayDelete H key with
      | error e => rfl
      | ok t => exact ih

/-- **The replay order.** Once the writers of the old region are gone, `drain_old` replays the queued mutations in
    `replayOrder` and leaves both queues empty. -/
theorem drainOld_replays (inp : TickInput)
    (hw : ¬ (s.pendingOldVer > 0 ∧ (s.registry.epochOf s.pendingOldVer).activeWriters > 0)) :
    s.drainOld H inp = (s.replayOrder.foldlM (Server.replay H) s).map (fun t => (t.withQueues [] []).finishDrain inp) := by
  unfold Server.drainOld Server.replayOrder
  rw [if_neg hw, List.foldlM_append, replayInserts_eq]
  cases hins : (s.deferredInserts.map fun p => Mutation.insert p.1 p.2).foldlM (Server.replay H) s with
  | error e => rfl
  | ok t =>
      have hq := (replayAll_queues hins).2
      show (Server.replayDeletes H t.deferredDeletes (t.withQueues [] t.deferredDeletes) >>= _) = _
      rw [replayDeletes_eq, replayAll_withQueues, hq]
      show _ = ((s.deferredDeletes.map Mutation.delete).foldlM (Server.replay H) t).map _
      cases (s.deferredDeletes.map Mutation.delete).foldlM (Server.replay H) t <;> rfl

end Drain

/-! ## The queues after a sequence of mutations -/

section Queues

variable {s : Server} {ms : List Mutation}

/-- Below the depth limit every mutation is queued, each behind those of its own kind. -/
theorem deferAll_queues (hins : s.deferredInserts.length + (ms.filterMap Mutation.insert?).length ≤ kMaxDeferredDepth)
    (hdel : s.deferredDeletes.length + (ms.filterMap Mutation.delete?).length ≤ kMaxDeferredDepth) :
    (s.deferAll ms).deferredInserts = s.deferredInserts ++ ms.filterMap Mutation.insert? ∧
    (s.deferAll ms).deferredDeletes = s.deferredDeletes ++ ms.filterMap Mutation.delete? := by
  induction ms generalizing s with
  | nil => exact ⟨(List.append_nil _).symm, (List.append_nil _).symm⟩
  | cons m ms ih =>
      show ((s.defer m).2.deferAll ms).deferredInserts = _ ∧ ((s.defer m).2.deferAll ms).deferredDeletes = _
      cases m with
      | insert key val =>
          simp only [List.filterMap_cons, Mutation.insert?, Mutation.delete?, List.length_cons] at hins hdel ⊢
          have hroom : ¬ s.deferredInserts.length ≥ kMaxDeferredDepth := by omega
          have hdefer : (s.defer (.insert key val)).2
              = s.withQueues (s.deferredInserts ++ [(key, val)]) s.deferredDeletes := by
            simp only [Server.defer, Server.deferInsert, if_neg hroom]
            rfl
          rw [hdefer]
          have hlen : (s.deferredInserts ++ [(key, val)]).length = s.deferredInserts.length + 1 := by simp
          obtain ⟨hi, hd⟩ := ih (s := s.withQueues (s.deferredInserts ++ [(key, val)]) s.deferredDeletes)
            (by simp only [Server.withQueues, hlen]; omega) (by simpa only [Server.withQueues] using hdel)
          exact ⟨by rw [hi]; simp [Server.withQueues], hd⟩
      | delete key =>
          simp only [List.filterMap_cons, Mutation.insert?, Mutation.delete?, List.length_cons] at hins hdel ⊢
          have hroom : ¬ s.deferredDeletes.length ≥ kMaxDeferredDepth := by omega
          have hdefer : (s.defer (.delete key)).2
              = s.withQueues s.deferredInserts (s.deferredDeletes ++ [key]) := by
            simp only [Server.defer, Server.deferDelete, if_neg hroom]
            rfl
          rw [hdefer]
          have hlen : (s.deferredDeletes ++ [key]).length = s.deferredDeletes.length + 1 := by simp
          obtain ⟨hi, hd⟩ := ih (s := s.withQueues s.deferredInserts (s.deferredDeletes ++ [key]))
            (by simpa only [Server.withQueues] using hins) (by simp only [Server.withQueues, hlen]; omega)
          exact ⟨hi, by rw [hd]; simp [Server.withQueues]⟩

/-- The inserts in order of arrival, then the deletes in order of arrival. -/
theorem deferAll_replayOrder (hi₀ : s.deferredInserts = []) (hd₀ : s.deferredDeletes = [])
    (hins : (ms.filterMap Mutation.insert?).length ≤ kMaxDeferredDepth)
    (hdel : (ms.filterMap Mutation.delete?).length ≤ kMaxDeferredDepth) :
    (s.deferAll ms).replayOrder
      = ms.filter (fun m => m.insert?.isSome) ++ ms.filter (fun m => m.delete?.isSome) := by
  have hins' : s.deferredInserts.length + (ms.filterMap Mutation.insert?).length ≤ kMaxDeferredDepth := by
    rw [hi₀]
    simpa using hins
  have hdel' : s.deferredDeletes.length + (ms.filterMap Mutation.delete?).length ≤ kMaxDeferredDepth := by
    rw [hd₀]
    simpa using hdel
  obtain ⟨hi, hd⟩ := deferAll_queues hins' hdel'
  have hinserts : ∀ ms : List Mutation, (ms.filterMap Mutation.insert?).map (fun p => Mutation.insert p.1 p.2)
      = ms.filter (fun m => m.insert?.isSome) := by
    intro ms
    induction ms with
    | nil => rfl
    | cons m ms ih => cases m <;> simp [Mutation.insert?, List.filterMap_cons, ih]
  have hdeletes : ∀ ms : List Mutation, (ms.filterMap Mutation.delete?).map Mutation.delete
      = ms.filter (fun m => m.delete?.isSome) := by
    intro ms
    induction ms with
    | nil => rfl
    | cons m ms ih => cases m <;> simp [Mutation.delete?, List.filterMap_cons, ih]
  unfold Server.replayOrder
  rw [hi, hd, hi₀, hd₀, List.nil_append, List.nil_append, hinserts, hdeletes]

end Queues

/-! ## The effect on a map -/

/-- Every key that is deleted at all has a delete as its last mutation. -/
def DeletedLast (ms : List Mutation) : Prop :=
  ∀ key, .delete key ∈ ms → Lib.lastWrite key (ms.map Mutation.write) = some none

section Effect

variable {ms : List Mutation} {key : U64}

/-- Among the deletes the last word on a key is that it is gone, if it is deleted at all. -/
theorem lastWrite_deletes : Lib.lastWrite key ((ms.filter (fun m => m.delete?.isSome)).map Mutation.write)
    = if .delete key ∈ ms then some none else none := by
  split
  · rename_i hmem
    cases hlast : Lib.lastWrite key ((ms.filter (fun m => m.delete?.isSome)).map Mutation.write) with
    | none =>
        have hin : Mutation.delete key ∈ ms.filter (fun m => m.delete?.isSome) := List.mem_filter.mpr ⟨hmem, rfl⟩
        exact absurd rfl (Lib.lastWrite_eq_none.mp hlast _ (List.mem_map_of_mem hin))
    | some v =>
        obtain ⟨m, hm, hwrite⟩ := List.mem_map.mp (Lib.mem_of_lastWrite hlast)
        cases m with
        | insert key' val => exact absurd (List.mem_filter.mp hm).2 (by simp [Mutation.delete?])
        | delete key' => rw [← (Prod.mk.inj hwrite).2]
  · rename_i hmem
    refine Lib.lastWrite_eq_none.mpr ?_
    intro p hp hkey
    obtain ⟨m, hm, rfl⟩ := List.mem_map.mp hp
    obtain ⟨hm, hdel⟩ := List.mem_filter.mp hm
    cases m with
    | insert key' val => exact absurd hdel (by simp [Mutation.delete?])
    | delete key' =>
        obtain rfl : key' = key := hkey
        exact hmem hm

/-- For a key that is never deleted the inserts are all there is. -/
theorem lastWrite_inserts (hmem : .delete key ∉ ms) :
    Lib.lastWrite key ((ms.filter (fun m => m.insert?.isSome)).map Mutation.write)
      = Lib.lastWrite key (ms.map Mutation.write) := by
  have hfilter : (ms.filter (fun m => m.insert?.isSome)).filter ((fun p => decide (p.1 = key)) ∘ Mutation.write)
      = ms.filter ((fun p => decide (p.1 = key)) ∘ Mutation.write) := by
    rw [List.filter_filter]
    refine List.filter_congr ?_
    intro m hm
    cases m with
    | insert key' val => simp [Mutation.insert?]
    | delete key' =>
        have hne : key' ≠ key := by
          rintro rfl
          exact hmem hm
        simp [Mutation.write, hne]
  unfold Lib.lastWrite
  rw [List.filter_map, List.filter_map, hfilter]

/-- What the inserts and then the deletes leave of a key. -/
theorem applyAll_split (m : U64 → Option U64) (key : U64) :
    Mutation.applyAll m (ms.filter (fun m => m.insert?.isSome) ++ ms.filter (fun m => m.delete?.isSome)) key
      = if .delete key ∈ ms then none else Mutation.applyAll m ms key := by
  unfold Mutation.applyAll
  rw [Lib.scatter_eq_last, Lib.scatter_eq_last, List.map_append, Lib.lastWrite_append, lastWrite_deletes]
  split
  · rfl
  · rename_i hmem
    rw [lastWrite_inserts hmem]
    rfl

end Effect

/-- **Replay and arrival order.** For every sequence of mutations within the depth of the queues, deferred from empty
    queues: the replay has the same effect on every map as the mutations in the order of their arrival if and only if
    every key that is deleted at all has a delete as its last mutation. -/
theorem replay_order_iff {s : Server} {ms : List Mutation} (hi₀ : s.deferredInserts = []) (hd₀ : s.deferredDeletes = [])
    (hins : (ms.filterMap Mutation.insert?).length ≤ kMaxDeferredDepth)
    (hdel : (ms.filterMap Mutation.delete?).length ≤ kMaxDeferredDepth) :
    (∀ m, Mutation.applyAll m (s.deferAll ms).replayOrder = Mutation.applyAll m ms) ↔ DeletedLast ms := by
  rw [deferAll_replayOrder hi₀ hd₀ hins hdel]
  constructor
  · intro h key hmem
    have hkey := congrFun (h fun _ => none) key
    rw [applyAll_split, if_pos hmem, Mutation.applyAll, Lib.scatter_eq_last] at hkey
    cases hlast : Lib.lastWrite key (ms.map Mutation.write) with
    | none => exact absurd rfl (Lib.lastWrite_eq_none.mp hlast _ (List.mem_map_of_mem hmem))
    | some v =>
        rw [hlast] at hkey
        exact congrArg some hkey.symm
  · intro h m
    funext key
    rw [applyAll_split]
    split
    · rename_i hmem
      rw [Mutation.applyAll, Lib.scatter_eq_last, h key hmem]
      rfl
    · rfl

/-- An insert and then a delete of the same key. -/
theorem replay_order_insert_delete : DeletedLast [.insert 9 5, .delete 9] ∧
    ∀ m, Mutation.applyAll m (sevenServer.deferAll [.insert 9 5, .delete 9]).replayOrder
      = Mutation.applyAll m [.insert 9 5, .delete 9] := by
  have hlast : DeletedLast [.insert 9 5, .delete 9] := by
    intro key hmem
    simp only [List.mem_cons, reduceCtorEq, false_or, Mutation.delete.injEq, List.not_mem_nil, or_false] at hmem
    subst hmem
    rfl
  exact ⟨hlast, (replay_order_iff rfl rfl (by decide) (by decide)).mpr hlast⟩

/-- A delete and then an insert of the same key: the replay removes what was inserted. -/
theorem replay_order_reversed : ∃ m,
    (sevenServer.deferAll [.delete 7, .insert 7 5]).replayOrder = [.insert 7 5, .delete 7] ∧
    Mutation.applyAll m (sevenServer.deferAll [.delete 7, .insert 7 5]).replayOrder 7 = none ∧
    Mutation.applyAll m [.delete 7, .insert 7 5] 7 = some 5 :=
  ⟨fun _ => none, rfl, rfl, rfl⟩

end Outback
