import Outback.Numa.Interleaving
import Outback.Numa.PutAccess
import Outback.Numa.Correctness.ClientSteps

/-!
# `Numa.Correctness.Accesses` — the accesses of a call

The calls of a client thread at the granularity of `Numa.Interleaving` and those of `Numa.Client` are the same when
nobody runs in between: **`runCall_connect`** for `connect_to_numa_server` and **`runCall_check`** for
`maybe_check_version` with its remap. **`runPut_checked`** is the same for the accesses of `Numa.PutAccess` and
`numa_put`. `operate_keeps` says what a data operation leaves alone.
-/

namespace Outback

/-- A data operation writes the lanes and a region; the thread and the rest of the registry are as before. -/
theorem operate_keeps {H : HashFn} {c c' : ClientView} {op : ClientOp} (hok : c.operate H op = .ok c') :
    c'.region = c.region ∧ ∃ l, c'.shared.registry = { c.shared.registry with lanes := l } := by
  rcases operate_inv hok with rfl | ⟨w, numaOp, st, -, -, -, rfl⟩
  · exact ⟨rfl, _, rfl⟩
  · exact ⟨rfl, _, rfl⟩

/-! ## One access -/

/-- **The inversion of an access**: what it writes into the registry, and whether the thread counts its client next. -/
theorem ClientView.advance_cases (c : ClientView) (tid : Nat) (env : OpEnv) (pc : ClientPc) :
    ((c.advance tid env pc).1.shared.registry = c.shared.registry ∧ (∀ ver, pc ≠ .countClient ver) ∧
      (∀ ver, pc ≠ .acknowledge ver) ∧ ∀ ver, (c.advance tid env pc).2 ≠ .countClient ver) ∨
    (∃ ver i, pc = .claimSlot ver ∧ c.shared.registry.freeClientSlot = some i ∧
      (c.advance tid env pc).1.shared.registry = { c.shared.registry with
        clients := Function.update c.shared.registry.clients i { c.shared.registry.clients i with active := true } } ∧
      (c.advance tid env pc).1.region.clientSlot = some i ∧ (c.advance tid env pc).2 = .countClient ver) ∨
    (∃ ver, pc = .countClient ver ∧ (c.advance tid env pc).2 = .openRegion .connect ver ∧
      (c.advance tid env pc).1.shared.registry
        = { c.shared.registry with registeredClients := c.shared.registry.registeredClients + 1 }) ∨
    (∃ ver, pc = .acknowledge ver ∧ (c.advance tid env pc).2 = .heartbeat ∧
      (c.advance tid env pc).1.shared.registry = c.shared.registry.acknowledge ver) ∨
    (pc = .heartbeat ∧ (c.advance tid env pc).2 = .idle ∧
      (c.advance tid env pc).1.shared.registry = c.shared.registry.heartbeat c.region.clientSlot env.now) := by
  cases pc with
  | idle => left; simp [ClientView.advance]
  | checkReady =>
      left
      simp only [ClientView.advance]
      split <;> simp [ClientView.unmapRegistry]
  | loadVersion call =>
      left
      cases call with
      | connect => simp [ClientView.advance]
      | remap =>
          simp only [ClientView.advance]
          split <;> simp
  | loadPublished call ver =>
      left
      cases call with
      | connect =>
          simp only [ClientView.advance]
          split <;> simp [ClientView.unmapRegistry]
      | remap =>
          simp only [ClientView.advance]
          split <;> simp [unmapOld_shared]
  | claimSlot ver =>
      cases hfree : c.shared.registry.freeClientSlot with
      | none =>
          left
          simp [ClientView.advance, hfree]
      | some i =>
          right; left
          refine ⟨ver, i, rfl, rfl, ?_⟩
          simp only [ClientView.advance, hfree]
          exact ⟨rfl, trivial, trivial⟩
  | countClient ver => exact Or.inr (Or.inr (Or.inl ⟨ver, rfl, rfl, rfl⟩))
  | openRegion call ver =>
      left
      cases call <;> simp only [ClientView.advance] <;> split <;>
        simp [ClientView.unmapRegistry, ClientView.buildWrappers, Shared.newPackedData, Shared.setRegion]
  | loadGeneration call ver =>
      left
      cases call <;> simp [ClientView.advance, ClientView.takeGeneration]
  | acknowledge ver => exact Or.inr (Or.inr (Or.inr (Or.inl ⟨ver, rfl, rfl, rfl⟩)))
  | heartbeat => exact Or.inr (Or.inr (Or.inr (Or.inr ⟨rfl, rfl, rfl⟩)))
  | checkVersion gen =>
      left
      simp only [ClientView.advance]
      split <;> simp

/-- An access moves neither `current_version` nor `generation`. -/
theorem advance_words (c : ClientView) (tid : Nat) (env : OpEnv) (pc : ClientPc) :
    (c.advance tid env pc).1.shared.registry.currentVersion = c.shared.registry.currentVersion ∧
    (c.advance tid env pc).1.shared.registry.generation = c.shared.registry.generation := by
  rcases c.advance_cases tid env pc with ⟨hreg, -⟩ | ⟨ver, i, -, -, hreg, -⟩ | ⟨ver, -, -, hreg⟩ | ⟨ver, -, -, hreg⟩ |
    ⟨-, -, hreg⟩
  · exact ⟨by rw [hreg], by rw [hreg]⟩
  · exact ⟨by rw [hreg], by rw [hreg]⟩
  · exact ⟨by rw [hreg], by rw [hreg]⟩
  · rw [hreg]
    exact ⟨rfl, rfl⟩
  · have hsame := SharedNumaRegistry.sameData_heartbeat c.shared.registry c.region.clientSlot env.now
    rw [hreg]
    exact ⟨hsame.currentVersion, hsame.generation⟩

theorem startConnect_keeps (c : ClientView) (env : OpEnv) :
    (c.startConnect env).1.shared = c.shared ∧ (c.startConnect env).1.region = c.region ∧
    ((c.startConnect env).2 = .idle ∨ (c.startConnect env).2 = .checkReady) := by
  unfold ClientView.startConnect
  split
  · exact ⟨rfl, rfl, Or.inl rfl⟩
  · exact ⟨rfl, rfl, Or.inr rfl⟩

theorem startCheck_keeps (c : ClientView) :
    c.startCheck.1.shared = c.shared ∧ c.startCheck.1.region = c.region ∧
    (c.startCheck.2 = .idle ∨ c.startCheck.2 = .checkVersion c.shared.registry.generation) := by
  unfold ClientView.startCheck
  split
  · exact ⟨rfl, rfl, Or.inl rfl⟩
  · split
    · exact ⟨rfl, rfl, Or.inl rfl⟩
    · exact ⟨rfl, rfl, Or.inr rfl⟩

/-! ## One step of the world -/

/-- **The inversion of a step**: what the world can look like afterwards. -/
theorem FineWorld.step_cases {H : HashFn} {w w' : FineWorld} {a : FineStep} (hok : w.step H a = .ok w') :
    w' = w ∨
    (∃ inp, a = .tick inp ∧ w.prog = [] ∧ w' = { w with prog := w.server.tickStores inp }) ∨
    (∃ st prog s, a = .store ∧ w.prog = st :: prog ∧ w.server.exec H st = .ok s ∧ w' = w.stored st prog s) ∨
    (∃ tid c pc, (w.threads tid).pc = .idle ∧ c.shared = w.server.shared ∧ c.region = (w.threads tid).region ∧
      (pc = .idle ∨ pc = .checkReady ∨ pc = .checkVersion w.registry.generation) ∧ w' = w.putView tid c pc) ∨
    (∃ tid env, a = .advance tid env ∧ w' = w.advance tid env) ∨
    (∃ tid op c, a = .operate tid op ∧ (w.threads tid).pc = .idle ∧ (w.view tid).operate H op = .ok c ∧
      w' = w.putView tid c .idle) := by
  cases a with
  | tick inp =>
      cases hok
      split
      · rename_i hprog
        exact Or.inr (Or.inl ⟨inp, rfl, List.isEmpty_iff.mp hprog, rfl⟩)
      · exact Or.inl rfl
  | store =>
      change w.store H = .ok w' at hok
      unfold FineWorld.store at hok
      split at hok
      · cases hok
        exact Or.inl rfl
      · rename_i st prog hprog
        obtain ⟨s, hs, hok⟩ := Lib.bind_eq_ok.mp hok
        cases hok
        exact Or.inr (Or.inr (Or.inl ⟨st, prog, s, rfl, hprog, hs, rfl⟩))
  | connect tid env =>
      simp only [FineWorld.step] at hok
      split at hok
      · rename_i hidle
        cases hok
        obtain ⟨hsh, hregion, hpc⟩ := startConnect_keeps (w.view tid) env
        exact Or.inr (Or.inr (Or.inr (Or.inl ⟨tid, _, _, hidle, hsh, hregion, hpc.imp_right Or.inl, rfl⟩)))
      · cases hok
        exact Or.inl rfl
  | check tid =>
      simp only [FineWorld.step] at hok
      split at hok
      · rename_i hidle
        cases hok
        obtain ⟨hsh, hregion, hpc⟩ := startCheck_keeps (w.view tid)
        exact Or.inr (Or.inr (Or.inr (Or.inl ⟨tid, _, _, hidle, hsh, hregion, hpc.imp_right Or.inr, rfl⟩)))
      · cases hok
        exact Or.inl rfl
  | advance tid env =>
      cases hok
      exact Or.inr (Or.inr (Or.inr (Or.inr (Or.inl ⟨tid, env, rfl, rfl⟩))))
  | operate tid op =>
      simp only [FineWorld.step] at hok
      split at hok
      · rename_i hidle
        obtain ⟨c, hc, hok⟩ := Lib.bind_eq_ok.mp hok
        cases hok
        exact Or.inr (Or.inr (Or.inr (Or.inr (Or.inr ⟨tid, op, c, rfl, hidle, hc, rfl⟩))))
      · cases hok
        exact Or.inl rfl

/-! ## The accesses of a call -/

/-- The accesses of a call made without a break. -/
def ClientView.runCall (tid : Nat) (env : OpEnv) : Nat → ClientView × ClientPc → ClientView × ClientPc
  | 0, r => r
  | n + 1, r => runCall tid env n (r.1.advance tid env r.2)

section Calls

variable (c : ClientView) (tid : Nat) (env : OpEnv)

theorem runCall_idle (n : Nat) : ClientView.runCall tid env n (c, .idle) = (c, .idle) := by
  induction n with
  | zero => rfl
  | succ n ih => exact ih

/-- The end of a connect: the region is opened, attached to, and the globals are set. -/
theorem runCall_openConnect (ver n : Nat) :
    ClientView.runCall tid env (n + 4) (c, .openRegion .connect ver)
      = if c.shared.openRegion ver env.opensRegion = false then (c.unmapRegistry, .idle)
        else ({ c.attach ver env with process := { c.process with
          remote := some ⟨.ofEpoch ver (c.shared.registry.epochOf ver).geometry, tid, true⟩ } }, .idle) := by
  rw [ClientView.runCall]
  simp only [ClientView.advance]
  split
  · exact runCall_idle _ tid env _
  · exact runCall_idle _ tid env n

theorem runCall_openRemap (ver n : Nat) :
    ClientView.runCall tid env (n + 4) (c, .openRegion .remap ver)
      = (if c.shared.openRegion ver env.opensRegion = false then c else c.attach ver env, .idle) := by
  rw [ClientView.runCall]
  simp only [ClientView.advance]
  split
  · exact runCall_idle _ tid env _
  · exact runCall_idle _ tid env n

/-! ## Connecting -/

/-- The view after the registration loop of a connect. -/
def ClientView.register (c : ClientView) : ClientView :=
  { c with
    shared := c.shared.withRegistry c.shared.registry.registerClient
    region := { c.region with clientSlot := c.shared.registry.freeClientSlot.or c.region.clientSlot } }

/-- The two accesses of a registration. -/
theorem runCall_claimSlot (ver n : Nat) : ClientView.runCall tid env (n + 6) (c, .claimSlot ver)
    = ClientView.runCall tid env (n + 4) (c.register, .openRegion .connect ver) := by
  rw [ClientView.runCall]
  simp only [ClientView.advance]
  unfold ClientView.register SharedNumaRegistry.registerClient
  cases hslot : c.shared.registry.freeClientSlot with
  | none =>
      show ClientView.runCall tid env (n + 1 + 4) (c, .openRegion .connect ver) = _
      rw [runCall_openConnect, runCall_openConnect]
      rfl
  | some i => rfl

/-! ## The check of every operation -/

/-- A connect from its look at the registry on. -/
theorem runCall_checkReady (n : Nat) : ClientView.runCall tid env (n + 9) (c, .checkReady)
    = if ¬ c.shared.RegistryReady then (c.unmapRegistry, .idle)
      else ClientView.runCall tid env (n + 4) (c.register, .openRegion .connect c.shared.registry.currentVersion) := by
  rw [ClientView.runCall]
  simp only [ClientView.advance]
  by_cases hready : c.shared.registry.magic = kNumaMetaMagic ∧ c.shared.registry.ready = true
  · rw [if_pos hready]
    change ClientView.runCall tid env (n + 6) (c.advance tid env (.loadPublished .connect _)) = _
    simp only [ClientView.advance]
    by_cases hpub : (c.shared.registry.epochOf c.shared.registry.currentVersion).published = false
    · have hnot : ¬ c.shared.RegistryReady := fun h => by
        rw [Shared.RegistryReady, SharedNumaRegistry.currentEpoch, hpub] at h
        exact absurd h.2.2 Bool.false_ne_true
      rw [if_pos hpub, if_pos hnot]
      exact runCall_idle _ tid env _
    · have hyes : c.shared.RegistryReady := ⟨hready.1, hready.2, Bool.eq_true_of_not_eq_false hpub⟩
      rw [if_neg hpub, if_neg (not_not.mpr hyes)]
      exact runCall_claimSlot c tid env _ n
  · have hnot : ¬ c.shared.RegistryReady := fun h => hready ⟨h.1, h.2.1⟩
    rw [if_neg hready, if_pos hnot]
    exact runCall_idle _ tid env _

/-! ## The whole calls -/

/-- The connect in one piece. -/
theorem connect_eq : (c.connectToNumaServer tid env).2 =
    if env.opensRegistry = false then c
    else if ¬ c.shared.RegistryReady then c.unmapRegistry
    else if c.register.shared.openRegion c.shared.registry.currentVersion env.opensRegion = false then
      c.register.unmapRegistry
    else { c.register.attach c.shared.registry.currentVersion env with
      process := { c.process with
        registryMapped := true
        remote := some ⟨.ofEpoch c.shared.registry.currentVersion
          (c.register.shared.registry.epochOf c.shared.registry.currentVersion).geometry, tid, true⟩ } } := by
  unfold ClientView.connectToNumaServer
  split
  · rfl
  · split
    · rfl
    · simp only
      split
      · rename_i ho
        exact (if_pos ho).symm
      · rename_i ho
        exact (if_neg ho).symm

/-- **The accesses of `connect_to_numa_server`, made without a break, are the connect.** -/
theorem runCall_connect :
    ClientView.runCall tid env 9 (c.startConnect env) = ((c.connectToNumaServer tid env).2, .idle) := by
  rw [connect_eq]
  unfold ClientView.startConnect
  by_cases hreg : env.opensRegistry = false
  · rw [if_pos hreg, if_pos hreg]
    exact runCall_idle c tid env 9
  · rw [if_neg hreg, if_neg hreg]
    refine (runCall_checkReady _ tid env 0).trans ?_
    by_cases hready : c.shared.RegistryReady
    · rw [if_neg (not_not.mpr hready), if_neg (not_not.mpr hready)]
      refine (runCall_openConnect _ tid env _ 0).trans ?_
      by_cases ho : c.register.shared.openRegion c.shared.registry.currentVersion env.opensRegion = false
      · rw [if_pos ho]
        exact if_pos ho
      · rw [if_neg ho]
        exact if_neg ho
    · rw [if_pos hready, if_pos hready]
      rfl

/-- **The accesses of `maybe_check_version`, made without a break, are the version check.** -/
theorem runCall_check :
    ClientView.runCall tid env 7 c.startCheck = (c.maybeCheckVersion tid env, .idle) := by
  unfold ClientView.startCheck ClientView.maybeCheckVersion
  simp only
  by_cases hm : c.process.registryMapped = false
  · rw [if_pos hm, if_pos hm]
    exact runCall_idle c tid env 7
  · rw [if_neg hm, if_neg hm]
    by_cases hgen : c.shared.registry.generation = c.region.localGeneration
    · rw [if_pos hgen, if_pos hgen]
      exact runCall_idle c tid env 7
    · rw [if_neg hgen, if_neg hgen, ClientView.runCall]
      simp only [ClientView.advance]
      by_cases hver : c.shared.registry.currentVersion ≠ c.region.localVersion
      · rw [if_pos hver, if_pos hver, ClientView.runCall]
        simp only [ClientView.advance]
        rw [if_neg hm]
        change ClientView.runCall tid env 4 (c.advance tid env (.loadPublished .remap _)) = _
        simp only [ClientView.advance]
        unfold ClientView.remapToCurrentEpoch
        simp only
        rw [if_neg hm]
        by_cases hpub : (c.shared.registry.epochOf c.shared.registry.currentVersion).published = false
        · have hpub' : c.shared.registry.currentEpoch.published = false := hpub
          rw [if_pos hpub, if_pos hpub']
          exact runCall_idle _ tid env _
        · have hpub' : ¬ c.shared.registry.currentEpoch.published = false := hpub
          rw [if_neg hpub, if_neg hpub', runCall_openRemap]
          split <;> rfl
      · rw [if_neg hver, if_neg hver]
        rfl

end Calls

/-! ## A put -/

section Puts

variable {H : HashFn} (c : ClientView) (w : Wrappers)

/-- An operation that writes neither array leaves the lanes. -/
theorem commit_lanes (l : Lanes) : c.commit w { c.store w with lanes := l } = { c with
    shared := c.shared.withRegistry { c.shared.registry with
      lanes := if c.process.registryMapped then l else c.shared.registry.lanes } } := by
  have hregions : (c.shared.setRegion w.ver ⟨(c.store w).packed.rawArray, (c.store w).buckets.bucketsArray⟩).regions
      = c.shared.regions := Function.update_eq_self _ _
  unfold ClientView.commit Shared.withRegistry
  simp only [hregions]
  rfl

theorem commit_store : c.commit w (c.store w) = c := by
  refine (commit_lanes c w (c.store w).lanes).trans ?_
  rw [show (c.store w).lanes = c.shared.registry.lanes from rfl, ite_self]
  rfl

/-- Two writes through the same wrappers. -/
theorem commit_commit (hm : c.process.registryMapped = true) (st st' : Store) :
    (c.commit w st).commit w st' = c.commit w st' := by
  have hregions : ∀ r r' : Region, ((c.shared.setRegion w.ver r).setRegion w.ver r').regions
      = (c.shared.setRegion w.ver r').regions := fun r r' => Function.update_idem _ _ _
  unfold ClientView.commit Shared.withRegistry
  simp only [hm, if_true]
  exact congrArg (fun regions => (⟨⟨_, regions, _⟩, _, _⟩ : ClientView)) (hregions _ _)

theorem runPut_idle (n : Nat) : ClientView.runPut H n (c, .idle) = .ok (c, .idle) := by
  induction n with
  | zero => rfl
  | succ n ih => exact ih

/-- What an operation wrote is what the next one sees. -/
theorem store_commit (hm : c.process.registryMapped = true) (st : Store) : (c.commit w st).store w =
    { lookup := st.lookup
      buckets := ⟨st.buckets.bucketsArray, w.numBuckets⟩
      packed := ⟨st.packed.rawArray, 0, w.numDataEntries⟩
      lanes := st.lanes
      numDataEntries := (c.store w).numDataEntries } := by
  have hregion : ((c.commit w st).shared.regions w.ver) = ⟨st.packed.rawArray, st.buckets.bucketsArray⟩ :=
    Function.update_self _ _ _
  unfold ClientView.store
  rw [hregion]
  simp only [ClientView.commit, Shared.withRegistry, hm, if_true]
  rfl

/-! ## The accesses of an inserting put -/

/-- The two writes of an inserting put. -/
theorem runPut_write (hm : c.process.registryMapped = true) (t : PutTarget) (idx : Nat) :
    ClientView.runPut H 2 (c, .writeEntry t idx) = (do
      let pd ← (c.store t.wrappers).packed.updateData idx t.key 8 t.val
      return (c.commit t.wrappers { c.store t.wrappers with
        packed := pd
        buckets := (c.store t.wrappers).buckets.writeAddr H t.key t.row t.slot (BitVec.ofNat 64 idx) }, PutPc.idle)) := by
  rw [ClientView.runPut]
  simp only [ClientView.advancePut]
  cases hpd : (c.store t.wrappers).packed.updateData idx t.key 8 t.val with
  | error e => rfl
  | ok pd =>
      obtain ⟨-, rfl⟩ := PackedData.updateData_eq_ok hpd
      show Except.ok _ = Except.ok _
      rw [store_commit _ _ hm, commit_commit _ _ hm]
      rfl

/-- The body of an inserting case, by whether the lane's index is in range. -/
theorem insertAt_eq (st : Store) (laneId : Nat) (key val : U64) (row : Nat) (slot : Slot) :
    st.insertAt H laneId key val row slot =
      if st.lanes.laneNextFreeIndex (laneId % st.lanes.lanes) ≥ st.numDataEntries then .ok (st.takeIndex laneId)
      else do
        let pd ← st.packed.updateData (st.lanes.laneNextFreeIndex (laneId % st.lanes.lanes)) key 8 val
        return { st.takeIndex laneId with
          packed := pd
          buckets := st.buckets.writeAddr H key row slot
            (BitVec.ofNat 64 (st.lanes.laneNextFreeIndex (laneId % st.lanes.lanes))) } := by
  unfold Store.insertAt Store.takeIndex Lanes.allocRemoteDataSlot
  simp only
  by_cases h : st.lanes.laneNextFreeIndex (laneId % st.lanes.lanes) ≥ st.numDataEntries
  · rw [if_pos h, if_pos h]
  · rw [if_neg h, if_neg h]

/-- The inserting part of a put, from `alloc_remote_data_slot` on. -/
theorem runPut_insert (t : PutTarget) : ClientView.runPut H 5 (c, .loadVersion t)
    = ((c.store t.wrappers).insertAt H c.region.remoteLaneId t.key t.val t.row t.slot).map
        (fun st => (c.commit t.wrappers st, .idle)) := by
  rw [insertAt_eq]
  have hlanes := commit_lanes c t.wrappers ((c.store t.wrappers).takeIndex c.region.remoteLaneId).lanes
  by_cases hm : c.process.registryMapped = false
  · -- without a registry no index is found, and no counter is written
    have hzero : (c.store t.wrappers).numDataEntries = 0 := by simp [ClientView.store, hm]
    rw [if_neg (by rw [hm]; exact Bool.false_ne_true)] at hlanes
    rw [hzero, if_pos (Nat.zero_le _), ClientView.runPut]
    simp only [ClientView.advancePut]
    rw [if_pos hm, Exec.ok_bind, runPut_idle]
    exact congrArg (fun c => Except.ok (c, PutPc.idle)) hlanes.symm
  · have hmapped : c.process.registryMapped = true := Bool.eq_true_of_not_eq_false hm
    have hentries : (c.store t.wrappers).numDataEntries
        = (c.shared.registry.epochOf c.shared.registry.currentVersion).geometry.numDataEntries := if_pos hmapped
    -- the view behind the `fetch_add`
    rw [if_pos hmapped] at hlanes
    have hrun : ClientView.runPut H 5 (c, .loadVersion t) = ClientView.runPut H 3
        (c.commit t.wrappers ((c.store t.wrappers).takeIndex c.region.remoteLaneId),
          .compare t c.shared.registry.currentVersion
            (c.shared.registry.lanes.laneNextFreeIndex (c.region.remoteLaneId % c.shared.registry.lanes.lanes))) := by
      rw [ClientView.runPut]
      simp only [ClientView.advancePut]
      rw [if_neg hm, Exec.ok_bind, ClientView.runPut]
      simp only [ClientView.advancePut]
      rw [if_neg hm, Exec.ok_bind]
      exact congrArg (fun c' => ClientView.runPut H 3 (c', _)) hlanes.symm
    rw [hrun, hentries, ClientView.runPut]
    simp only [ClientView.advancePut]
    rw [show (c.commit t.wrappers ((c.store t.wrappers).takeIndex c.region.remoteLaneId)).shared.registry.epochOf
      c.shared.registry.currentVersion = c.shared.registry.epochOf c.shared.registry.currentVersion from rfl,
      show (c.store t.wrappers).lanes = c.shared.registry.lanes from rfl]
    by_cases hge : c.shared.registry.lanes.laneNextFreeIndex (c.region.remoteLaneId % c.shared.registry.lanes.lanes)
        ≥ (c.shared.registry.epochOf c.shared.registry.currentVersion).geometry.numDataEntries
    · rw [if_pos hge, if_pos hge, Exec.ok_bind, runPut_idle]
      rfl
    · rw [if_neg hge, if_neg hge, Exec.ok_bind]
      refine (runPut_write (c.commit t.wrappers ((c.store t.wrappers).takeIndex c.region.remoteLaneId)) hmapped t
        _).trans ?_
      rw [store_commit _ _ hmapped]
      simp only [commit_commit _ _ hmapped]
      change ((c.store t.wrappers).packed.updateData _ t.key 8 t.val >>= _) = _
      cases (c.store t.wrappers).packed.updateData _ t.key 8 t.val <;> rfl

/-- A put that has found an empty slot goes on as `numa_put` does. -/
theorem runPut_found {key val : U64} {s : Slot} (hput : (c.store w).numaPut H c.region.remoteLaneId key val
      = (c.store w).insertAt H c.region.remoteLaneId key val ((c.store w).lookup.row H key) s) :
    ClientView.runPut H 5 (c, .loadVersion ⟨w, key, val, (c.store w).lookup.row H key, s⟩)
      = ((c.store w).numaPut H c.region.remoteLaneId key val >>= fun st => Except.ok (c.commit w st)).map
          (fun c => (c, PutPc.idle)) := by
  rw [hput, runPut_insert]
  cases (c.store w).insertAt H c.region.remoteLaneId key val ((c.store w).lookup.row H key) s <;> rfl

/-! ## The whole put -/

/-- The put behind the selection of its wrappers and of its lock. -/
theorem runPut_selected {key val : U64} (hsel : c.selectWrappers = .ok (some w)) (hlock : c.selectLock = .ok true) :
    ClientView.runPut H 6 (c, .checked key val)
      = ((c.store w).numaPut H c.region.remoteLaneId key val >>= fun st => Except.ok (c.commit w st)).map
          (fun c => (c, PutPc.idle)) := by
  rw [ClientView.runPut]
  simp only [ClientView.advancePut]
  unfold ClientView.lookAtSlots
  simp only [hsel, hlock, Exec.ok_bind, if_true]
  cases hb : (c.store w).buckets.row ((c.store w).lookup.row H key) with
  | error e =>
      unfold Store.numaPut
      simp only [hb]
      rfl
  | ok b =>
      simp only [Exec.ok_bind]
      cases hstatus : b.checkSlots H key ((c.store w).lookup.slot H key) with
      | good =>
          refine runPut_found c w ?_
          unfold Store.numaPut
          simp only [hb, Exec.ok_bind, hstatus]
      | emptyExists =>
          cases hfind : (List.finRange 4).find? (fun s => b.checkSlots H key s = .good) with
          | none =>
              have hput : (c.store w).numaPut H c.region.remoteLaneId key val = .ok (c.store w) := by
                unfold Store.numaPut
                simp only [hb, Exec.ok_bind, hstatus, hfind]
                rfl
              rw [hput]
              exact congrArg (fun c => Except.ok (c, PutPc.idle)) (commit_store c w).symm
          | some s =>
              refine runPut_found c w ?_
              unfold Store.numaPut
              simp only [hb, Exec.ok_bind, hstatus, hfind]
      | maybeUpdate | full =>
          cases (c.store w).numaPut H c.region.remoteLaneId key val <;> rfl

/-- **The accesses of a put, made without a break, are the put.** -/
theorem runPut_checked (laneId : Nat) (key val : U64) : ClientView.runPut H 6 (c, .checked key val)
    = (c.operate H (.write (.put laneId key val))).map (fun c => (c, .idle)) := by
  cases hsel : c.selectWrappers with
  | error e =>
      simp only [ClientView.runPut, ClientView.advancePut, ClientView.lookAtSlots, ClientView.operate, hsel]
      rfl
  | ok o =>
      cases o with
      | none =>
          simp only [ClientView.runPut, ClientView.advancePut, ClientView.lookAtSlots, ClientView.operate, hsel]
          rfl
      | some w =>
          cases hlock : c.selectLock with
          | error e =>
              simp only [ClientView.runPut, ClientView.advancePut, ClientView.lookAtSlots, ClientView.operate, hsel, hlock]
              rfl
          | ok locked =>
              cases locked with
              | false =>
                  simp only [ClientView.runPut, ClientView.advancePut, ClientView.lookAtSlots, ClientView.operate, hsel,
                    hlock]
                  rfl
              | true =>
                  rw [runPut_selected c w hsel hlock]
                  unfold ClientView.operate
                  simp only [hsel, hlock]
                  rfl

end Puts

end Outback
