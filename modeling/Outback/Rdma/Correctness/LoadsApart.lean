import Outback.Rdma.LoadAccess

/-!
# `Rdma.Correctness.LoadsApart` — when concurrent `bulk_load_data` calls do not clash

**`loads_apart`**: the calls return different indices, each the counter's value and inside the array, and every entry holds
what its call was given, in every run in which no call reads its first index while another one is between its first index
and its increment. `loads_clash` are two calls that do: both fill entry 0, and one of them returns entry 1.

The invariant is that of a critical section the code does not have: at most one thread is inside (`one`), and the entry at
the counter holds the fields it has stored so far (`LoadPc.Loads`).
-/

namespace Outback

/-- A call between its first index and its increment. -/
def LoadPc.writing : LoadPc → Bool
  | .idle | .checkBound | .readIndex .key => false
  | .readIndex .data | .readIndex .dataLength | .storeField _ _ | .increment => true

section

variable {threads : Nat}

/-- A call reads its first index with room in the array, while no other one is writing; and the counter it increments still
    fits into the 32 bits that are returned. -/
def OneWriter (w : LoadWorld threads) : LoadStep threads → Prop
  | .call _ _ => True
  | .advance tid =>
      (w.pc tid = .readIndex .key → w.packed.num < w.packed.numElements ∧ ∀ t, (w.pc t).writing = false) ∧
        (w.pc tid = .increment → w.packed.num < 2 ^ 32)

instance (w : LoadWorld threads) (a : LoadStep threads) : Decidable (OneWriter w a) := by
  cases a <;> unfold OneWriter <;> infer_instance

/-- The calls so far have not clashed. -/
structure LoadsApart (w : LoadWorld threads) : Prop where
  distinct : (w.returned.map Load.addr).Nodup
  index : ∀ r ∈ w.returned, r.addr.toNat < w.packed.numElements ∧ r.addr.toNat = r.num
  entry : (∀ t, w.pc t = .idle) → ∀ r ∈ w.returned, w.packed.rawArray r.addr.toNat = r.entry

/-- The entry at the counter has room and holds the fields that are behind the thread. -/
def LoadPc.Loads (pd : PackedData) (arg : PackedStruct) : LoadPc → Prop
  | .idle | .checkBound | .readIndex .key => True
  | .storeField .key i => i = pd.num ∧ pd.num < pd.numElements
  | .readIndex .data => pd.num < pd.numElements ∧ (pd.rawArray pd.num).key = arg.key
  | .storeField .data i => i = pd.num ∧ pd.num < pd.numElements ∧ (pd.rawArray pd.num).key = arg.key
  | .readIndex .dataLength => pd.num < pd.numElements ∧ (pd.rawArray pd.num).key = arg.key ∧
      (pd.rawArray pd.num).data = arg.data
  | .storeField .dataLength i => i = pd.num ∧ pd.num < pd.numElements ∧ (pd.rawArray pd.num).key = arg.key ∧
      (pd.rawArray pd.num).data = arg.data
  | .increment => pd.num < pd.numElements ∧ pd.rawArray pd.num = arg

/-- What a call has returned, and its entry since. -/
structure Load.Kept (pd : PackedData) (r : Load) : Prop where
  addr : r.addr = BitVec.ofNat 32 r.num
  narrow : r.num < 2 ^ 32
  lt : r.num < pd.num
  inside : r.num < pd.numElements
  entry : pd.rawArray r.num = r.entry

structure LoadInv (w : LoadWorld threads) : Prop where
  one : ∀ t t', (w.pc t).writing = true → (w.pc t').writing = true → t = t'
  loads : ∀ t, (w.pc t).Loads w.packed (w.arg t)
  kept : ∀ r ∈ w.returned, r.Kept w.packed
  distinct : (w.returned.map Load.num).Nodup

/-- Outside the critical section nothing is known. -/
theorem LoadPc.loads_of_not_writing {pc : LoadPc} (h : pc.writing = false) (pd : PackedData) (arg : PackedStruct) :
    pc.Loads pd arg := by
  cases pc with
  | idle | checkBound => trivial
  | readIndex f =>
      cases f with
      | key => trivial
      | data | dataLength => cases h
  | storeField f i => cases h
  | increment => cases h

theorem Load.Kept.addr_toNat {pd : PackedData} {r : Load} (h : r.Kept pd) : r.addr.toNat = r.num := by
  rw [h.addr, BitVec.toNat_ofNat]
  exact Nat.mod_eq_of_lt h.narrow

variable {w w' : LoadWorld threads} {tid : Fin threads}

/-- The thread that writes is alone. -/
theorem LoadInv.alone (h : LoadInv w) (hw : (w.pc tid).writing = true) : ∀ t, t ≠ tid → (w.pc t).writing = false :=
  fun t ht => Bool.eq_false_iff.mpr fun hwt => ht (h.one t tid hwt hw)

/-- A step of a thread beside which nobody writes. -/
theorem LoadInv.writer {pc : LoadPc} (halone : ∀ t, t ≠ tid → (w.pc t).writing = false)
    (hpc : w'.pc = Function.update w.pc tid pc) (hloads : pc.Loads w'.packed (w'.arg tid))
    (hkept : ∀ r ∈ w'.returned, r.Kept w'.packed) (hdistinct : (w'.returned.map Load.num).Nodup) : LoadInv w' := by
  have hothers : ∀ t, t ≠ tid → (w'.pc t).writing = false := by
    intro t ht
    rw [hpc, Function.update_of_ne ht]
    exact halone t ht
  refine ⟨fun t t' ht ht' => ?_, fun t => ?_, hkept, hdistinct⟩
  · by_cases htid : t = tid
    · by_cases htid' : t' = tid
      · rw [htid, htid']
      · rw [hothers t' htid'] at ht'
        cases ht'
    · rw [hothers t htid] at ht
      cases ht
  · by_cases htid : t = tid
    · subst htid
      rw [hpc, Function.update_self]
      exact hloads
    · exact LoadPc.loads_of_not_writing (hothers t htid) _ _

/-- A step that stays outside the critical section. -/
theorem LoadInv.outside (h : LoadInv w) {pc : LoadPc} (hpc : w'.pc = Function.update w.pc tid pc)
    (hnew : pc.writing = false) (harg : ∀ t, t ≠ tid → w'.arg t = w.arg t) (hpacked : w'.packed = w.packed)
    (hreturned : w'.returned = w.returned) : LoadInv w' := by
  have hself : (w'.pc tid).writing = false := by rw [hpc, Function.update_self, hnew]
  have hother : ∀ t, t ≠ tid → w'.pc t = w.pc t := fun t ht => by rw [hpc, Function.update_of_ne ht]
  refine ⟨fun t t' ht ht' => ?_, fun t => ?_, ?_, ?_⟩
  · have hne : t ≠ tid := by rintro rfl; rw [hself] at ht; cases ht
    have hne' : t' ≠ tid := by rintro rfl; rw [hself] at ht'; cases ht'
    rw [hother t hne] at ht
    rw [hother t' hne'] at ht'
    exact h.one t t' ht ht'
  · by_cases htid : t = tid
    · exact LoadPc.loads_of_not_writing (htid ▸ hself) _ _
    · rw [hother t htid, hpacked, harg t htid]
      exact h.loads t
  · rw [hreturned, hpacked]
    exact h.kept
  · rw [hreturned]
    exact h.distinct

/-- A store at the counter leaves the returned entries alone. -/
theorem Load.Kept.setEntry {pd : PackedData} {r : Load} (h : r.Kept pd) (e : PackedStruct) :
    r.Kept (pd.setEntry pd.num e) :=
  ⟨h.addr, h.narrow, h.lt, h.inside, by rw [PackedData.setEntry_rawArray, Function.update_of_ne h.lt.ne]; exact h.entry⟩

/-- The last field completes the entry. -/
theorem PackedStruct.store_last {e a : PackedStruct} (hkey : e.key = a.key) (hdata : e.data = a.data) :
    e.store .dataLength a = a := by
  cases a
  cases hkey
  cases hdata
  rfl

/-- A field store in the critical section. -/
theorem LoadInv.store (h : LoadInv w) {f : LoadField} {i : Nat} (hpc : w.pc tid = .storeField f i)
    (hok : w.advance tid = .ok w') : LoadInv w' := by
  have halone : ∀ t, t ≠ tid → (w.pc t).writing = false := h.alone (by rw [hpc]; rfl)
  have hloads := h.loads tid
  have hi : i = w.packed.num := by
    rw [hpc] at hloads
    cases f <;> exact hloads.1
  subst hi
  unfold LoadWorld.advance at hok
  rw [hpc] at hok
  obtain ⟨e, he, hok⟩ := Lib.bind_eq_ok.mp hok
  obtain ⟨hroom, rfl⟩ := PackedData.entry_eq_ok he
  cases hok
  refine LoadInv.writer halone rfl ?_ (fun r hr => (h.kept r hr).setEntry _) h.distinct
  have hset : ∀ e, (w.packed.setEntry w.packed.num e).rawArray w.packed.num = e := fun e => Function.update_self ..
  rw [hpc] at hloads
  cases f with
  | key => exact ⟨hroom, (congrArg PackedStruct.key (hset _)).trans rfl⟩
  | data =>
      obtain ⟨-, -, hkey⟩ := hloads
      exact ⟨hroom, (congrArg PackedStruct.key (hset _)).trans hkey, (congrArg PackedStruct.data (hset _)).trans rfl⟩
  | dataLength =>
      obtain ⟨-, -, hkey, hdata⟩ := hloads
      exact ⟨hroom, (hset _).trans (PackedStruct.store_last hkey hdata)⟩

/-- The increment. -/
theorem LoadInv.increment (h : LoadInv w) (hpc : w.pc tid = .increment) (hnarrow : w.packed.num < 2 ^ 32)
    (hok : w.advance tid = .ok w') : LoadInv w' := by
  have halone : ∀ t, t ≠ tid → (w.pc t).writing = false := h.alone (by rw [hpc]; rfl)
  have hloads := h.loads tid
  rw [hpc] at hloads
  obtain ⟨hroom, hentry⟩ := hloads
  unfold LoadWorld.advance at hok
  rw [hpc] at hok
  cases hok
  refine LoadInv.writer halone rfl trivial (fun r hr => ?_) ?_
  · rcases List.mem_append.mp hr with hr | hr
    · have hkept := h.kept r hr
      exact ⟨hkept.addr, hkept.narrow, hkept.lt.trans (Nat.lt_succ_self _), hkept.inside, hkept.entry⟩
    · obtain rfl := List.mem_singleton.mp hr
      exact ⟨rfl, hnarrow, Nat.lt_succ_self _, hroom, hentry⟩
  · show (List.map Load.num (w.returned ++ [_])).Nodup
    rw [List.map_append]
    refine List.nodup_append.mpr ⟨h.distinct, List.nodup_singleton _, fun a ha b hb => ?_⟩
    obtain ⟨r, hr, rfl⟩ := List.mem_map.mp ha
    rw [List.map_singleton, List.mem_singleton] at hb
    rw [hb]
    exact (h.kept r hr).lt.ne

/-- **One step.** -/
theorem LoadInv.step (h : LoadInv w) {a : LoadStep threads} (hC : OneWriter w a) (hok : w.step a = .ok w') : LoadInv w' := by
  cases a with
  | call tid e =>
      cases hok
      unfold LoadWorld.call
      split
      · exact h.outside rfl rfl (fun t ht => Function.update_of_ne ht ..) rfl rfl
      · exact h
  | advance tid =>
      change w.advance tid = .ok w' at hok
      cases hpc : w.pc tid with
      | storeField f i => exact h.store hpc hok
      | increment => exact h.increment hpc (hC.2 hpc) hok
      | idle =>
          unfold LoadWorld.advance at hok
          rw [hpc] at hok
          cases hok
          exact h
      | checkBound =>
          unfold LoadWorld.advance at hok
          rw [hpc] at hok
          simp only at hok
          split at hok
          · cases hok
          · cases hok
            exact h.outside rfl rfl (fun _ _ => rfl) rfl rfl
      | readIndex f =>
          have hloads := h.loads tid
          rw [hpc] at hloads
          unfold LoadWorld.advance at hok
          rw [hpc] at hok
          cases hok
          cases f with
          | key =>
              obtain ⟨hroom, hnobody⟩ := hC.1 hpc
              exact LoadInv.writer (fun t _ => hnobody t) rfl ⟨rfl, hroom⟩ h.kept h.distinct
          | data | dataLength =>
              exact LoadInv.writer (h.alone (by rw [hpc]; rfl)) rfl ⟨rfl, hloads⟩ h.kept h.distinct

theorem LoadInv.apart (h : LoadInv w) : LoadsApart w := by
  refine ⟨?_, fun r hr => ?_, fun _ r hr => ?_⟩
  · refine (List.nodup_map_iff_inj_on (List.Nodup.of_map _ h.distinct)).mpr fun r hr r' hr' heq => ?_
    refine List.inj_on_of_nodup_map h.distinct hr hr' ?_
    rw [← (h.kept r hr).addr_toNat, ← (h.kept r' hr').addr_toNat, heq]
  · rw [(h.kept r hr).addr_toNat]
    exact ⟨(h.kept r hr).inside, rfl⟩
  · rw [(h.kept r hr).addr_toNat]
    exact (h.kept r hr).entry

end

/-- **Concurrent `bulk_load_data` calls do not clash** as long as one call writes at a time. For any array, any number of
    threads and any interleaving of their accesses whose steps are all those of `OneWriter`: the indices that were returned
    are different, equal to the counter and inside the array, and with no call in progress every one of them holds the
    entry of its call. -/
theorem loads_apart {threads : Nat} {pd : PackedData} {w : LoadWorld threads}
    (hrun : Lib.Reaches LoadWorld.step OneWriter (pd.loadWorld threads) w) : LoadsApart w := by
  have hinv : LoadInv w := by
    refine hrun.invariant ?_ fun _ _ _ h hC hstep => h.step hC hstep
    exact ⟨fun t _ ht _ => (by cases ht), fun _ => trivial, fun r hr => (by cases hr), List.nodup_nil⟩
  exact hinv.apart

/-- Two threads and an empty array of two entries. -/
def twoLoads : LoadWorld 2 := (⟨fun _ => .zero, 0, 2⟩ : PackedData).loadWorld 2

/-- Both threads call and pass the bound check. -/
def bothCall : List (LoadStep 2) :=
  [.call 0 ⟨7, 8, 70⟩, .call 1 ⟨9, 8, 90⟩, .advance 0, .advance 1]

/-- One after the other, behind their checks. -/
theorem loads_apart_two : ∃ w, Lib.Reaches LoadWorld.step OneWriter twoLoads w ∧
    w.returned.map Load.addr = [0, 1] ∧ LoadsApart w := by
  obtain ⟨w, hrun, hw⟩ : ∃ w, Lib.Reaches LoadWorld.step OneWriter twoLoads w ∧
      decide (w.returned.map Load.addr = [0, 1]) = true := Lib.exists_along
    (bothCall ++ List.replicate 7 (.advance 0) ++ List.replicate 7 (.advance 1)) (by decide +kernel)
  exact ⟨w, hrun, of_decide_eq_true hw, loads_apart hrun⟩

/-- Access by access in turn, both calls fill entry 0; the second one returns entry 1, which nobody has written. -/
theorem loads_clash : ¬ ∀ w, Lib.Reaches LoadWorld.step Lib.anyStep twoLoads w → LoadsApart w := by
  intro h
  obtain ⟨w, hrun, hw⟩ : ∃ w, Lib.Reaches LoadWorld.step Lib.anyStep twoLoads w ∧
      decide ((∀ t, w.pc t = .idle) ∧ (∃ r ∈ w.returned, w.packed.rawArray r.addr.toNat ≠ r.entry)) = true :=
    Lib.exists_along (bothCall ++ (List.replicate 7 [.advance 0, .advance 1]).flatten) (by decide +kernel)
  obtain ⟨hidle, r, hr, hne⟩ := of_decide_eq_true hw
  exact hne ((h w hrun).entry hidle r hr)

end Outback
