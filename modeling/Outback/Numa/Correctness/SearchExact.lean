import Outback.Numa.Correctness.Steps

/-!
# `Numa.Correctness.SearchExact` — what `numa_search` takes for an entry of the row

`check_slots` tells an empty slot by its length field, the makeup scan of `numa_search` by address `0`, and the primary
probe not at all. An empty slot is the zero word, so it reads as packed entry `0`, which an occupied slot may hold as
well. **`searchExact_iff`**: a search answers exactly from the occupied slots of the key's row unless entry `0` has
the key it looks for; then it is right only where another slot makes up for it (`FirstEntryApart`).

The clients of one server share the two arrays and the lanes. Each has a `ludo_lookup_unit` of its own, so a row may be
reseeded for one client and not for another.
-/

namespace Outback

/-! ## One store, several clients -/

/-- The store that several clients work on, with the lookup unit of each. -/
structure SharedStore where
  lookup : Nat → DataPlaneLudo
  buckets : LudoBuckets
  packed : PackedData
  lanes : Lanes
  numDataEntries : Nat

namespace SharedStore

/-- What client `c` sees. -/
def store (ss : SharedStore) (c : Nat) : Store := ⟨ss.lookup c, ss.buckets, ss.packed, ss.lanes, ss.numDataEntries⟩

/-- What an operation of client `c` leaves. -/
def commit (ss : SharedStore) (c : Nat) (st : Store) : SharedStore :=
  ⟨Function.update ss.lookup c st.lookup, st.buckets, st.packed, st.lanes, st.numDataEntries⟩

/-- One writing operation of one client. -/
def step (H : HashFn) (ss : SharedStore) (a : Nat × NumaOp) : Exec SharedStore := do
  let st ← (ss.store a.1).step H a.2
  return ss.commit a.1 st

end SharedStore

/-- The store, seen by clients that have built the same index. -/
def Store.shared (st : Store) : SharedStore := ⟨fun _ => st.lookup, st.buckets, st.packed, st.lanes, st.numDataEntries⟩

/-- The stores reached from a bulk load of `existKeys` by operations of any clients. -/
def ReachedByClients (H : HashFn) (existKeys : List U64) (ss : SharedStore) : Prop :=
  ∃ cp memThreads alien regMem packedStruct st₀ lookup, Loaded H cp existKeys ∧
    setupLudoTable H cp existKeys memThreads alien regMem packedStruct = .ok st₀ ∧
    (∀ c, (lookup c).numBuckets = cp.numBuckets) ∧
    Lib.Reaches (SharedStore.step H) Lib.anyStep
      ⟨lookup, st₀.buckets, st₀.packed, st₀.lanes, st₀.numDataEntries⟩ ss

/-! ## What a search is to find -/

/-- An occupied slot of the row refers to an entry with the key. -/
def Store.Holds (st : Store) (r : Nat) (s : Slot) (k : U64) : Prop := st.Occupied r s ∧ (st.entryAt r s).key = k

instance (st : Store) (r : Nat) (s : Slot) (k : U64) : Decidable (st.Holds r s k) :=
  inferInstanceAs (Decidable (_ ∧ _))

/-- `numa_search(k)` finds exactly the occupied entries of the key's row. -/
def SearchExact (H : HashFn) (st : Store) (k : U64) : Prop :=
  ∃ res, st.numaSearch H k = .ok res ∧ (res.isSome = true ↔ ∃ s, st.Holds (st.lookup.row H k) s k) ∧
    ∀ v, res = some v → ∃ s, st.Holds (st.lookup.row H k) s k ∧ (st.entryAt (st.lookup.row H k) s).data = v

/-- Packed entry `0` has another key; or the primary slot is occupied, and the key is not held through index `0`
    alone and behind it; or the primary slot is empty, and an occupied slot holds the key with the data of entry `0`. -/
def FirstEntryApart (H : HashFn) (st : Store) (k : U64) : Prop :=
  let r := st.lookup.row H k
  let p := st.lookup.slot H k
  (st.packed.rawArray 0).key = k →
    if st.Occupied r p then
      (∃ s, st.Holds r s k ∧ (s = p ∨ st.addr r s ≠ 0)) ∨ ∀ s, st.Occupied r s → st.addr r s ≠ 0
    else ∃ s, st.Holds r s k ∧ (st.entryAt r s).data = (st.packed.rawArray 0).data

instance (H : HashFn) (st : Store) (k : U64) : Decidable (FirstEntryApart H st k) := by
  unfold FirstEntryApart
  infer_instance

section Answer

variable {entries : Slot → PackedStruct} {order : List Slot} {k v : U64}

theorem answer_isSome_iff : (answer entries order k).isSome = true ↔ ∃ s ∈ order, (entries s).key = k := by
  unfold answer
  rw [Option.isSome_map, List.find?_isSome]
  simp

theorem exists_of_answer (h : answer entries order k = some v) :
    ∃ s ∈ order, (entries s).key = k ∧ (entries s).data = v := by
  obtain ⟨s, hs, hv⟩ := answer_eq_some_iff.mp h
  have hk := List.find?_some hs
  exact ⟨s, List.mem_of_find?_eq_some hs, of_decide_eq_true hk, hv⟩

end Answer

/-! ## The invariant, for every client -/

section Clients

variable {H : HashFn} {nkeys : Nat} {st st' : Store} {existKeys : List U64} {ss : SharedStore}

/-- The invariant depends on the lookup unit through the number of rows only. -/
theorem StoreInv.withLookup (h : StoreInv nkeys st) (lookup : DataPlaneLudo)
    (hnb : lookup.numBuckets = st.lookup.numBuckets) : StoreInv nkeys { st with lookup := lookup } where
  bound := h.bound
  entries := h.entries
  packed := h.packed
  buckets := h.buckets.trans hnb.symm
  pos := hnb ▸ h.pos
  strided := h.strided
  empty := fun r s hr => h.empty r s (hnb ▸ hr)
  issued := fun r s hr => h.issued r s (hnb ▸ hr)
  distinct := fun r s r' s' hr hr' => h.distinct r s r' s' (hnb ▸ hr) (hnb ▸ hr')

/-- Every client of a reached store sees the invariant. -/
theorem ReachedByClients.storeInv (h : ReachedByClients H existKeys ss) (c : Nat) :
    StoreInv existKeys.length (ss.store c) := by
  obtain ⟨cp, memThreads, alien, regMem, packedStruct, st₀, lookup, hld, hok, hnb, hrun⟩ := h
  have hinv : ∀ c, StoreInv existKeys.length (ss.store c) := by
    refine hrun.invariant (P := fun ss => ∀ c, StoreInv existKeys.length (ss.store c)) ?_ ?_
    · intro c
      obtain ⟨st', hok', hlk, -⟩ := setupLudoTable_ok H cp existKeys memThreads alien regMem packedStruct
      obtain rfl : st' = st₀ := Except.ok.inj (hok'.symm.trans hok)
      exact (hld.storeInv hok).withLookup (lookup c) (by rw [hnb c, hlk]; rfl)
    · rintro ss ⟨c, op⟩ ss' hinv - hstep d
      obtain ⟨st', hst', hss'⟩ := Lib.bind_eq_ok.mp hstep
      obtain rfl := Except.ok.inj hss'
      have hafter := (hinv c).step hst'
      by_cases hd : d = c
      · subst hd
        unfold SharedStore.commit SharedStore.store
        simp only [Function.update_self]
        exact hafter
      · unfold SharedStore.commit SharedStore.store
        simp only [Function.update_of_ne hd]
        -- the arrays are those that client `c` left; the lookup unit of `d` has as many rows
        refine hafter.withLookup (ss.lookup d) ?_
        rw [step_numBuckets hst']
        exact (hinv d).buckets.symm.trans (hinv c).buckets
  exact hinv c

/-- The run of one client is a run of several. -/
theorem ReachedFrom.byClients {st : Store} (h : ReachedFrom H existKeys Lib.anyStep st) :
    ∃ ss, ReachedByClients H existKeys ss ∧ ss.store 0 = st := by
  obtain ⟨cp, memThreads, alien, regMem, packedStruct, st₀, hld, hok, hrun⟩ := h
  have hnb : st₀.lookup.numBuckets = cp.numBuckets := by
    obtain ⟨st', hok', hlk, -⟩ := setupLudoTable_ok H cp existKeys memThreads alien regMem packedStruct
    obtain rfl : st' = st₀ := Except.ok.inj (hok'.symm.trans hok)
    rw [hlk]
    rfl
  have hshared : ∃ ss, Lib.Reaches (SharedStore.step H) Lib.anyStep
      ⟨fun _ => st₀.lookup, st₀.buckets, st₀.packed, st₀.lanes, st₀.numDataEntries⟩ ss ∧ ss.store 0 = st := by
    induction hrun with
    | refl => exact ⟨_, .refl, rfl⟩
    | @tail st st' _ hstep ih =>
        obtain ⟨ss, hreach, rfl⟩ := ih
        obtain ⟨op, -, hop⟩ := hstep
        refine ⟨ss.commit 0 st', hreach.snoc (a := (0, op)) trivial ?_, ?_⟩
        · unfold SharedStore.step
          rw [hop]
          rfl
        · unfold SharedStore.commit SharedStore.store
          simp only [Function.update_self]
  obtain ⟨ss, hreach, hst⟩ := hshared
  exact ⟨ss, ⟨cp, memThreads, alien, regMem, packedStruct, st₀, _, hld, hok, fun _ => hnb, hreach⟩, hst⟩

end Clients

/-! ## The search -/

section Search

variable {H : HashFn} {nkeys : Nat} {st : Store} {k : U64}

theorem mem_probeOrder {r : Nat} {p s : Slot} : s ∈ st.probeOrder r p ↔ s = p ∨ st.addr r s ≠ 0 := by
  unfold Store.probeOrder Store.others
  rw [List.mem_cons, List.mem_filter]
  by_cases hsp : s = p
  · simp [hsp]
  · simp [hsp, List.mem_finRange]

theorem StoreInv.occupied_of_addr (h : StoreInv nkeys st) {r : Nat} {s : Slot} (hr : r < st.lookup.numBuckets)
    (ha : st.addr r s ≠ 0) : st.Occupied r s := by
  by_contra hocc
  exact ha (h.addr_of_empty hr hocc)

/-- A slot that holds another key than entry `0` has is not read as address `0`. -/
theorem Store.Holds.addr_ne {r : Nat} {s : Slot} (h : st.Holds r s k) (hne : (st.packed.rawArray 0).key ≠ k) :
    st.addr r s ≠ 0 := by
  intro ha
  have hk := h.2
  rw [Store.entryAt, ha] at hk
  exact hne hk

/-- With every visited slot of the key occupied, the search is exact when it visits one of the slots that hold it. -/
theorem searchExact_of_visited (hsearch : st.numaSearch H k = .ok (st.probe (st.lookup.row H k) (st.lookup.slot H k) k))
    (hocc : ∀ s, (s = st.lookup.slot H k ∨ st.addr (st.lookup.row H k) s ≠ 0) →
      (st.entryAt (st.lookup.row H k) s).key = k → st.Occupied (st.lookup.row H k) s) :
    SearchExact H st k ↔ ((∃ s, st.Holds (st.lookup.row H k) s k) →
      ∃ s, st.Holds (st.lookup.row H k) s k ∧ (s = st.lookup.slot H k ∨ st.addr (st.lookup.row H k) s ≠ 0)) := by
  constructor
  · rintro ⟨res, hres, hsome, -⟩ hholds
    obtain rfl : st.probe _ _ k = res := Except.ok.inj (hsearch.symm.trans hres)
    obtain ⟨s, hs, hk⟩ := answer_isSome_iff.mp (hsome.mpr hholds)
    have hv := mem_probeOrder.mp hs
    exact ⟨s, ⟨hocc s hv hk, hk⟩, hv⟩
  · intro hvisit
    refine ⟨_, hsearch, ⟨fun hsome => ?_, fun hholds => ?_⟩, fun v hv => ?_⟩
    · obtain ⟨s, hs, hk⟩ := answer_isSome_iff.mp hsome
      exact ⟨s, hocc s (mem_probeOrder.mp hs) hk, hk⟩
    · obtain ⟨s, hs, hv⟩ := hvisit hholds
      exact answer_isSome_iff.mpr ⟨s, mem_probeOrder.mpr hv, hs.2⟩
    · obtain ⟨s, hs, hk, hdata⟩ := exists_of_answer hv
      exact ⟨s, ⟨hocc s (mem_probeOrder.mp hs) hk, hk⟩, hdata⟩

/-- A search through an empty primary slot whose key is that of entry `0`. -/
theorem StoreInv.searchExact_empty (h : StoreInv nkeys st) (hn : 0 < nkeys)
    (hp : ¬ st.Occupied (st.lookup.row H k) (st.lookup.slot H k)) (hk : (st.packed.rawArray 0).key = k) :
    SearchExact H st k ↔ ∃ s, st.Holds (st.lookup.row H k) s k ∧
      (st.entryAt (st.lookup.row H k) s).data = (st.packed.rawArray 0).data := by
  have hent : st.entryAt (st.lookup.row H k) (st.lookup.slot H k) = st.packed.rawArray 0 := by
    rw [Store.entryAt, h.addr_of_empty (h.row_lt k) hp]
  have hsearch : st.numaSearch H k = .ok (some (st.packed.rawArray 0).data) := by
    rw [h.numaSearch_ok hn, Store.probe, Store.probeOrder, answer_cons_of_eq (by rw [hent, hk]), hent]
  constructor
  · rintro ⟨res, hres, -, hdata⟩
    obtain rfl : some (st.packed.rawArray 0).data = res := Except.ok.inj (hsearch.symm.trans hres)
    exact hdata _ rfl
  · rintro ⟨s, hs, hdata⟩
    refine ⟨_, hsearch, iff_of_true rfl ⟨s, hs⟩, fun v hv => ⟨s, hs, ?_⟩⟩
    rw [hdata]
    exact Option.some.inj hv

theorem StoreInv.searchExact_iff_apart (h : StoreInv nkeys st) (hn : 0 < nkeys) (k : U64) :
    SearchExact H st k ↔ FirstEntryApart H st k := by
  have hrow := h.row_lt (H := H) k
  have hvisit := searchExact_of_visited (h.numaSearch_ok (H := H) hn k)
  unfold FirstEntryApart
  simp only
  by_cases hk : (st.packed.rawArray 0).key = k
  · simp only [hk, true_implies]
    split
    · -- an occupied primary slot: every visited slot is occupied
      rename_i hp
      rw [hvisit (fun s hs _ => hs.elim (fun e => e ▸ hp) (h.occupied_of_addr hrow))]
      constructor
      · intro himp
        by_cases hex : ∃ s, st.Holds (st.lookup.row H k) s k
        · exact .inl (himp hex)
        · refine .inr fun s hs ha => hex ⟨s, hs, ?_⟩
          rw [Store.entryAt, ha]
          exact hk
      · rintro (hex | hall)
        · exact fun _ => hex
        · rintro ⟨s, hs⟩
          exact ⟨s, hs, .inr (hall s hs.1)⟩
    · rename_i hp
      exact h.searchExact_empty hn hp hk
  · refine iff_of_true ((hvisit fun s hs hkey => ?_).mpr ?_) (fun e => absurd e hk)
    · rcases hs with rfl | ha
      · by_contra hp
        rw [Store.entryAt, h.addr_of_empty hrow hp] at hkey
        exact hk hkey
      · exact h.occupied_of_addr hrow ha
    · rintro ⟨s, hs⟩
      exact ⟨s, hs, .inr (hs.addr_ne hk)⟩

/-- **What a search finds.** In every store reached, a search of any client is exact if and only if some key was loaded
    and packed entry `0` does not get in its way. -/
theorem searchExact_iff {existKeys : List U64} {ss : SharedStore} (h : ReachedByClients H existKeys ss) (c : Nat)
    (k : U64) : SearchExact H (ss.store c) k ↔ existKeys ≠ [] ∧ FirstEntryApart H (ss.store c) k := by
  have hinv := h.storeInv c
  by_cases hn : existKeys = []
  · -- no packed entry at all: the primary probe reads beyond the array
    refine iff_of_false ?_ (fun e => e.1 hn)
    rintro ⟨res, hres, -⟩
    obtain ⟨b, -, hrest⟩ := Lib.bind_eq_ok.mp hres
    obtain ⟨e, he, -⟩ := Lib.bind_eq_ok.mp hrest
    have hlt := (PackedData.entry_eq_ok he).1
    rw [hinv.packed, hn] at hlt
    simp at hlt
  · rw [hinv.searchExact_iff_apart (List.length_pos_of_ne_nil hn) k]
    exact (and_iff_right hn).symm

end Search

/-! ## Searches that are exact and searches that are not -/

/-- The clients of such a one-bucket store. -/
theorem rowStore_byClients {b : Nat} {seed : U8} {existKeys : List U64} {ss : SharedStore}
    (hld : Loaded fastHasher64 (rowTable b seed existKeys) existKeys)
    (hrun : Lib.Reaches (SharedStore.step fastHasher64) Lib.anyStep (rowStore b seed existKeys).shared ss) :
    ReachedByClients fastHasher64 existKeys ss :=
  ⟨rowTable b seed existKeys, 1, fun _ => false, fun _ => .zero, .zero, rowStore b seed existKeys, _, hld,
    rowStore_setup b seed existKeys, fun _ => rfl, hrun⟩

/-- Run a list of operations from a reached store. -/
theorem ReachedFrom.exists_along {H : HashFn} {existKeys : List U64} {st : Store} {p : Store → Bool}
    (h : ReachedFrom H existKeys Lib.anyStep st) (ops : List NumaOp)
    (hrun : (Lib.runAlong (Store.step H) Lib.anyStep ops st).any p = true) :
    ∃ st', ReachedFrom H existKeys Lib.anyStep st' ∧ p st' = true := by
  obtain ⟨cp, memThreads, alien, regMem, packedStruct, st₀, hld, hok, hreach⟩ := h
  obtain ⟨st', hst', hp⟩ := Lib.exists_along ops hrun
  exact ⟨st', ⟨cp, memThreads, alien, regMem, packedStruct, st₀, hld, hok, hreach.trans hst'⟩, hp⟩

/-- Keys 0 and 301 are loaded, client 1 puts 540 and client 0 updates 301. For client 3 the searches of the three keys, and
    of key 938, which has their row, are exact. -/
theorem searchExact_iff_row : ∃ ss, ReachedByClients fastHasher64 [0, 301] ss ∧
    (ss.store 3).numaSearch fastHasher64 540 = .ok (some 5) ∧
    ∀ k ∈ [0, 301, 540, 938], SearchExact fastHasher64 (ss.store 3) k := by
  obtain ⟨ss, hrun, htest⟩ : ∃ ss, Lib.Reaches (SharedStore.step fastHasher64) Lib.anyStep
      (rowStore 31 0 [0, 301]).shared ss ∧
      (decide ((ss.store 3).numaSearch fastHasher64 540 = .ok (some 5)) &&
        [0, 301, 540, 938].all fun k => decide (FirstEntryApart fastHasher64 (ss.store 3) k)) = true :=
    Lib.exists_along [(1, .put 0 540 5), (0, .update 301 9)] (by decide +kernel)
  simp only [Bool.and_eq_true, decide_eq_true_eq, List.all_eq_true] at htest
  obtain ⟨hsearch, hapart⟩ := htest
  have hreach : ReachedByClients fastHasher64 [0, 301] ss := rowStore_byClients rowTable_pair hrun
  exact ⟨ss, hreach, hsearch, fun k hk => (searchExact_iff hreach 3 k).mpr ⟨by decide, hapart k hk⟩⟩

/-- Key 7 alone is stored at index `0` and removed: the zeroed entry makes a search of key `0` answer from an empty
    row. In a full row, the entry at index `0` is not found once a put of another key has reseeded the row. -/
theorem searchExact_fails :
    (∃ ss, ReachedByClients fastHasher64 [7] ss ∧ (ss.store 0).numaSearch fastHasher64 0 = .ok (some 0) ∧
      ¬ SearchExact fastHasher64 (ss.store 0) 0) ∧
    (∃ ss, ReachedByClients fastHasher64 [0, 301, 540, 938] ss ∧ (ss.store 0).numaSearch fastHasher64 0 = .ok none ∧
      ¬ SearchExact fastHasher64 (ss.store 0) 0) := by
  constructor
  · obtain ⟨st, hreach, htest⟩ := (rowStore_seven Lib.anyStep).exists_along
      (p := fun st => decide (st.numaSearch fastHasher64 0 = .ok (some 0) ∧
        ¬ ∃ s, st.Holds (st.lookup.row fastHasher64 0) s 0)) [.remove 7] (by decide +kernel)
    obtain ⟨hsearch, hnone⟩ := of_decide_eq_true htest
    obtain ⟨ss, hss, rfl⟩ := hreach.byClients
    refine ⟨ss, hss, hsearch, ?_⟩
    rintro ⟨res, hres, hsome, -⟩
    obtain rfl : some 0 = res := Except.ok.inj (hsearch.symm.trans hres)
    exact hnone (hsome.mp rfl)
  · obtain ⟨st, hreach, htest⟩ := (rowStore_full Lib.anyStep).exists_along
      (p := fun st => decide (st.numaSearch fastHasher64 0 = .ok none ∧
        ∃ s, st.Holds (st.lookup.row fastHasher64 0) s 0)) [.put 0 1379 99] (by decide +kernel)
    obtain ⟨hsearch, hheld⟩ := of_decide_eq_true htest
    obtain ⟨ss, hss, rfl⟩ := hreach.byClients
    refine ⟨ss, hss, hsearch, ?_⟩
    rintro ⟨res, hres, hsome, -⟩
    obtain rfl : none = res := Except.ok.inj (hsearch.symm.trans hres)
    exact absurd (hsome.mpr hheld) (by decide)

end Outback
