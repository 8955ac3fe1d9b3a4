import Outback.Bench.LoadData
import Outback.Ludo.InsertAgree
import Outback.Ludo.Placement

/-!
# `Bench.SameIndex` — client and server build the same index from the same keys

Both sides load keys, insert them into a `ludo_maintenance_t(1024)` and make their `DataPlaneLudo` of it
(`setup_ludo_table` in `client.cc` and `server.cc`). The values differ, `i` on the client and the packed index on the
server, and so may the number of `rand()` calls made before. The index is the same when the loaded keys are the same
and either no row seed is drawn at all or both sides draw it at the same place of the `rand()` stream
(`client_server_same_index`).
-/

namespace Outback

open ControlPlaneLudo

/-- The `DataPlaneLudo(cp)` of a control plane over an Othello. -/
def Othello.dataPlane {V : Type} (O : Othello) {rand : Nat → U64} (cp : ControlPlaneLudo V (O.locator rand).State) :
    DataPlaneLudo where
  numBuckets := cp.numBuckets
  hSeed := cp.hSeed
  locator := fun k => O.dpLookUp cp.locator.1 k
  seeds := fun b => (cp.buckets.get b).seed

/-- `insert(exist_keys[i], i)` on the client. -/
def clientValue (i : Nat) : U64 := BitVec.ofNat 64 i

/-- `insert(key, addr)` on the server: `bulk_load_data` returns the packed index in 32 bits. -/
def serverValue (i : Nat) : U64 := BitVec.ofNat 64 (i % 2 ^ 32)

namespace Platform

variable (plat : Platform) (H : HashFn) (O : Othello) (lf : LoadFactor)

/-- `setup_ludo_table` with the values of one side, up to the control plane, with calls nested at most `depth` deep. -/
def setupLudoTable (depth : Nat) (values : Nat → U64) (keys : BenchKeys) (nkeys : Nat) :
    LudoExec (ControlPlaneLudo U64 (O.locator plat.rand).State) := do
  let locator ← O.new keys.calls
  let cp ← construct (O.locator plat.rand) lf locator 1024
  insertAll H (O.locator plat.rand) lf depth cp keys.existKeys values nkeys

/-- The keys can all be inserted in turn without a rebuild: no cuckoo search fails, and the table grows in place. -/
def Placeable (existKeys : List U64) (nkeys : Nat) : Prop :=
  ∃ depth cp, (do
    let cp ← construct placing lf (fun _ => none) 1024
    insertAll H placing lf depth cp existKeys (fun _ => ()) nkeys) = Except.ok cp

/-- The two values of `std::random_device` lead to the same keys, where they are used at all. -/
def SameDraws (cfg : BenchmarkConfig) (rd rd' : U32) : Prop :=
  match cfg.workload with
  | .lognormal =>
      (plat.lognormalKeys cfg.nkeys (plat.mt19937 rd)).map Prod.fst
        = (plat.lognormalKeys cfg.nkeys (plat.mt19937 rd')).map Prod.fst
  | .wiki =>
      let read := sortUnique ((plat.dataset .wiki).take (threeHalves cfg.nkeys))
      (plat.shuffle (plat.mt19937 rd) read).1.take cfg.nkeys = (plat.shuffle (plat.mt19937 rd') read).1.take cfg.nkeys
  | _ => True

/-- How often `load_data` calls `rand()`. -/
def randCalls (cfg : BenchmarkConfig) : Nat :=
  match cfg.workload with
  | .lognormal | .book | .osm | .wiki | .fb => cfg.benchNkeys
  | _ => 0

/-- The `exist_keys` of `load_data`. -/
def loadedKeys (cfg : BenchmarkConfig) (rd : U32) : LudoExec (List U64) :=
  match cfg.workload with
  | .normal => .ok ((List.range cfg.nkeys).map (BitVec.ofNat 64))
  | .lognormal => (plat.lognormalKeys cfg.nkeys (plat.mt19937 rd)).map Prod.fst
  | .book | .osm | .fb => .ok ((plat.dataset cfg.workload).take cfg.nkeys)
  | .wiki =>
      .ok (plat.shuffle (plat.mt19937 rd) (sortUnique ((plat.dataset .wiki).take (threeHalves cfg.nkeys)))).1
  | .ycsbE => .error .exited
  | _ => .ok (sequenceKeys 0 cfg.nkeys)

/-! ## What is loaded -/

section Load

variable {plat} {cfg cfg' : BenchmarkConfig} {rd rd' : U32} {d : BenchKeys}

theorem lognormalData_spec (h : plat.lognormalData cfg rd = .ok d) :
    (plat.lognormalKeys cfg.nkeys (plat.mt19937 rd)).map Prod.fst = .ok d.existKeys ∧ d.calls = cfg.benchNkeys := by
  obtain ⟨⟨existKeys, gen⟩, hexist, h⟩ := Lib.bind_eq_ok.mp h
  obtain ⟨_, -, h⟩ := Lib.bind_eq_ok.mp h
  obtain ⟨_, -, h⟩ := Lib.bind_eq_ok.mp h
  cases h
  rw [hexist]
  exact ⟨rfl, rfl⟩

theorem readFileData_spec (h : plat.readFileData cfg = .ok d) :
    d.existKeys = (plat.dataset cfg.workload).take cfg.nkeys ∧ d.calls = cfg.benchNkeys := by
  obtain ⟨_, -, h⟩ := Lib.bind_eq_ok.mp h
  cases h
  exact ⟨rfl, rfl⟩

theorem readFileDataWithNoDuplicate_spec (h : plat.readFileDataWithNoDuplicate cfg rd = .ok d) :
    d.existKeys = (plat.shuffle (plat.mt19937 rd)
      (sortUnique ((plat.dataset cfg.workload).take (threeHalves cfg.nkeys)))).1 ∧ d.calls = cfg.benchNkeys := by
  obtain ⟨_, -, h⟩ := Lib.bind_eq_ok.mp h
  cases h
  exact ⟨rfl, rfl⟩

theorem loadYcsb_spec (h : plat.loadYcsb cfg = .ok d) : d.existKeys = sequenceKeys 0 cfg.nkeys ∧ d.calls = 0 := by
  unfold loadYcsb at h
  split at h
  · cases h
  · cases h
    exact ⟨rfl, rfl⟩

/-- `load_data` loads `loadedKeys` and makes `randCalls` calls. -/
theorem loadData_spec (h : plat.loadData cfg rd = .ok d) :
    plat.loadedKeys cfg rd = .ok d.existKeys ∧ d.calls = randCalls cfg := by
  unfold loadData at h
  unfold loadedKeys randCalls
  cases hw : cfg.workload with
  | normal =>
      rw [hw] at h
      cases h
      exact ⟨rfl, rfl⟩
  | lognormal =>
      rw [hw] at h
      exact lognormalData_spec h
  | wiki =>
      rw [hw] at h
      obtain ⟨hk, hc⟩ := readFileDataWithNoDuplicate_spec h
      rw [hw] at hk
      exact ⟨by rw [hk], hc⟩
  | book | osm | fb =>
      rw [hw] at h
      obtain ⟨hk, hc⟩ := readFileData_spec h
      rw [hw] at hk
      exact ⟨by rw [hk], hc⟩
  | ycsbE =>
      rw [hw] at h
      cases h
  | ycsbA | ycsbB | ycsbC | ycsbD | ycsbF =>
      rw [hw] at h
      obtain ⟨hk, hc⟩ := loadYcsb_spec h
      exact ⟨by rw [hk], hc⟩

theorem lognormalKeys_length (n : Nat) (gen : plat.Gen) :
    Lib.Returns (fun r => r.1.length = n) (plat.lognormalKeys n gen) := by
  induction n generalizing gen with
  | zero => exact Lib.Returns.ok rfl
  | succ n ih =>
      unfold lognormalKeys
      split
      · exact Lib.Returns.error _
      · refine Lib.Returns.bind (ih _) ?_
        intro r hr
        apply Lib.Returns.ok
        rw [List.length_cons, hr]

/-- Lognormal keys are loaded all. -/
theorem lognormalKeys_take {n : Nat} {gen : plat.Gen} {l : List U64}
    (h : (plat.lognormalKeys n gen).map Prod.fst = .ok l) : l.take n = l := by
  cases hr : plat.lognormalKeys n gen with
  | error e =>
      rw [hr] at h
      cases h
  | ok r =>
      rw [hr] at h
      cases h
      exact List.take_of_length_le (le_of_eq (lognormalKeys_length n gen r hr))

/-- **Both sides load the same keys exactly when their `random_device` draws agree**, where they make one. -/
theorem loadedKeys_take_iff {l l' : List U64} (h : plat.loadedKeys cfg rd = .ok l)
    (h' : plat.loadedKeys cfg' rd' = .ok l') (hw : cfg.workload = cfg'.workload) (hn : cfg.nkeys = cfg'.nkeys) :
    l.take cfg.nkeys = l'.take cfg'.nkeys ↔ plat.SameDraws cfg rd rd' := by
  unfold loadedKeys at h h'
  unfold SameDraws
  rw [← hw, ← hn] at h'
  rw [← hn]
  cases hwl : cfg.workload with
  | lognormal =>
      rw [hwl] at h h'
      rw [lognormalKeys_take h, lognormalKeys_take h']
      dsimp only at h h' ⊢
      rw [h, h', Except.ok.injEq]
  | wiki =>
      rw [hwl] at h h'
      cases h
      cases h'
      exact Iff.rfl
  | _ =>
      rw [hwl] at h h'
      first
        | cases h
          cases h'
          exact iff_of_true rfl trivial
        | cases h

end Load

/-! ## What is built from it -/

section Build

variable {plat H O lf} {d d' : BenchKeys} {nkeys depth depth' : Nat} {values values' : Nat → U64}
  {cp cq : ControlPlaneLudo U64 (O.locator plat.rand).State}

/-- Two bulk loads of the same keys from related states of two locators. -/
theorem bulkLoad_agree {V W : Type} [Inhabited V] [Inhabited W] {P Q : Locator} {ρ : P.State → Q.State → Prop}
    (hPQ : LocatorAgree P Q ρ) {l : P.State} {l' : Q.State} (h : ρ l l') {keys keys' : List U64}
    (hkeys : keys.take nkeys = keys'.take nkeys) (vs : Nat → V) (ws : Nat → W) :
    Lib.Agree (Alike ρ) (construct P lf l 1024 >>= fun cp => insertAll H P lf depth cp keys vs nkeys)
      (construct Q lf l' 1024 >>= fun cq => insertAll H Q lf depth' cq keys' ws nkeys) := by
  refine Lib.Agree.bind (construct_agree hPQ h 1024) ?_
  intro a b hab
  exact insertAll_agree hPQ hab hkeys vs ws

/-- After equally many `rand()` calls the two builds draw the same seeds. -/
theorem setup_alike_of_calls (hkeys : d.existKeys.take nkeys = d'.existKeys.take nkeys) (hcalls : d.calls = d'.calls)
    (h : plat.setupLudoTable H O lf depth values d nkeys = .ok cp)
    (h' : plat.setupLudoTable H O lf depth' values' d' nkeys = .ok cq) : Alike Eq cp cq := by
  obtain ⟨l, hl, h⟩ := Lib.bind_eq_ok.mp h
  obtain ⟨l', hl', h'⟩ := Lib.bind_eq_ok.mp h'
  obtain rfl : l = l' := by
    rw [← hcalls, hl] at hl'
    exact Except.ok.inj hl'
  exact bulkLoad_agree (LocatorAgree.refl _) rfl hkeys values values' cp cq h h'

/-- A build that draws no row seed ends where the exact locator ends. -/
theorem setup_alike_of_placeable (E : O.Exact) {t : ControlPlaneLudo Unit placing.State}
    (ht : (construct placing lf (fun _ => none) 1024 >>= fun cp =>
      insertAll H placing lf depth' cp d'.existKeys (fun _ => ()) nkeys) = .ok t)
    (hkeys : d.existKeys.take nkeys = d'.existKeys.take nkeys)
    (h : plat.setupLudoTable H O lf depth values d nkeys = .ok cp) :
    Alike (fun s m => E.Wf s.1 ∧ E.bits s.1 = m) cp t := by
  obtain ⟨l, hl, h⟩ := Lib.bind_eq_ok.mp h
  exact bulkLoad_agree (E.agree plat.rand) (E.new _ l hl) hkeys values _ cp t h ht

/-- The slot of a key depends on the locator's bit of that key only. -/
theorem lookupSlot_congr {dp dp' : DataPlaneLudo} {k : U64} (hn : dp.numBuckets = dp'.numBuckets)
    (hs : dp.hSeed = dp'.hSeed) (hseeds : dp.seeds = dp'.seeds) (hbit : dp.locator k = dp'.locator k) :
    dp.lookupSlot H k = dp'.lookupSlot H k := by
  have hrow : dp.row H k = dp'.row H k := by
    unfold DataPlaneLudo.row
    rw [hn, hs, hbit]
  unfold DataPlaneLudo.lookupSlot DataPlaneLudo.slot
  rw [hrow, hseeds]

/-- **Client and server build the same index.** Two processes on the same workload and number of keys: they load the
    same keys exactly when their `random_device` draws agree, and then, if `load_data` called `rand()` equally often
    or the keys can be placed without a rebuild, every loaded key has the same slot on both sides. -/
theorem client_server_same_index (E : O.Exact) {cfg cfg' : BenchmarkConfig} {rd rd' : U32}
    (hw : cfg.workload = cfg'.workload) (hn : cfg.nkeys = cfg'.nkeys) (hload : plat.loadData cfg rd = .ok d)
    (hload' : plat.loadData cfg' rd' = .ok d')
    (hclient : plat.setupLudoTable H O lf depth clientValue d cfg.nkeys = .ok cp)
    (hserver : plat.setupLudoTable H O lf depth' serverValue d' cfg'.nkeys = .ok cq) :
    (d.existKeys.take cfg.nkeys = d'.existKeys.take cfg'.nkeys ↔ plat.SameDraws cfg rd rd') ∧
      (plat.SameDraws cfg rd rd' → randCalls cfg = randCalls cfg' ∨ Placeable H lf d'.existKeys cfg'.nkeys →
        ∀ k ∈ d.existKeys.take cfg.nkeys, (O.dataPlane cp).lookupSlot H k = (O.dataPlane cq).lookupSlot H k) := by
  obtain ⟨hkeys, hcalls⟩ := loadData_spec hload
  obtain ⟨hkeys', hcalls'⟩ := loadData_spec hload'
  have hiff := loadedKeys_take_iff hkeys hkeys' hw hn
  refine ⟨hiff, fun hdraws hcond k hk => ?_⟩
  have hsame := hiff.mpr hdraws
  rw [hn] at hsame hclient hk
  rcases hcond with heq | ⟨depth₀, t, ht⟩
  · -- the same place in the stream: the runs differ in their values only
    have halike := setup_alike_of_calls hsame (by rw [hcalls, hcalls', heq]) hclient hserver
    refine lookupSlot_congr halike.numBuckets halike.hSeed ?_ ?_
    · funext b
      exact (halike.buckets.get b).seed
    · show O.dpLookUp cp.locator.1 k = O.dpLookUp cq.locator.1 k
      rw [halike.locator]
  · -- no seed is drawn: both runs follow the exact locator, which has the bit of every loaded key
    have hC := setup_alike_of_placeable E ht hsame hclient
    have hS := setup_alike_of_placeable E ht rfl hserver
    refine lookupSlot_congr (hC.numBuckets.trans hS.numBuckets.symm) (hC.hSeed.trans hS.hSeed.symm) ?_ ?_
    · funext b
      exact (hC.buckets.get b).seed.trans (hS.buckets.get b).seed.symm
    · obtain ⟨t₀, ht₀, ht⟩ := Lib.bind_eq_ok.mp ht
      have hreg := insertAll_registers depth₀ (construct_registers _ _ t₀ ht₀) d'.existKeys _ cfg'.nkeys t ht
      obtain ⟨bit, hbit⟩ := Option.isSome_iff_exists.mp (hreg.known k (hsame ▸ hk))
      obtain ⟨hwfC, hbitsC⟩ := hC.locator
      obtain ⟨hwfS, hbitsS⟩ := hS.locator
      rw [← hbitsC] at hbit
      have hbit' := hbit
      rw [hbitsC, ← hbitsS] at hbit'
      exact (E.dpLookUp _ hwfC k bit hbit).trans (E.dpLookUp _ hwfS k bit hbit').symm

end Build

end Platform

/-! ## Two processes that do not agree -/

/-- An Othello whose edges never close a cycle: it draws a seed when it is constructed and when its size changes. -/
@[reducible] def acyclicOthello : Othello where
  Table := (U64 → Option Bool) × Nat
  new := fun n => .ok ((fun _ => none, 256), n + 2)
  isMember := fun t k => (t.1 k).isSome
  lookUp := fun t k => .ok ((t.1 k).getD false)
  insert := fun t n k bi => .ok ((Function.update t.1 k (some bi), t.2), n)
  changeValue := fun t k bi => .ok (Function.update t.1 k (some bi), t.2)
  toggleInOthello := fun t k => .ok (Function.update t.1 k (some !(t.1 k).getD false), t.2)
  resizeCapacity := fun t n capacity =>
    if t.2 < max capacity 256 ∨ 10 * max capacity 256 < 8 * t.2 then .ok ((t.1, max capacity 256), n + 2)
    else .ok (t, n)
  clear := fun t => (fun _ => none, t.2)
  dpLookUp := fun t k => (t.1 k).getD false

/-- The first values of `rand()` from its default seed, in the C library of the servers. -/
def glibcRand (i : Nat) : U64 :=
  [1804289383, 846930886, 1681692777, 1714636915, 1957747793, 424238335, 719885386, 1649760492].getD i 0

/-- `std::shuffle` of two words under the generators seeded with `0` and `1`; the second one exchanges them. -/
def twoSeeds (dataset : List U64) : Platform where
  rand := glibcRand
  dataset := fun _ => dataset
  Gen := U32
  mt19937 := id
  lognormal := fun g => (1, g)
  shuffle := fun g l => (if g = 1 then l.reverse else l, g)
  transactionKey := fun _ _ => 0

/-- The flags of one side. -/
def sideConfig (workload : Workload) (nkeys benchNkeys : Nat) : BenchmarkConfig :=
  ⟨workload, nkeys, 1, benchNkeys, false, .uniform⟩

/-- Five words whose two candidate buckets are all bucket 6 of the 512 initial ones: the fifth forces a rebuild. -/
def crowdedWords : List U64 := [8996, 76013, 80038, 140679, 160428]

/-- It is an exact locator. -/
def acyclicOthello_exact : acyclicOthello.Exact where
  bits := fun t => t.1
  Wf := fun _ => True
  new := fun n => Lib.Returns.ok ⟨trivial, rfl⟩
  isMember := fun t _ k => rfl
  lookUp := fun t _ k b hb => by
    apply Lib.Returns.ok
    rw [hb]
    rfl
  insert := fun t _ n k bi _ => Lib.Returns.ok ⟨trivial, rfl⟩
  changeValue := fun t _ k bi _ => Lib.Returns.ok ⟨trivial, rfl⟩
  toggleInOthello := fun t _ k b hb => by
    apply Lib.Returns.ok
    rw [hb]
    exact ⟨trivial, rfl⟩
  resizeCapacity := fun t _ n capacity => by
    show Lib.Returns _ (if _ then _ else _)
    split
    · exact Lib.Returns.ok ⟨trivial, rfl⟩
    · exact Lib.Returns.ok ⟨trivial, rfl⟩
  dpLookUp := fun t _ k b hb => by
    show (t.1 k).getD false = b
    rw [hb]
    rfl

/-- One fb word, and one benchmark key more on the client: `rand()` is called more often there, but nothing is
    rebuilt. -/
theorem client_server_same_index_seven : ∃ d d' cp cq,
    (twoSeeds [7]).loadData (sideConfig .fb 1 1) 0 = .ok d ∧
    (twoSeeds [7]).loadData (sideConfig .fb 1 0) 1 = .ok d' ∧
    (twoSeeds [7]).setupLudoTable fastHasher64 acyclicOthello defaultLoadFactor 3 clientValue d 1 = .ok cp ∧
    (twoSeeds [7]).setupLudoTable fastHasher64 acyclicOthello defaultLoadFactor 3 serverValue d' 1 = .ok cq ∧
    d.existKeys.take 1 = d'.existKeys.take 1 ∧
    ∀ k ∈ d.existKeys.take 1, (acyclicOthello.dataPlane cp).lookupSlot fastHasher64 k
      = (acyclicOthello.dataPlane cq).lookupSlot fastHasher64 k := by
  obtain ⟨cp, hcp, -⟩ := Lib.exists_of_passes (p := fun _ => true)
    (x := (twoSeeds [7]).setupLudoTable fastHasher64 acyclicOthello defaultLoadFactor 3 clientValue
      ⟨[7], [], [7], 1⟩ 1) (by decide +kernel)
  obtain ⟨cq, hcq, -⟩ := Lib.exists_of_passes (p := fun _ => true)
    (x := (twoSeeds [7]).setupLudoTable fastHasher64 acyclicOthello defaultLoadFactor 3 serverValue
      ⟨[7], [], [], 0⟩ 1) (by decide +kernel)
  have hplaceable : Platform.Placeable fastHasher64 defaultLoadFactor [7] 1 := by
    obtain ⟨t, ht, -⟩ := Lib.exists_of_passes (p := fun _ => true)
      (x := construct placing defaultLoadFactor (fun _ => none) 1024 >>= fun cp =>
        insertAll fastHasher64 placing defaultLoadFactor 3 cp [7] (fun _ => ()) 1) (by decide +kernel)
    exact ⟨3, t, ht⟩
  have hload : (twoSeeds [7]).loadData (sideConfig .fb 1 1) 0 = .ok ⟨[7], [], [7], 1⟩ := rfl
  have hload' : (twoSeeds [7]).loadData (sideConfig .fb 1 0) 1 = .ok ⟨[7], [], [], 0⟩ := rfl
  have hw : (sideConfig .fb 1 1).workload = (sideConfig .fb 1 0).workload := rfl
  have h := Platform.client_server_same_index acyclicOthello_exact hw rfl hload hload' hcp hcq
  exact ⟨_, _, cp, cq, hload, hload', hcp, hcq, h.1.mpr trivial, h.2 trivial (Or.inr hplaceable)⟩

/-- The property fails twice over. Two processes that shuffle the two words of a wiki dataset under different
    `random_device` values load them in different orders; and on the same five words of an fb dataset, one benchmark
    key more on the client shifts its seeds, so that the first word is in row 18 there and in row 3 on the server. -/
theorem index_diverges :
    (∃ d d' cp cq, (twoSeeds [1, 2, 2]).loadData (sideConfig .wiki 2 0) 0 = .ok d ∧
      (twoSeeds [1, 2, 2]).loadData (sideConfig .wiki 2 0) 1 = .ok d' ∧
      (twoSeeds [1, 2, 2]).setupLudoTable fastHasher64 acyclicOthello defaultLoadFactor 3 clientValue d 2 = .ok cp ∧
      (twoSeeds [1, 2, 2]).setupLudoTable fastHasher64 acyclicOthello defaultLoadFactor 3 serverValue d' 2 = .ok cq ∧
      d.existKeys.take 2 ≠ d'.existKeys.take 2) ∧
    (∃ d d' cp cq, (twoSeeds crowdedWords).loadData (sideConfig .fb 5 1) 0 = .ok d ∧
      (twoSeeds crowdedWords).loadData (sideConfig .fb 5 0) 0 = .ok d' ∧
      (twoSeeds crowdedWords).setupLudoTable fastHasher64 acyclicOthello defaultLoadFactor 9 clientValue d 5 = .ok cp ∧
      (twoSeeds crowdedWords).setupLudoTable fastHasher64 acyclicOthello defaultLoadFactor 9 serverValue d' 5 = .ok cq ∧
      8996 ∈ d.existKeys.take 5 ∧ d.existKeys.take 5 = d'.existKeys.take 5 ∧
      (acyclicOthello.dataPlane cp).lookupSlot fastHasher64 8996
        ≠ (acyclicOthello.dataPlane cq).lookupSlot fastHasher64 8996) := by
  constructor
  · obtain ⟨cp, hcp, -⟩ := Lib.exists_of_passes (p := fun _ => true)
      (x := (twoSeeds [1, 2, 2]).setupLudoTable fastHasher64 acyclicOthello defaultLoadFactor 3 clientValue
        ⟨[1, 2], [], [], 0⟩ 2) (by decide +kernel)
    obtain ⟨cq, hcq, -⟩ := Lib.exists_of_passes (p := fun _ => true)
      (x := (twoSeeds [1, 2, 2]).setupLudoTable fastHasher64 acyclicOthello defaultLoadFactor 3 serverValue
        ⟨[2, 1], [], [], 0⟩ 2) (by decide +kernel)
    have hload : (twoSeeds [1, 2, 2]).loadData (sideConfig .wiki 2 0) 0 = .ok ⟨[1, 2], [], [], 0⟩ := rfl
    have hload' : (twoSeeds [1, 2, 2]).loadData (sideConfig .wiki 2 0) 1 = .ok ⟨[2, 1], [], [], 0⟩ := rfl
    exact ⟨_, _, cp, cq, hload, hload', hcp, hcq, by decide⟩
  · obtain ⟨cp, hcp, hslot⟩ := Lib.exists_of_passes
      (p := fun cp => (acyclicOthello.dataPlane cp).lookupSlot fastHasher64 8996 == (18, 3))
      (x := (twoSeeds crowdedWords).setupLudoTable fastHasher64 acyclicOthello defaultLoadFactor 9 clientValue
        ⟨crowdedWords, [], [140679], 1⟩ 5) (by decide +kernel)
    obtain ⟨cq, hcq, hslot'⟩ := Lib.exists_of_passes
      (p := fun cp => (acyclicOthello.dataPlane cp).lookupSlot fastHasher64 8996 == (3, 3))
      (x := (twoSeeds crowdedWords).setupLudoTable fastHasher64 acyclicOthello defaultLoadFactor 9 serverValue
        ⟨crowdedWords, [], [], 0⟩ 5) (by decide +kernel)
    have hload : (twoSeeds crowdedWords).loadData (sideConfig .fb 5 1) 0 = .ok ⟨crowdedWords, [], [140679], 1⟩ := rfl
    have hload' : (twoSeeds crowdedWords).loadData (sideConfig .fb 5 0) 0 = .ok ⟨crowdedWords, [], [], 0⟩ := rfl
    refine ⟨_, _, cp, cq, hload, hload', hcp, hcq, by decide, by decide, ?_⟩
    rw [beq_iff_eq.mp hslot, beq_iff_eq.mp hslot']
    decide

end Outback
