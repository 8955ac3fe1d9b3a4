import Outback.Ludo.Locator
import Mathlib.Data.List.Sort
import Mathlib.Data.List.Destutter

/-!
# `Bench.LoadData` — the keys a process loads (`benchs/load_data.hh`)

Client and server run `load_data` on their own flags before they build the index. It fills `exist_keys`, the keys to
load, and two more vectors that only the benchmark reads. Two sources of randomness differ between processes:
`std::random_device` seeds the generator of the lognormal keys and of the shuffle of the wiki keys, and every benchmark
key drawn from the loaded ones takes one step of the process-global `rand()`.
-/

namespace Outback

/-- `WORKLOAD`. -/
inductive Workload where
  | ycsbA | ycsbB | ycsbC | ycsbD | ycsbE | ycsbF
  | normal | lognormal | book | osm | wiki | fb
  deriving DecidableEq, Repr

/-- `FLAGS_dists`. -/
inductive Distribution where
  | uniform | zipfian | latest
  /-- any other text -/
  | unknown
  deriving DecidableEq, Repr

/-- The flags that `load_data` reads; `inserting` is `insert_ratio > 0`. -/
structure BenchmarkConfig where
  workload : Workload
  nkeys : Nat
  nonNkeys : Nat
  benchNkeys : Nat
  inserting : Bool
  dists : Distribution
  deriving DecidableEq, Repr

/-- What the processes share: the values of `rand()` in order, the datasets (their words behind the first), and the
    parts of the standard library and of YCSB that compute in floating point or are left to the implementation. -/
structure Platform where
  rand : Nat → U64
  dataset : Workload → List U64
  Gen : Type
  /-- `std::mt19937 gen(seed)` -/
  mt19937 : U32 → Gen
  /-- `rand_lognormal(gen)*1000000000000` -/
  lognormal : Gen → U64 × Gen
  /-- `std::shuffle` -/
  shuffle : Gen → List U64 → List U64 × Gen
  /-- the `i`-th `NextTransactionKey()` -/
  transactionKey : BenchmarkConfig → Nat → U64

/-- `exist_keys`, `nonexist_keys`, `bench_keys`, and how often `rand()` was called. -/
structure BenchKeys where
  existKeys : List U64
  nonexistKeys : List U64
  benchKeys : List U64
  calls : Nat
  deriving DecidableEq, Repr

/-- `utils::FNVHash64`. -/
def fnvHash64 (val : U64) : U64 :=
  (List.range 8).foldl (fun hash i => (hash ^^^ ((val >>> (8 * i)) &&& 0xff)) * 1099511628211) 0xCBF29CE484222325

/-- The keys of `n` calls of `NextSequenceKey()` from the counter `start` on: the counter, hashed. -/
def sequenceKeys (start n : Nat) : List U64 :=
  (List.range n).map fun i => fnvHash64 (BitVec.ofNat 64 (start + i))

/-- Sorted and without duplicates: `std::sort`, `std::unique`, `erase`. -/
def sortUnique (keys : List U64) : List U64 := (keys.insertionSort (· ≤ ·)).destutter (· ≠ ·)

namespace Platform

variable (plat : Platform)

/-- `n` keys of the lognormal generator. -/
def lognormalKeys : Nat → plat.Gen → LudoExec (List U64 × plat.Gen)
  | 0, gen => .ok ([], gen)
  | n + 1, gen =>
      if (plat.lognormal gen).1 = 0 then .error .assertFailed
      else do
        let (keys, gen') ← lognormalKeys n (plat.lognormal gen).2
        .ok ((plat.lognormal gen).1 :: keys, gen')

/-- The loop that fills `bench_keys` with `exist_keys[rand() % m]`. -/
def drawBenchKeys (existKeys : List U64) (m benchNkeys : Nat) : LudoExec (List U64) :=
  if m = 0 ∧ benchNkeys ≠ 0 then .error .divisionByZero
  else .ok ((List.range benchNkeys).map fun i => existKeys.getD ((plat.rand i).toNat % m) 0)

def normalDataBack (cfg : BenchmarkConfig) : LudoExec BenchKeys :=
  .ok { existKeys := (List.range cfg.nkeys).map (BitVec.ofNat 64)
        nonexistKeys := (List.range cfg.nonNkeys).map fun i => BitVec.ofNat 64 (cfg.nkeys + i)
        benchKeys := (List.range cfg.benchNkeys).map (BitVec.ofNat 64)
        calls := 0 }

def lognormalData (cfg : BenchmarkConfig) (randomDevice : U32) : LudoExec BenchKeys := do
  let (existKeys, gen) ← plat.lognormalKeys cfg.nkeys (plat.mt19937 randomDevice)
  let (nonexistKeys, _) ← plat.lognormalKeys (if cfg.inserting then cfg.nonNkeys else 0) gen
  let benchKeys ← plat.drawBenchKeys existKeys cfg.nkeys cfg.benchNkeys
  .ok ⟨existKeys, nonexistKeys, benchKeys, cfg.benchNkeys⟩

/-- `load_ycsb` under a request distribution. -/
def loadYcsb (cfg : BenchmarkConfig) : LudoExec BenchKeys :=
  if cfg.dists = .unknown then .error .unknownDistribution
  else .ok { existKeys := sequenceKeys 0 cfg.nkeys
             nonexistKeys := sequenceKeys cfg.nkeys cfg.nonNkeys
             benchKeys := (List.range cfg.benchNkeys).map (plat.transactionKey cfg)
             calls := 0 }

/-- `read_file_data`: reading stops at the end of the file. -/
def readFileData (cfg : BenchmarkConfig) : LudoExec BenchKeys := do
  let file := plat.dataset cfg.workload
  let existKeys := file.take cfg.nkeys
  let benchKeys ← plat.drawBenchKeys existKeys existKeys.length cfg.benchNkeys
  .ok ⟨existKeys, (file.drop cfg.nkeys).take cfg.nonNkeys, benchKeys, cfg.benchNkeys⟩

/-- `3*n/2` in 64 bits. -/
def threeHalves (n : Nat) : Nat := 3 * n % 2 ^ 64 / 2

/-- `read_file_data_with_no_duplicate`. -/
def readFileDataWithNoDuplicate (cfg : BenchmarkConfig) (randomDevice : U32) : LudoExec BenchKeys := do
  let file := plat.dataset cfg.workload
  let (existKeys, g) :=
    plat.shuffle (plat.mt19937 randomDevice) (sortUnique (file.take (threeHalves cfg.nkeys)))
  let (nonexistKeys, _) :=
    plat.shuffle g (sortUnique ((file.drop (threeHalves cfg.nkeys)).take (threeHalves cfg.nonNkeys)))
  let benchKeys ← plat.drawBenchKeys existKeys existKeys.length cfg.benchNkeys
  .ok ⟨existKeys, nonexistKeys, benchKeys, cfg.benchNkeys⟩

/-- `load_data` in a process whose `std::random_device` yields `randomDevice`. -/
def loadData (cfg : BenchmarkConfig) (randomDevice : U32) : LudoExec BenchKeys :=
  match cfg.workload with
  | .normal => normalDataBack cfg
  | .lognormal => plat.lognormalData cfg randomDevice
  | .book | .osm | .fb => plat.readFileData cfg
  | .wiki => plat.readFileDataWithNoDuplicate cfg randomDevice
  | .ycsbA | .ycsbB | .ycsbC => plat.loadYcsb { cfg with nonNkeys := 1 }
  | .ycsbD => plat.loadYcsb { cfg with nonNkeys := cfg.nkeys / 10, dists := .latest }
  | .ycsbE => .error .exited
  | .ycsbF => plat.loadYcsb { cfg with nonNkeys := cfg.nkeys / 8 }

end Platform

end Outback
