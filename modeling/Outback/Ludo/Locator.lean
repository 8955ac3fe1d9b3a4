import Outback.Hash
import Outback.Lib.Partial
import Mathlib.Logic.Function.Basic

/-!
# `Ludo.Locator` — the Othello locator and the seeds drawn from `rand()`

The control plane keeps its locator in a `ControlPlaneOthello` and takes the seed of its row hash from the
process-global `rand()`, which `ControlPlaneOthello::build` draws from too. `Locator` is what the control plane uses
of the two: one state, on which the Othello operations and the draw of a row seed act.

The Othello itself is the parameter `Othello`: its operations count the `rand()` calls they make. `Othello.Exact` is
its documented behaviour, an updatable map from the registered keys to one bit, whatever seeds were drawn; it promises
nothing after `clear()`, which forgets the keys and keeps the edges. `placing` is the locator of a table that is never
rebuilt: the exact map alone, without seeds to draw.
-/

namespace Outback

/-- Why loading the keys or building the index does not return. -/
inductive LudoFault where
  /-- the process called `exit(0)` -/
  | exited
  /-- an `assert` failed -/
  | assertFailed
  /-- `CoreWorkload::Init`: "Unknown request distribution" -/
  | unknownDistribution
  /-- `rand() % 0` -/
  | divisionByZero
  /-- `updateSeed`: "Cannot generate a proper hash seed within 255 tries" -/
  | noSeed
  /-- `resizeCapacity`: "Current design only support up to 4 billion key set size!" -/
  | tooManyKeys
  /-- the 32-bit `num_buckets_` wraps to zero -/
  | sizeWraps
  /-- `ControlPlaneOthello::lookUp`: "Key absent", or an `assert(isMember(k))` -/
  | absentKey
  /-- an Othello operation that throws or does not return -/
  | othello
  /-- an access through a pointer into freed storage -/
  | dangling
  /-- a write beyond `visited_` -/
  | visitedOverrun
  /-- a seed asked of a table that has none to draw -/
  | noSeedSource
  /-- `exist_keys[i]` beyond the keys that were loaded -/
  | keyBounds
  /-- the calls nest deeper than the bound they were run with -/
  | depth
  deriving DecidableEq, Repr

abbrev LudoExec := Except LudoFault

/-- The Othello operations of the control plane, and the draw of a row seed, on one state. -/
structure Locator where
  State : Type
  isMember : State → U64 → Bool
  lookUp : State → U64 → LudoExec Bool
  insert : State → U64 → Bool → LudoExec State
  changeValue : State → U64 → Bool → LudoExec State
  toggleInOthello : State → U64 → LudoExec State
  resizeCapacity : State → Nat → LudoExec State
  clear : State → LudoExec State
  /-- `(uint64_t(rand()) << 32U) | rand()` -/
  rowSeed : State → LudoExec (U64 × State)

/-- `registerKey`. -/
def Locator.registerKey (P : Locator) (s : P.State) (k : U64) (bi : Bool) : LudoExec P.State :=
  if P.isMember s k then do
    let old ← P.lookUp s k
    if old = bi then .ok s else P.changeValue s k bi
  else P.insert s k bi

/-! ## Two locators that answer alike -/

/-- Operations on related states return alike: the same bits and seeds, and related states again. -/
structure LocatorAgree (P Q : Locator) (ρ : P.State → Q.State → Prop) : Prop where
  isMember : ∀ {s t}, ρ s t → ∀ k, P.isMember s k = Q.isMember t k
  lookUp : ∀ {s t}, ρ s t → ∀ k, Lib.Agree Eq (P.lookUp s k) (Q.lookUp t k)
  insert : ∀ {s t}, ρ s t → ∀ k bi, P.isMember s k = false → Lib.Agree ρ (P.insert s k bi) (Q.insert t k bi)
  changeValue : ∀ {s t}, ρ s t → ∀ k bi, Lib.Agree ρ (P.changeValue s k bi) (Q.changeValue t k bi)
  toggleInOthello : ∀ {s t}, ρ s t → ∀ k, Lib.Agree ρ (P.toggleInOthello s k) (Q.toggleInOthello t k)
  resizeCapacity : ∀ {s t}, ρ s t → ∀ n, Lib.Agree ρ (P.resizeCapacity s n) (Q.resizeCapacity t n)
  clear : ∀ {s t}, ρ s t → Lib.Agree ρ (P.clear s) (Q.clear t)
  rowSeed : ∀ {s t}, ρ s t → Lib.Agree (fun x y => x.1 = y.1 ∧ ρ x.2 y.2) (P.rowSeed s) (Q.rowSeed t)

/-- Every locator answers like itself. -/
theorem LocatorAgree.refl (P : Locator) : LocatorAgree P P Eq where
  isMember := by rintro s _ rfl k; rfl
  lookUp := by rintro s _ rfl k; exact Lib.Agree.refl _ fun _ => rfl
  insert := by rintro s _ rfl k bi -; exact Lib.Agree.refl _ fun _ => rfl
  changeValue := by rintro s _ rfl k bi; exact Lib.Agree.refl _ fun _ => rfl
  toggleInOthello := by rintro s _ rfl k; exact Lib.Agree.refl _ fun _ => rfl
  resizeCapacity := by rintro s _ rfl n; exact Lib.Agree.refl _ fun _ => rfl
  clear := by rintro s _ rfl; exact Lib.Agree.refl _ fun _ => rfl
  rowSeed := by rintro s _ rfl; exact Lib.Agree.refl _ fun _ => ⟨rfl, rfl⟩

theorem LocatorAgree.registerKey {P Q : Locator} {ρ : P.State → Q.State → Prop} (hPQ : LocatorAgree P Q ρ)
    {s : P.State} {t : Q.State} (h : ρ s t) (k : U64) (bi : Bool) :
    Lib.Agree ρ (P.registerKey s k bi) (Q.registerKey t k bi) := by
  unfold Locator.registerKey
  refine Lib.Agree.ite (by rw [hPQ.isMember h k]) ?_ ?_
  · intro _
    refine Lib.Agree.bind (hPQ.lookUp h k) ?_
    rintro old _ rfl
    exact Lib.Agree.ite Iff.rfl (fun _ => Lib.Agree.ok h) fun _ => hPQ.changeValue h k bi
  · intro hmem
    exact hPQ.insert h k bi (by simpa using hmem)

/-! ## The Othello of a process -/

/-- `ControlPlaneOthello<K, uint8_t, 1, 0, true>` and the `DataPlaneOthello` made from it. The operations that draw
    seeds take the number of `rand()` calls made so far and return the new one. -/
structure Othello where
  Table : Type
  /-- `ControlPlaneOthello(1U, true)` -/
  new : Nat → LudoExec (Table × Nat)
  isMember : Table → U64 → Bool
  lookUp : Table → U64 → LudoExec Bool
  insert : Table → Nat → U64 → Bool → LudoExec (Table × Nat)
  changeValue : Table → U64 → Bool → LudoExec Table
  toggleInOthello : Table → U64 → LudoExec Table
  resizeCapacity : Table → Nat → Nat → LudoExec (Table × Nat)
  clear : Table → Table
  /-- `DataPlaneOthello(cp).lookUp` -/
  dpLookUp : Table → U64 → Bool

namespace Othello

/-- The Othello of a process, with the number of `rand()` calls the process has made. -/
def locator (O : Othello) (rand : Nat → U64) : Locator where
  State := O.Table × Nat
  isMember := fun s k => O.isMember s.1 k
  lookUp := fun s k => O.lookUp s.1 k
  insert := fun s k bi => O.insert s.1 s.2 k bi
  changeValue := fun s k bi => do
    let t ← O.changeValue s.1 k bi
    .ok (t, s.2)
  toggleInOthello := fun s k => do
    let t ← O.toggleInOthello s.1 k
    .ok (t, s.2)
  resizeCapacity := fun s n => O.resizeCapacity s.1 s.2 n
  clear := fun s => .ok (O.clear s.1, s.2)
  rowSeed := fun s => .ok (rand s.2 <<< 32 ||| rand (s.2 + 1), (s.1, s.2 + 2))

/-- What an Othello is: a map from the registered keys to one bit that its operations update, and that the data
    plane made from it answers for the registered keys. `Wf` are the tables it has not been cleared in. -/
structure Exact (O : Othello) where
  bits : O.Table → U64 → Option Bool
  Wf : O.Table → Prop
  new : ∀ n, Lib.Returns (fun s => Wf s.1 ∧ bits s.1 = fun _ => none) (O.new n)
  isMember : ∀ t, Wf t → ∀ k, O.isMember t k = (bits t k).isSome
  lookUp : ∀ t, Wf t → ∀ k b, bits t k = some b → Lib.Returns (· = b) (O.lookUp t k)
  insert : ∀ t, Wf t → ∀ n k bi, bits t k = none →
    Lib.Returns (fun s => Wf s.1 ∧ bits s.1 = Function.update (bits t) k (some bi)) (O.insert t n k bi)
  changeValue : ∀ t, Wf t → ∀ k bi, (bits t k).isSome →
    Lib.Returns (fun t' => Wf t' ∧ bits t' = Function.update (bits t) k (some bi)) (O.changeValue t k bi)
  toggleInOthello : ∀ t, Wf t → ∀ k b, bits t k = some b →
    Lib.Returns (fun t' => Wf t' ∧ bits t' = Function.update (bits t) k (some !b)) (O.toggleInOthello t k)
  resizeCapacity : ∀ t, Wf t → ∀ n capacity,
    Lib.Returns (fun s => Wf s.1 ∧ bits s.1 = bits t) (O.resizeCapacity t n capacity)
  dpLookUp : ∀ t, Wf t → ∀ k b, bits t k = some b → O.dpLookUp t k = b

end Othello

/-! ## A table that is never rebuilt -/

/-- The exact map, of which no seed can be drawn: a run over it ends where the control plane would rebuild. -/
@[reducible] def placing : Locator where
  State := U64 → Option Bool
  isMember := fun m k => (m k).isSome
  lookUp := fun m k =>
    match m k with
    | some b => .ok b
    | none => .error .absentKey
  insert := fun m k bi => .ok (Function.update m k (some bi))
  changeValue := fun m k bi => if (m k).isSome then .ok (Function.update m k (some bi)) else .error .absentKey
  toggleInOthello := fun m k =>
    match m k with
    | some b => .ok (Function.update m k (some !b))
    | none => .error .absentKey
  resizeCapacity := fun m _ => .ok m
  clear := fun _ => .error .noSeedSource
  rowSeed := fun _ => .error .noSeedSource

/-- **An Othello answers like the exact map**, whatever seeds it draws, until it is cleared. -/
theorem Othello.Exact.agree {O : Othello} (E : O.Exact) (rand : Nat → U64) :
    LocatorAgree (O.locator rand) placing fun s m => E.Wf s.1 ∧ E.bits s.1 = m where
  isMember := by
    rintro s m ⟨hwf, rfl⟩ k
    exact E.isMember s.1 hwf k
  lookUp := by
    rintro s m ⟨hwf, rfl⟩ k b b' hb hb'
    simp only at hb'
    cases hbit : E.bits s.1 k with
    | none =>
        rw [hbit] at hb'
        cases hb'
    | some b₀ =>
        rw [hbit] at hb'
        cases hb'
        exact E.lookUp s.1 hwf k _ hbit b hb
  insert := by
    rintro s m ⟨hwf, rfl⟩ k bi hmem s' m' hs' hm'
    cases hm'
    have hnone : E.bits s.1 k = none := by
      have := (E.isMember s.1 hwf k).symm.trans hmem
      simpa using this
    exact E.insert s.1 hwf s.2 k bi hnone s' hs'
  changeValue := by
    rintro s m ⟨hwf, rfl⟩ k bi s' m' hs' hm'
    obtain ⟨t, ht, hs'⟩ := Lib.bind_eq_ok.mp hs'
    cases hs'
    simp only [placing] at hm'
    split at hm'
    · rename_i hsome
      cases hm'
      exact E.changeValue s.1 hwf k bi hsome t ht
    · cases hm'
  toggleInOthello := by
    rintro s m ⟨hwf, rfl⟩ k s' m' hs' hm'
    obtain ⟨t, ht, hs'⟩ := Lib.bind_eq_ok.mp hs'
    cases hs'
    simp only [placing] at hm'
    cases hbit : E.bits s.1 k with
    | none =>
        rw [hbit] at hm'
        cases hm'
    | some b =>
        rw [hbit] at hm'
        cases hm'
        exact E.toggleInOthello s.1 hwf k b hbit t ht
  resizeCapacity := by
    rintro s m ⟨hwf, rfl⟩ n s' m' hs' hm'
    cases hm'
    exact E.resizeCapacity s.1 hwf s.2 n s' hs'
  clear := by
    intro s m _
    exact Lib.Agree.error_right _ _
  rowSeed := by
    intro s m _
    exact Lib.Agree.error_right _ _

end Outback
