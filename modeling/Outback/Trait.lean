import Outback.Slot

/-!
# `Trait` — what the two servers share (`outback/trait.hpp`, `outback/cache.hh`)

The LRU cache behind full buckets, the reply of a request, and the location `loc = 4 * row + slot` that a request
carries.
-/

namespace Outback

/-! ## The LRU cache (`outback/cache.hh`) -/

/-- `Cache<K, V>`: `keys_` from the most to the least recently used; `cache_` maps each key to its node there. -/
structure Cache (K V : Type) where
  keys : List (K × V)
  maxSize : Nat
  elasticity : Nat

namespace Cache

variable {K V : Type} [DecidableEq K]

/-- `prune`: past the hard limit, drop the least recently used down to `maxSize`. -/
def prune (c : Cache K V) : Cache K V :=
  if c.maxSize = 0 ∨ c.keys.length < c.maxSize + c.elasticity then c
  else { c with keys := c.keys.take c.maxSize }

def insert (c : Cache K V) (k : K) (v : V) : Cache K V :=
  if k ∈ c.keys.map Prod.fst then { c with keys := (k, v) :: c.keys.filter (fun p => p.1 ≠ k) }
  else prune { c with keys := (k, v) :: c.keys }

end Cache

/-! ## Requests and replies -/

structure ReplyValue where
  status : Bool
  val : U64
  deriving DecidableEq, Repr

/-- `loc / SLOTS_NUM_BUCKET`. -/
def locRow (loc : Nat) : Nat := loc / 4

/-- `loc % SLOTS_NUM_BUCKET`. -/
def locSlot (loc : Nat) : Slot := ⟨loc % 4, Nat.mod_lt _ (by decide)⟩

theorem locRow_slot (r : Nat) (t : Slot) : locRow (4 * r + t.val) = r := by
  have := t.isLt
  unfold locRow
  omega

theorem locSlot_slot (r : Nat) (t : Slot) : locSlot (4 * r + t.val) = t := by
  have := t.isLt
  apply Fin.ext
  show (4 * r + t.val) % 4 = t.val
  omega

end Outback
