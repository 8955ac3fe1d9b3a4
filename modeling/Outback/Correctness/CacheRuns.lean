import Outback.Lib.Recency
import Outback.Rdma.Correctness.Effects

/-!
# `Correctness.CacheRuns` — what the LRU cache holds (`outback/cache.hh`)

The calls of a `Cache` and runs of them. **`cache_run`**: a cache with bounds holds the first pairs, in the order of their
last use, of the cache without bounds (`maxSize = 0`) that gets the same calls, and this one is a map. So a key that is
found has the value that it was given last, and it is the least recently used keys that are missing. **`reached_cache`** is
what the RDMA server's cache holds, after any requests.
-/

namespace Outback

/-- `KeyNotFound`, which `get` throws. -/
inductive KeyNotFound where
  | keyNotFound
  deriving DecidableEq, Repr

namespace Cache

variable {K V : Type} [DecidableEq K]

/-- `get_nolock(k)`: the key is used. -/
def getNolock (c : Cache K V) (k : K) : Except KeyNotFound (V × Cache K V) :=
  match Lib.valueIn c.keys k with
  | none => .error .keyNotFound
  | some v => .ok (v, { c with keys := (k, v) :: c.keys.filter (fun p => p.1 ≠ k) })

/-- `remove(k)`. -/
def remove (c : Cache K V) (k : K) : Bool × Cache K V :=
  if k ∈ c.keys.map Prod.fst then (true, { c with keys := c.keys.filter (fun p => p.1 ≠ k) }) else (false, c)

/-- `clear()`. -/
def clear (c : Cache K V) : Cache K V := { c with keys := [] }

end Cache

/-- The calls of a cache that change it. -/
inductive CacheCall (K V : Type) where
  | insert (k : K) (v : V)
  | get (k : K)
  | remove (k : K)
  | clear

/-- What a call makes of the map of the keys to their values. -/
def CacheCall.effect {K V : Type} [DecidableEq K] (m : K → Option V) : CacheCall K V → K → Option V
  | .insert k v => Function.update m k (some v)
  | .get _ => m
  | .remove k => Function.update m k none
  | .clear => fun _ => none

namespace Cache

variable {K V : Type} [DecidableEq K] {c u : Cache K V} {k : K} {v : V} {maxSize elasticity : Nat}

/-- One call. A `get` that throws does not return. -/
def call (c : Cache K V) : CacheCall K V → Except KeyNotFound (Cache K V)
  | .insert k v => .ok (c.insert k v)
  | .get k => do
      let r ← c.getNolock k
      .ok r.2
  | .remove k => .ok (c.remove k).2
  | .clear => .ok c.clear

/-! ## One call -/

omit [DecidableEq K] in
/-- `prune` only drops the least recently used, and only at the hard limit. -/
theorem prune_cases (c : Cache K V) : (c.prune = c ∧ (c.maxSize ≠ 0 → c.keys.length < c.maxSize + c.elasticity)) ∨
    (c.maxSize ≠ 0 ∧ c.maxSize ≤ c.keys.length ∧ c.prune = { c with keys := c.keys.take c.maxSize }) := by
  unfold prune
  split
  · rename_i hroom
    exact .inl ⟨rfl, fun hmax => hroom.resolve_left hmax⟩
  · rename_i hfull
    rw [not_or, not_lt] at hfull
    exact .inr ⟨hfull.1, (Nat.le_add_right _ _).trans hfull.2, rfl⟩

/-- An insertion uses the key, and prunes if it is new. -/
theorem insert_cases (c : Cache K V) (k : K) (v : V) :
    (k ∈ c.keys.map Prod.fst ∧ c.insert k v = { c with keys := Lib.touch k v c.keys }) ∨
    (k ∉ c.keys.map Prod.fst ∧ Lib.touch k v c.keys = (k, v) :: c.keys ∧
      c.insert k v = prune { c with keys := Lib.touch k v c.keys }) := by
  unfold insert
  split
  · rename_i hk
    exact .inl ⟨hk, rfl⟩
  · rename_i hk
    have hnew : Lib.touch k v c.keys = (k, v) :: c.keys := congrArg _ (Lib.forget_of_not_mem hk)
    exact .inr ⟨hk, hnew, by rw [hnew]⟩

theorem insert_unbounded (h : c.maxSize = 0) (k : K) (v : V) : c.insert k v = { c with keys := Lib.touch k v c.keys } := by
  rcases insert_cases c k v with ⟨-, heq⟩ | ⟨-, -, heq⟩
  · exact heq
  · rw [heq]
    exact if_pos (.inl h)

theorem remove_keys (c : Cache K V) (k : K) : (c.remove k).2 = { c with keys := Lib.forget k c.keys } := by
  unfold remove
  split
  · rfl
  · rename_i hk
    rw [Lib.forget_of_not_mem hk]

/-- A `get` that returns gives the value of the key, and uses it. -/
theorem getNolock_eq_ok {r : V × Cache K V} : c.getNolock k = .ok r ↔
    Lib.valueIn c.keys k = some r.1 ∧ r.2 = { c with keys := Lib.touch k r.1 c.keys } := by
  unfold getNolock
  cases hv : Lib.valueIn c.keys k with
  | none => simp
  | some v =>
      obtain ⟨w, d⟩ := r
      simp only [Except.ok.injEq, Prod.mk.injEq, Option.some.injEq]
      constructor
      · rintro ⟨rfl, rfl⟩
        exact ⟨rfl, rfl⟩
      · rintro ⟨rfl, rfl⟩
        exact ⟨rfl, rfl⟩

/-! ## Runs -/

/-- The cache `c` with bounds beside the cache `u` without, after the same calls, with `m` the map of these. -/
structure Bounded (maxSize elasticity : Nat) (m : K → Option V) (c u : Cache K V) : Prop where
  maxSize_eq : c.maxSize = maxSize
  elasticity_eq : c.elasticity = elasticity
  unbounded : u.maxSize = 0
  recent : c.keys <+: u.keys
  distinct : (u.keys.map Prod.fst).Nodup
  values : Lib.valueIn u.keys = m
  room : maxSize ≠ 0 → c.keys.length < maxSize + max 1 elasticity

/-- Nothing but `remove` makes the cache drop below `maxSize` when it has pruned. -/
def Full (maxSize : Nat) (c u : Cache K V) : Prop := c.keys = u.keys ∨ maxSize ≤ c.keys.length

variable {m : K → Option V}

theorem Bounded.distinct_own (h : Bounded maxSize elasticity m c u) : (c.keys.map Prod.fst).Nodup :=
  h.distinct.sublist (h.recent.sublist.map Prod.fst)

/-- A key in use is used again, in both. -/
theorem Bounded.touched (h : Bounded maxSize elasticity m c u) (hk : k ∈ c.keys.map Prod.fst) :
    Bounded maxSize elasticity (Function.update m k (some v)) { c with keys := Lib.touch k v c.keys }
      { u with keys := Lib.touch k v u.keys } where
  maxSize_eq := h.maxSize_eq
  elasticity_eq := h.elasticity_eq
  unbounded := h.unbounded
  recent := Lib.touch_mono h.recent
  distinct := Lib.touch_nodup h.distinct
  values := by rw [Lib.valueIn_touch, h.values]
  room := by
    intro hmax
    rw [show _ = c.keys.length from Lib.length_touch h.distinct_own hk]
    exact h.room hmax

theorem Full.touched (h : Bounded maxSize elasticity m c u) (hfull : Full maxSize c u) (hk : k ∈ c.keys.map Prod.fst) :
    Full maxSize { c with keys := Lib.touch k v c.keys } { u with keys := Lib.touch k v u.keys } := by
  rcases hfull with heq | hle
  · exact .inl (congrArg (Lib.touch k v) heq)
  · exact .inr (hle.trans (Lib.length_touch h.distinct_own hk).ge)

/-- **An insertion.** -/
theorem Bounded.insert (h : Bounded maxSize elasticity m c u) (k : K) (v : V) :
    Bounded maxSize elasticity (Function.update m k (some v)) (c.insert k v) (u.insert k v) ∧
      (Full maxSize c u → Full maxSize (c.insert k v) (u.insert k v)) := by
  rw [insert_unbounded h.unbounded]
  -- the key is used again, or it is new and the cache may be pruned
  rcases insert_cases c k v with ⟨hk, heq⟩ | ⟨hk, hnew, heq⟩
  · rw [heq]
    exact ⟨h.touched hk, fun hfull => hfull.touched h hk⟩
  · have hrecent : Lib.touch k v c.keys <+: Lib.touch k v u.keys := Lib.touch_mono h.recent
    have hdistinct : ((Lib.touch k v u.keys).map Prod.fst).Nodup := Lib.touch_nodup h.distinct
    have hvalues : Lib.valueIn (Lib.touch k v u.keys) = Function.update m k (some v) := by rw [Lib.valueIn_touch, h.values]
    have hlength : (Lib.touch k v c.keys).length = c.keys.length + 1 := by rw [hnew, List.length_cons]
    rw [heq]
    rcases prune_cases { c with keys := Lib.touch k v c.keys } with ⟨hsame, hroom⟩ | ⟨hmax, hle, hdrop⟩
    · rw [hsame]
      refine ⟨⟨h.maxSize_eq, h.elasticity_eq, h.unbounded, hrecent, hdistinct, hvalues, fun hmax => ?_⟩, ?_⟩
      · have hroom := hroom (h.maxSize_eq ▸ hmax)
        simp only [h.maxSize_eq, h.elasticity_eq] at hroom ⊢
        omega
      · rintro (hall | hle)
        · exact .inl (congrArg (Lib.touch k v) hall)
        · refine .inr (hle.trans ?_)
          simp only [hlength]
          omega
    · -- the cache is at its hard limit: what is kept is as long as `maxSize`
      have hkept : ((Lib.touch k v c.keys).take c.maxSize).length = maxSize := by
        rw [List.length_take, ← h.maxSize_eq]
        exact min_eq_left hle
      have hfirst : (Lib.touch k v c.keys).take c.maxSize <+: Lib.touch k v c.keys := List.take_prefix _ _
      rw [hdrop]
      refine ⟨⟨h.maxSize_eq, h.elasticity_eq, h.unbounded, hfirst.trans hrecent, hdistinct, hvalues, fun _ => ?_⟩,
        fun _ => .inr hkept.ge⟩
      simp only [hkept]
      omega

/-- **One call**, on both caches. -/
theorem Bounded.call (h : Bounded maxSize elasticity m c u) {a : CacheCall K V} {c' : Cache K V}
    (hok : c.call a = .ok c') : ∃ u', u.call a = .ok u' ∧ Bounded maxSize elasticity (a.effect m) c' u' ∧
      ((∀ k, a ≠ .remove k) → Full maxSize c u → Full maxSize c' u') := by
  cases a with
  | insert k v =>
      cases hok
      obtain ⟨hbounded, hfull⟩ := h.insert k v
      exact ⟨_, rfl, hbounded, fun _ => hfull⟩
  | get k =>
      obtain ⟨⟨v, d⟩, hget, hok⟩ := Lib.bind_eq_ok.mp hok
      cases hok
      obtain ⟨hv, hd⟩ := getNolock_eq_ok.mp hget
      dsimp only at hv hd
      subst hd
      have hu : Lib.valueIn u.keys k = some v := Lib.valueIn_mono h.recent hv
      have hk : k ∈ c.keys.map Prod.fst := Lib.valueIn_isSome.mp (Option.isSome_of_eq_some hv)
      -- a `get` uses the key with the value it has
      have hsame : Function.update m k (some v) = m := by
        rw [← h.values, ← hu, Function.update_eq_self]
      refine ⟨{ u with keys := Lib.touch k v u.keys }, ?_, ?_, fun _ hfull => hfull.touched h hk⟩
      · exact Lib.bind_eq_ok.mpr ⟨(v, _), getNolock_eq_ok.mpr ⟨hu, rfl⟩, rfl⟩
      · have htouched := h.touched (v := v) hk
        rwa [hsame] at htouched
  | remove k =>
      cases hok
      refine ⟨_, rfl, ?_, fun hnot => absurd rfl (hnot k)⟩
      rw [remove_keys, remove_keys]
      refine ⟨h.maxSize_eq, h.elasticity_eq, h.unbounded, Lib.forget_mono h.recent, Lib.forget_nodup h.distinct, ?_, ?_⟩
      · change Lib.valueIn (Lib.forget k u.keys) = _
        rw [Lib.valueIn_forget, h.values]
        rfl
      · exact fun hmax => Lib.length_forget_le.trans_lt (h.room hmax)
  | clear =>
      cases hok
      refine ⟨_, rfl, ⟨h.maxSize_eq, h.elasticity_eq, h.unbounded, List.prefix_refl _, List.nodup_nil, rfl, fun _ => ?_⟩,
        fun _ _ => .inl rfl⟩
      change 0 < maxSize + max 1 elasticity
      omega

theorem bounded_empty : Bounded maxSize elasticity (fun _ => none) (⟨[], maxSize, elasticity⟩ : Cache K V)
    ⟨[], 0, elasticity⟩ :=
  ⟨rfl, rfl, rfl, List.prefix_refl _, List.nodup_nil, rfl, fun _ => show 0 < maxSize + max 1 elasticity by omega⟩

/-- The calls of a run, on both caches. -/
theorem run_bounded (calls : List (CacheCall K V)) :
    Lib.Returns (fun c => ∃ u, calls.foldlM Cache.call ⟨[], 0, elasticity⟩ = .ok u ∧
        Bounded maxSize elasticity (calls.foldl CacheCall.effect fun _ => none) c u ∧
        ((∀ k, .remove k ∉ calls) → Full maxSize c u))
      (calls.foldlM Cache.call ⟨[], maxSize, elasticity⟩) := by
  refine Lib.Returns.foldlM_prefix (I := fun pre c => ∃ u, pre.foldlM Cache.call ⟨[], 0, elasticity⟩ = .ok u ∧
    Bounded maxSize elasticity (pre.foldl CacheCall.effect fun _ => none) c u ∧
    ((∀ k, .remove k ∉ pre) → Full maxSize c u)) calls ⟨_, rfl, bounded_empty, fun _ => .inl rfl⟩ ?_
  rintro pre a post c - ⟨u, hu, h, hfull⟩ c' hok
  obtain ⟨u', hu', h', hfull'⟩ := h.call hok
  refine ⟨u', ?_, ?_, fun hnot => hfull' (fun k hk => hnot k ?_) (hfull fun k hk => hnot k ?_)⟩
  · rw [List.foldlM_append, hu]
    exact Lib.bind_eq_ok.mpr ⟨u, rfl, Lib.bind_eq_ok.mpr ⟨u', hu', rfl⟩⟩
  · rwa [List.foldl_append]
  · rw [hk]
    exact List.mem_append_right _ List.mem_cons_self
  · exact List.mem_append_left _ hk

/-- **Every run of a cache** from an empty one. Its keys are the first, in the order of their last use, of those that a
    cache without bounds has; it stays below its hard limit; what it finds is what the key was given last. If no key is
    removed, the `maxSize` keys that were used last are all there. -/
theorem cache_run {calls : List (CacheCall K V)} (hrun : calls.foldlM Cache.call ⟨[], maxSize, elasticity⟩ = .ok c) :
    ∃ u, calls.foldlM Cache.call ⟨[], 0, elasticity⟩ = .ok u ∧ c.keys <+: u.keys ∧ (u.keys.map Prod.fst).Nodup ∧
      (∀ k v, Lib.valueIn c.keys k = some v → calls.foldl CacheCall.effect (fun _ => none) k = some v) ∧
      (maxSize ≠ 0 → c.keys.length < maxSize + max 1 elasticity) ∧
      ((∀ k, .remove k ∉ calls) → u.keys.take maxSize <+: c.keys) := by
  obtain ⟨u, hu, h, hfull⟩ := run_bounded calls c hrun
  refine ⟨u, hu, h.recent, h.distinct, fun k v hk => ?_, h.room, fun hnot => ?_⟩
  · rw [← h.values]
    exact Lib.valueIn_mono h.recent hk
  · rcases hfull hnot with heq | hle
    · rw [heq]
      exact List.take_prefix _ _
    · -- both are in front of the unbounded cache, and the cache is the longer one
      have hfirst : u.keys.take maxSize <+: u.keys := List.take_prefix _ _
      refine List.prefix_of_prefix_length_le hfirst h.recent ?_
      rw [List.length_take]
      omega

/-- Room for two pairs: key 7 is used again, and key 9 is the one that is dropped. -/
theorem cache_run_three : ∃ c : Cache Nat Nat,
    [.insert 9 1, .insert 7 2, .get 7, .insert 5 3].foldlM Cache.call ⟨[], 2, 0⟩ = .ok c ∧ c.keys = [(5, 3), (7, 2)] ∧
    ∀ k v, Lib.valueIn c.keys k = some v →
      [CacheCall.insert 9 1, .insert 7 2, .get 7, .insert 5 3].foldl CacheCall.effect (fun _ => none) k = some v := by
  obtain ⟨c, hrun, hc⟩ := Lib.exists_of_passes (p := fun c : Cache Nat Nat => decide (c.keys = [(5, 3), (7, 2)]))
    (x := [.insert 9 1, .insert 7 2, .get 7, .insert 5 3].foldlM Cache.call ⟨[], 2, 0⟩) (by decide)
  obtain ⟨u, -, -, -, hvalues, -⟩ := cache_run hrun
  exact ⟨c, hrun, of_decide_eq_true hc, hvalues⟩

end Cache

/-! ## The cache of the RDMA server -/

section Server

variable {H : HashFn} {s s' : RdmaServer} {req : Request}

/-- A request diverts one pair to the cache, or leaves it alone. -/
theorem Effect.lruCache (h : Effect H s req s') :
    s'.lruCache = s.lruCache ∨ ∃ k v, s'.lruCache = s.lruCache.insert k v := by
  cases h with
  | read | insert | rewrite | reseed | update | erase | absent => exact .inl rfl
  | collide | overflow | miss => exact .inr ⟨_, _, rfl⟩

/-- **The cache of the server**, after any requests: the pairs that were diverted to it one after the other, at most 2057 of
    them and none twice. -/
theorem reached_cache {existKeys : List U64} {C : RdmaServer → Request → Prop} (h : RdmaReachedFrom H existKeys C s) :
    ∃ diverted : List (U64 × U64),
      (diverted.map fun p => CacheCall.insert p.1 p.2).foldlM Cache.call ⟨[], 2048, 10⟩ = .ok s.lruCache ∧
      s.lruCache.keys.length ≤ 2057 ∧ (s.lruCache.keys.map Prod.fst).Nodup := by
  obtain ⟨cp, alien, mem, s₀, -, hok, hrun⟩ := h
  obtain ⟨packed, -, hs₀⟩ := Lib.bind_eq_ok.mp hok
  cases hs₀
  obtain ⟨diverted, hcache⟩ : ∃ diverted : List (U64 × U64),
      (diverted.map fun p => CacheCall.insert p.1 p.2).foldlM Cache.call ⟨[], 2048, 10⟩ = .ok s.lruCache := by
    refine hrun.invariant (P := fun s => ∃ diverted : List (U64 × U64),
      (diverted.map fun p => CacheCall.insert p.1 p.2).foldlM Cache.call ⟨[], 2048, 10⟩ = .ok s.lruCache) ⟨[], rfl⟩ ?_
    rintro t req t' ⟨diverted, hcache⟩ - hstep
    rcases (step_effect hstep).lruCache with hsame | ⟨k, v, hinsert⟩
    · exact ⟨diverted, hsame ▸ hcache⟩
    · refine ⟨diverted ++ [(k, v)], ?_⟩
      rw [List.map_append, List.foldlM_append, hcache, hinsert]
      rfl
  obtain ⟨u, -, hbounded, -⟩ := Cache.run_bounded _ _ hcache
  exact ⟨diverted, hcache, Nat.le_of_lt_succ (hbounded.room (by decide)), hbounded.distinct_own⟩

/-- An update of key 9 at the slot of key 7 goes to the cache. -/
theorem reached_cache_nine : ∃ (s : RdmaServer) (diverted : List (U64 × U64)),
    RdmaReachedFrom fastHasher64 [7] Lib.anyStep s ∧ s.lruCache.keys = [(9, 5)] ∧
    (diverted.map fun p => CacheCall.insert p.1 p.2).foldlM Cache.call ⟨[], 2048, 10⟩ = .ok s.lruCache := by
  obtain ⟨s, hrun, hs⟩ : ∃ s, Lib.Reaches (RdmaServer.step fastHasher64) Lib.anyStep (rowServer 423 0 [7]) s ∧
      decide (s.lruCache.keys = [(9, 5)]) = true := Lib.exists_along [.update 1692 9 5] (by decide +kernel)
  obtain ⟨cp, alien, mem, s₀, hld, hok, hrun₀⟩ := rowServer_seven Lib.anyStep
  have h : RdmaReachedFrom fastHasher64 [7] Lib.anyStep s := ⟨cp, alien, mem, s₀, hld, hok, hrun₀.trans hrun⟩
  obtain ⟨diverted, hcache, -, -⟩ := reached_cache h
  exact ⟨s, diverted, h, of_decide_eq_true hs, hcache⟩

end Server

end Outback
