import Outback.Lib.Reach
import Outback.Othello.Correctness.Mirror

/-!
# `Othello.Correctness.Calls` — every run of an Othello and its data plane

`OthelloPair` is a control plane with the data plane that follows it, and `call` one call on the two. Whatever the calls, the
seeds that `rand()` gives and the hash, the control plane stays built, the data plane mirrors it (`reached_paired`), and each
call changes the map as its name says (**`reached_refines`**). The calls that do not rebuild return
(**`direct_call_returns`**).
-/

namespace Outback

/-- The calls that change an Othello. -/
inductive OthelloCall
  | insert (depth : Nat) (k v : U64) (doNotRebuild : Bool)
  | changeValue (k v : U64)
  | remove (k : U64)
  | resizeCapacity (depth targetCapacity : Nat) (forceBuild : Bool)

/-- A control plane, the data plane that follows it, and the number of `rand()` calls made. -/
structure OthelloPair where
  cp : ControlPlaneOthello
  dp : DataPlaneOthello
  calls : Nat

namespace OthelloPair

section Call

variable (H : HashFn) (L : Nat) (rand : Nat → U64)

/-- One call, which the data plane follows. -/
def call (s : OthelloPair) : OthelloCall → LudoExec OthelloPair
  | .insert depth k v doNotRebuild => do
      let r ← s.cp.insert H L rand depth s.calls k v doNotRebuild
      .ok ⟨r.2.1, s.dp.follow L r.1 r.2.1, r.2.2⟩
  | .changeValue k v => do
      let r ← s.cp.changeValue H L k v
      .ok ⟨r.2, s.dp.follow L r.1 r.2, s.calls⟩
  | .remove k => do
      let r ← s.cp.remove H L k
      .ok ⟨r.2, s.dp.follow L r.1 r.2, s.calls⟩
  | .resizeCapacity depth targetCapacity forceBuild => do
      let r ← s.cp.resizeCapacity H L rand depth s.calls targetCapacity forceBuild
      .ok ⟨r.1, s.dp.fullSync r.1, r.2⟩

/-- `ControlPlaneOthello(keyCapacity, compact, keys, values)` and `DataPlaneOthello(cp)`. -/
def make (depth n keyCapacity : Nat) (compact : Bool) (keys values : List U64) : LudoExec OthelloPair := do
  let r ← ControlPlaneOthello.construct H L rand depth n keyCapacity compact keys values
  .ok ⟨r.1, .ofControlPlane r.1, r.2⟩

end Call

/-- What a call makes of the map: the key is inserted unless a rebuild was needed and not allowed. -/
def MapAfter (L : Nat) (m m' : U64 → Option U64) : OthelloCall → Prop
  | .insert _ k v doNotRebuild =>
      m' = Function.update m k (some (v &&& lowMask L)) ∨ (doNotRebuild = true ∧ m k = none ∧ m' = m)
  | .changeValue k v => (m k).isSome ∧ m' = Function.update m k (some (v &&& lowMask L))
  | .remove k => m' = Function.update m k none
  | .resizeCapacity _ _ _ => m' = m

/-- The control plane is built, and the data plane mirrors it. -/
structure Paired (H : HashFn) (L : Nat) (s : OthelloPair) : Prop where
  built : s.cp.Built H L
  mirrors : s.dp.Mirrors L s.cp

variable {H : HashFn} {L : Nat} {rand : Nat → U64} {s₀ s s' : OthelloPair} {k v : U64}

/-- **One call** keeps the pair and changes the map as it says. -/
theorem Paired.call_spec (h : s.Paired H L) (hL : L ≤ 32) (a : OthelloCall) :
    Lib.Returns (fun s' => s'.Paired H L ∧ MapAfter L (s.cp.toMap L) (s'.cp.toMap L) a) (s.call H L rand a) := by
  have hL' : L ≤ 60 := hL.trans (by decide)
  cases a with
  | insert depth k v doNotRebuild =>
      refine (h.built.insert_spec hL').bind ?_
      rintro r ⟨hins, hstatus⟩
      refine Lib.Returns.ok ⟨⟨hins.built, h.mirrors.follow hL hins.followed⟩, ?_⟩
      by_cases hneg : r.1.status < 0
      · obtain ⟨hsame, hnone⟩ := hins.unchanged hneg
        refine .inr ⟨?_, hnone, hsame⟩
        by_contra hrebuild
        exact absurd (hstatus (by simpa using hrebuild)) (not_le.mpr hneg)
      · exact .inl (hins.toMap (not_lt.mp hneg))
  | changeValue k v =>
      intro s' hs'
      obtain ⟨r, hr, hs'⟩ := Lib.bind_eq_ok.mp hs'
      by_cases hmem : s.cp.isMember H k = true
      · obtain ⟨_, hok, -, hbuilt, -, hmap, -, hfollowed⟩ := h.built.changeValue_spec hL' hmem v
        obtain rfl := Except.ok.inj (hok.symm.trans hr)
        cases hs'
        refine ⟨⟨hbuilt, h.mirrors.follow hL fun _ => hfollowed⟩, ?_, hmap⟩
        rw [← h.built.isMember_eq]
        exact hmem
      · rw [ControlPlaneOthello.changeValue, if_pos hmem] at hr
        cases hr
  | remove k =>
      intro s' hs'
      obtain ⟨r, hr, hs'⟩ := Lib.bind_eq_ok.mp hs'
      obtain ⟨_, hok, hbuilt, hmap, -, -, hfollowed⟩ := h.built.remove_spec hL' k
      obtain rfl := Except.ok.inj (hok.symm.trans hr)
      cases hs'
      exact ⟨⟨hbuilt, h.mirrors.follow hL fun _ => hfollowed⟩, hmap⟩
  | resizeCapacity depth targetCapacity forceBuild =>
      have hsound : s.cp.Sound H L forceBuild :=
        ⟨h.built.size_le, h.built.sized.keys_lt, .inr ⟨h.built.sized, .inr h.built⟩⟩
      refine (hsound.resizeCapacity_spec hL').bind ?_
      rintro r ⟨hbuilt, hsame⟩
      exact Lib.Returns.ok ⟨⟨hbuilt, h.mirrors.fullSync r.1⟩, hsame.toMap_eq h.built.distinct hbuilt.distinct⟩

/-! ## Which calls return -/

/-- A call that does not rebuild the control plane. -/
def Direct (H : HashFn) (s : OthelloPair) : OthelloCall → Prop
  | .insert depth k _ doNotRebuild => 0 < depth ∧ (doNotRebuild = true ∨ s.cp.Takes H k)
  | .changeValue k _ => s.cp.isMember H k = true
  | .remove _ => True
  | .resizeCapacity _ _ _ => False

/-- **The calls that do not rebuild return**: their searches end, and none of them asks an absent key. -/
theorem Paired.call_returns (h : s.Paired H L) (hL : L ≤ 32) {a : OthelloCall} (ha : s.Direct H a) :
    ∃ s', s.call H L rand a = .ok s' := by
  have hL' : L ≤ 60 := hL.trans (by decide)
  cases a with
  | insert depth k v doNotRebuild =>
      obtain ⟨hdepth, hdirect⟩ := ha
      obtain ⟨depth, rfl⟩ : ∃ d, depth = d + 1 := ⟨depth - 1, by omega⟩
      have hok : ∃ r, s.cp.insert H L rand (depth + 1) s.calls k v doNotRebuild = .ok r := by
        by_cases htakes : s.cp.Takes H k
        · obtain ⟨r, hok, -⟩ := h.built.insert_taken hL' htakes rand v depth s.calls doNotRebuild
          exact ⟨r, hok⟩
        · obtain rfl := hdirect.resolve_right htakes
          obtain ⟨r, hok, -⟩ := h.built.insert_refused htakes rand v depth s.calls
          exact ⟨r, hok⟩
      obtain ⟨r, hok⟩ := hok
      exact ⟨_, Lib.bind_eq_ok.mpr ⟨r, hok, rfl⟩⟩
  | changeValue k v =>
      obtain ⟨r, hok, -⟩ := h.built.changeValue_spec hL' ha v
      exact ⟨_, Lib.bind_eq_ok.mpr ⟨r, hok, rfl⟩⟩
  | remove k =>
      obtain ⟨r, hok, -⟩ := h.built.remove_spec hL' k
      exact ⟨_, Lib.bind_eq_ok.mpr ⟨r, hok, rfl⟩⟩
  | resizeCapacity _ _ _ => exact absurd ha id

/-! ## Runs -/

/-- **The first pair**: it has the keys that it is made of, with their values, and no others. -/
theorem make_spec (hL : L ≤ 60) {depth n keyCapacity : Nat} {compact : Bool} {keys values : List U64}
    (hcapacity : keyCapacity < 2 ^ 32) :
    Lib.Returns (fun s => s.Paired H L ∧
        (∀ i < min (min keys.length values.length) keyCapacity,
          s.cp.toMap L (keys.getD i 0) = some (values.getD i 0 &&& lowMask L)) ∧
        ∀ k, k ∉ keys.take (min (min keys.length values.length) keyCapacity) → s.cp.toMap L k = none)
      (make H L rand depth n keyCapacity compact keys values) := by
  refine (ControlPlaneOthello.construct_spec hL hcapacity).bind ?_
  rintro r ⟨hbuilt, hsize, hcontent⟩
  refine Lib.Returns.ok ⟨⟨hbuilt, DataPlaneOthello.mirrors_of_copy L r.1⟩, fun i hi => ?_, fun k hk => ?_⟩
  · have hmap := hbuilt.distinct.toMap_key (L := L) (hsize ▸ hi)
    rwa [(hcontent i hi).1, (hcontent i hi).2] at hmap
  · refine ControlPlaneOthello.toMap_eq_none fun i hi heq => hk ?_
    rw [hsize] at hi
    have hlength : i < (keys.take (min (min keys.length values.length) keyCapacity)).length := by
      rw [List.length_take]
      omega
    rw [← heq, (hcontent i hi).1, ← ControlPlaneOthello.getD_take hi, List.getD_eq_getElem _ _ hlength]
    exact List.getElem_mem hlength

variable {depth n keyCapacity : Nat} {compact : Bool} {keys values : List U64}

theorem reached_paired (hL : L ≤ 32) (hcapacity : keyCapacity < 2 ^ 32)
    (hmake : make H L rand depth n keyCapacity compact keys values = .ok s₀)
    (hrun : Lib.Reaches (call H L rand) Lib.anyStep s₀ s) : s.Paired H L := by
  refine hrun.invariant (P := Paired H L) (make_spec (hL.trans (by decide)) hcapacity s₀ hmake).1 ?_
  intro s a s' h _ hs'
  exact (h.call_spec hL a s' hs').1

/-- **Every run of an Othello**: in every state that calls lead to, the members are the keys of the map, both planes give
    every member its value, and the next call, if it returns, changes the map as it says. -/
theorem reached_refines (hL : L ≤ 32) (hcapacity : keyCapacity < 2 ^ 32)
    (hmake : make H L rand depth n keyCapacity compact keys values = .ok s₀)
    (hrun : Lib.Reaches (call H L rand) Lib.anyStep s₀ s) :
    (∀ k, s.cp.isMember H k = (s.cp.toMap L k).isSome) ∧
      (∀ k v, s.cp.toMap L k = some v → s.cp.lookUp H L k = v ∧ s.dp.lookUp H L k = .ok v) ∧
      ∀ a s', s.call H L rand a = .ok s' → MapAfter L (s.cp.toMap L) (s'.cp.toMap L) a := by
  have h := reached_paired hL hcapacity hmake hrun
  refine ⟨h.built.isMember_eq, fun k v hk => ⟨h.built.lookUp_eq hk, h.mirrors.lookUp_eq h.built hk⟩, fun a s' hs' => ?_⟩
  exact (h.call_spec hL a s' hs').2

theorem reached_refines_run : ∃ s₀ s : OthelloPair, make fastHasher64 4 (fun i => BitVec.ofNat 64 i) 1 0 1 true [7] [5] = .ok s₀ ∧
    Lib.Reaches (call fastHasher64 4 fun i => BitVec.ofNat 64 i) Lib.anyStep s₀ s ∧
    ∀ k v, s.cp.toMap 4 k = some v → s.cp.lookUp fastHasher64 4 k = v ∧ s.dp.lookUp fastHasher64 4 k = .ok v := by
  obtain ⟨s₀, hmake, hrun⟩ := Lib.exists_of_passes
    (x := make fastHasher64 4 (fun i => BitVec.ofNat 64 i) 1 0 1 true [7] [5])
    (p := fun s₀ => (Lib.runAlong (call fastHasher64 4 fun i => BitVec.ofNat 64 i) Lib.anyStep
      [.insert 1 9 3 true, .changeValue 9 12, .remove 7] s₀).isSome) (by decide +kernel)
  obtain ⟨s, hs⟩ := Option.isSome_iff_exists.mp hrun
  exact ⟨s₀, s, hmake, .along hs, (reached_refines (by decide) (by decide) hmake (.along hs)).2.1⟩

/-- **The calls that do not rebuild return**, in every state that calls lead to. -/
theorem direct_call_returns (hL : L ≤ 32) (hcapacity : keyCapacity < 2 ^ 32)
    (hmake : make H L rand depth n keyCapacity compact keys values = .ok s₀)
    (hrun : Lib.Reaches (call H L rand) Lib.anyStep s₀ s) {a : OthelloCall} (ha : s.Direct H a) :
    ∃ s', s.call H L rand a = .ok s' :=
  (reached_paired hL hcapacity hmake hrun).call_returns hL ha

theorem direct_call_returns_run : ∃ s₀ s s' : OthelloPair,
    make fastHasher64 4 (fun i => BitVec.ofNat 64 i) 1 0 1 true [7] [5] = .ok s₀ ∧
    Lib.Reaches (call fastHasher64 4 fun i => BitVec.ofNat 64 i) Lib.anyStep s₀ s ∧
    s.call fastHasher64 4 (fun i => BitVec.ofNat 64 i) (.remove 9) = .ok s' := by
  obtain ⟨s₀, hmake, hrun⟩ := Lib.exists_of_passes
    (x := make fastHasher64 4 (fun i => BitVec.ofNat 64 i) 1 0 1 true [7] [5])
    (p := fun s₀ => (Lib.runAlong (call fastHasher64 4 fun i => BitVec.ofNat 64 i) Lib.anyStep
      [.insert 1 9 3 true] s₀).isSome) (by decide +kernel)
  obtain ⟨s, hs⟩ := Option.isSome_iff_exists.mp hrun
  obtain ⟨s', hs'⟩ := direct_call_returns (a := .remove 9) (by decide) (by decide) hmake (.along hs) trivial
  exact ⟨s₀, s, s', hmake, .along hs, hs'⟩

end OthelloPair

end Outback
