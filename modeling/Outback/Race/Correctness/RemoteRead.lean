import Outback.Lib.Partial
import Outback.Race.Correctness.Placement

/-!
# `Race.Correctness.RemoteRead` — which inserted entries a remote read covers

`insert` goes on from the first candidate to the second and then to the spare buckets of both, while
`remote_lookup` returns the byte range of the first candidate and its spare bucket; the second range is a
`TODO` of the source. `insert_covered_iff` says for every table which inserts end up inside the range: those
that stop at the first candidate, and those that reach its spare bucket.

Four keys with candidates 0 and 2 (`fourKeys`) fill bucket 0, so that a fifth one goes to bucket 2 while its read
covers buckets 0 and 1 (`fifth_not_covered`).
-/

namespace Outback.Race

open RaceHashTable

variable {t u : RaceHashTable} {e : Entry}

/-- Bucket `b` received an entry. -/
def Received (t u : RaceHashTable) (b : Nat) : Prop :=
  ∃ slot, (t.bucket b).taken slot = false ∧ (u.bucket b).taken slot = true

/-- The 64 bytes of bucket `b` are inside the range of `remote_lookup(key)`. -/
def Covers (t : RaceHashTable) (key : U64) (b : Nat) : Prop :=
  ∃ start size, t.remoteLookup key = .ok (start, size) ∧
    start.toNat ≤ b * 64 ∧ b * 64 + 64 ≤ start.toNat + size.toNat

/-- `insert` stops at the first candidate, or goes past both candidates and stops at the first one's spare
    bucket. -/
def StopsInRange (t : RaceHashTable) (key : U64) : Prop :=
  ¬ (t.bucket (candidates t.nsize key).1.toNat).Full ∨
    (t.bucket (candidates t.nsize key).2.toNat).Full ∧
      ¬ (t.bucket (spareOf t.nsize (candidates t.nsize key).1).toNat).Full

instance (t : RaceHashTable) (key : U64) : Decidable (StopsInRange t key) := inferInstanceAs (Decidable (_ ∨ _ ∧ _))

/-- A store makes its own bucket the one that received an entry. -/
theorem received_store_iff {b b' : Nat} {slot : Slot} (hb : b < t.nsize.toNat)
    (hfree : (t.bucket b).freeSlot = some slot) : Received t (t.store b slot e) b' ↔ b' = b := by
  have hst : Stores t (t.store b slot e) e b slot := stores_store hb hfree
  constructor
  · rintro ⟨s, hclear, htaken⟩
    by_contra hne
    rw [hst.otherBuckets b' hne, hclear] at htaken
    cases htaken
  · rintro rfl
    refine ⟨slot, hst.clear, ?_⟩
    rw [CuckooBucket.taken_eq, hst.occupied]
    simp

section Covered

variable (hn : 2 ≤ t.nsize.toNat)

include hn

/-- The range holds the first candidate and its spare bucket and no other. -/
theorem covers_iff {key : U64} {b : Nat} :
    Covers t key b ↔ b = (candidates t.nsize key).1.toNat ∨
      b = (spareOf t.nsize (candidates t.nsize key).1).toNat := by
  obtain ⟨h, hh, hfirst⟩ := first_eq hn key
  obtain ⟨start, size, hread, hstart, hlen⟩ := remoteLookup_eq hn hh hfirst
  rw [hfirst, hashToCuckooIndex_toNat hh, spareOf_toNat hh]
  constructor
  · rintro ⟨start', size', hread', hle, hge⟩
    rw [hread] at hread'
    cases hread'
    omega
  · intro hb
    refine ⟨start, size, hread, ?_⟩
    omega

/-- No candidate is a spare bucket. -/
theorem candidate_ne_spare (key : U64) :
    (candidates t.nsize key).2.toNat ≠ (spareOf t.nsize (candidates t.nsize key).1).toNat := by
  obtain ⟨h, hh, hfirst⟩ := first_eq hn key
  have hsecond : (candidates t.nsize key).2 = hashToCuckooIndex t.nsize _ := rfl
  rw [hfirst, hsecond, spareOf_toNat hh, hashToCuckooIndex_toNat (number_lt hn _)]
  omega

/-- **What a remote read covers.** The bucket that an insert stored to is inside the range of the key's remote
    read exactly when the insert stopped at the first candidate or at its spare bucket. -/
theorem insert_covered_iff (hins : t.insert e = .ok (u, true)) :
    (∀ b, Received t u b → Covers t e.key b) ↔ StopsInRange t e.key := by
  obtain ⟨done, b, rest, slot, hsplit, hdone, hfree, hu⟩ :
      ∃ done b rest slot, bucketsOf t.nsize e.key = done ++ b :: rest ∧
        (∀ d ∈ done, (t.bucket d.toNat).Full) ∧ (t.bucket b.toNat).freeSlot = some slot ∧
        u = t.store b.toNat slot e := by
    rcases insert_cases hn e with ⟨hins', -⟩ | ⟨done, b, rest, slot, hsplit, hdone, hfree, hins'⟩
    · rw [hins] at hins'
      cases hins'
    · rw [hins] at hins'
      cases hins'
      exact ⟨done, b, rest, slot, hsplit, hdone, hfree, rfl⟩
  subst hu
  have hb : b.toNat < t.nsize.toNat := bucketsOf_lt hn e.key b (by simp [hsplit])
  have hroom : ¬ (t.bucket b.toNat).Full := by
    rw [← CuckooBucket.freeSlot_eq_none, hfree]
    simp
  have hcov : (∀ b', Received t (t.store b.toNat slot e) b' → Covers t e.key b') ↔ Covers t e.key b.toNat := by
    simp [received_store_iff hb hfree]
  rw [hcov, covers_iff hn, StopsInRange]
  have hne := candidate_ne_spare hn e.key
  unfold bucketsOf at hsplit
  generalize candidates t.nsize e.key = c at hsplit hne ⊢
  -- a bucket that is full cannot be the one that was not
  have hsame {d : U64} (hfull : (t.bucket d.toNat).Full) : b.toNat ≠ d.toNat := by
    intro heq
    exact hroom (heq ▸ hfull)
  match done, hdone, hsplit with
  | [], _, hsplit =>
      injection hsplit with hb1 _
      subst hb1
      exact ⟨fun _ => .inl hroom, fun _ => .inl rfl⟩
  | [_], hdone, hsplit =>
      injection hsplit with hd1 hrest
      injection hrest with hb2 _
      subst hd1 hb2
      have hfull1 := hdone _ List.mem_cons_self
      constructor
      · rintro (heq | heq)
        · exact absurd heq (hsame hfull1)
        · exact absurd heq hne
      · rintro (hnot | ⟨hfull2, -⟩)
        · exact absurd hfull1 hnot
        · exact absurd hfull2 hroom
  | [_, _], hdone, hsplit =>
      injection hsplit with hd1 hrest
      injection hrest with hd2 hrest
      injection hrest with hb3 _
      subst hd1 hd2 hb3
      exact ⟨fun _ => .inr ⟨hdone _ (by simp), hroom⟩, fun _ => .inr rfl⟩
  | _ :: _ :: d3 :: more, hdone, hsplit =>
      injection hsplit with hd1 hrest
      injection hrest with hd2 hrest
      injection hrest with hd3 hrest
      subst hd1 hd2 hd3
      have hfull1 := hdone _ List.mem_cons_self
      have hfull3 := hdone (spareOf t.nsize c.1) (by simp)
      constructor
      · rintro (heq | heq)
        · exact absurd heq (hsame hfull1)
        · exact absurd heq (hsame hfull3)
      · rintro (hnot | ⟨-, hnot⟩)
        · exact absurd hfull1 hnot
        · exact absurd hfull3 hnot

end Covered

/-! ## A full first candidate -/

/-- Four keys with candidates 0 and 2. -/
def fourKeys : List Entry := [⟨0, 0, 16⟩, ⟨2, 1, 16⟩, ⟨3, 2, 16⟩, ⟨4, 3, 16⟩]

/-- A fifth one. -/
def fifthKey : Entry := ⟨6, 4, 16⟩

/-- The bucket that received the fifth key is not covered. -/
theorem fifth_not_covered : ∃ t u, fourBuckets.inserts fourKeys = .ok t ∧ 2 ≤ t.nsize.toNat ∧
    t.insert fifthKey = .ok (u, true) ∧ Received t u 2 ∧ ¬ Covers t fifthKey.key 2 := by
  -- the read starts at bucket 0 and is two buckets long
  obtain ⟨t, ht, hrun⟩ := Lib.exists_of_passes (x := fourBuckets.inserts fourKeys)
    (p := fun t : RaceHashTable => decide (2 ≤ t.nsize.toNat) &&
      Lib.passes (fun r => r.2 && !(t.bucket 2).taken 0 && (r.1.bucket 2).taken 0) (t.insert fifthKey) &&
      Lib.passes (fun r => decide (r = (0, 128))) (t.remoteLookup fifthKey.key)) (by decide +kernel)
  simp only [Bool.and_eq_true, decide_eq_true_eq] at hrun
  obtain ⟨⟨hn, hins⟩, hread⟩ := hrun
  obtain ⟨⟨u, stored⟩, hu, hstored⟩ := Lib.exists_of_passes hins
  simp only [Bool.and_eq_true, Bool.not_eq_true'] at hstored
  obtain ⟨⟨rfl, hclear⟩, htaken⟩ := hstored
  obtain ⟨⟨start, size⟩, hlook, hrange⟩ := Lib.exists_of_passes hread
  refine ⟨t, u, ht, hn, hu, ⟨0, hclear, htaken⟩, ?_⟩
  rintro ⟨start', size', hlook', -, hle⟩
  rw [hlook] at hlook'
  cases hlook'
  obtain ⟨rfl, rfl⟩ := Prod.mk.inj (of_decide_eq_true hrange)
  exact absurd hle (by decide)

/-- Behind three of the keys the fourth one stops at bucket 0, and its read covers what it wrote; behind all four the fifth
    does not. -/
theorem insert_covered_fourth : ∃ t u v, fourBuckets.inserts (fourKeys.take 3) = .ok t ∧
    t.insert ⟨4, 3, 16⟩ = .ok (u, true) ∧ (∀ b, Received t u b → Covers t 4 b) ∧
    u.insert fifthKey = .ok (v, true) ∧ ¬ ∀ b, Received u v b → Covers u fifthKey.key b := by
  obtain ⟨t, ht, hrun⟩ := Lib.exists_of_passes (x := fourBuckets.inserts (fourKeys.take 3))
    (p := fun t : RaceHashTable => decide (2 ≤ t.nsize.toNat ∧ StopsInRange t 4) &&
      Lib.passes (fun r : RaceHashTable × Bool => r.2 &&
          decide (2 ≤ r.1.nsize.toNat ∧ ¬ StopsInRange r.1 fifthKey.key) &&
        Lib.passes Prod.snd (r.1.insert fifthKey)) (t.insert ⟨4, 3, 16⟩)) (by decide +kernel)
  rw [Bool.and_eq_true, decide_eq_true_eq] at hrun
  obtain ⟨⟨hn, hstops⟩, hins⟩ := hrun
  obtain ⟨⟨u, stored⟩, hu, hins'⟩ := Lib.exists_of_passes hins
  simp only [Bool.and_eq_true, decide_eq_true_eq] at hins'
  obtain ⟨⟨rfl, hn', hpast⟩, hins'⟩ := hins'
  obtain ⟨⟨v, stored'⟩, hv, rfl⟩ := Lib.exists_of_passes hins'
  exact ⟨t, u, v, ht, hu, (insert_covered_iff hn hu).mpr hstops, hv, fun hcovers =>
    hpast ((insert_covered_iff hn' hv).mp hcovers)⟩

end Outback.Race
