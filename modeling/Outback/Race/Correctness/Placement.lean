import Outback.Race.Table

/-!
# `Race.Correctness.Placement` — where a key may lie, and what one insert does

The index arithmetic first: below `msize` the odd and the even case of `hash_to_cuckoo_index` are the one
formula `3 * (h / 2) + 2 * (h % 2)` (`hashToCuckooIndex_toNat`), neither clamp is taken, and the spare bucket
is `3 * (h / 2) + 1` (`spareBucket_toNat`). Everything about positions follows from these two.

Then the loops: `tryBuckets` either finds all its buckets full or stores one entry (`tryBuckets_cases`), and an
insert of the whole table is one of the two (`insert_cases`). `Stores` says what one stored entry changes.
-/

namespace Outback.Race

/-! ## Index arithmetic -/

section Index

variable {nsize h : U64}

theorem msize_toNat : (msize nsize).toNat = nsize.toNat * 2 % 2 ^ 64 / 3 := by
  simp [msize, BitVec.toNat_udiv, BitVec.toNat_mul]

/-- Two thirds of the table, also where `nsize * 2` wraps. -/
theorem three_mul_msize_le (hh : h.toNat < (msize nsize).toNat) : 3 * h.toNat + 3 ≤ 2 * nsize.toNat := by
  have hn : nsize.toNat < 2 ^ 64 := nsize.isLt
  rw [msize_toNat] at hh
  omega

theorem odd_iff : (h &&& 1#64 ≠ 0) ↔ h.toNat % 2 = 1 := by
  rw [ne_eq, BitVec.toNat_eq, BitVec.toNat_and, show (1#64).toNat = 2 ^ 1 - 1 from rfl,
    Nat.and_two_pow_sub_one_eq_mod]
  simp

theorem three_mul_toNat {q : U64} (hq : 3 * q.toNat < 2 ^ 64) : (3 * q).toNat = 3 * q.toNat := by
  bv_omega

theorem three_mul_succ_toNat {q : U64} (hq : 3 * q.toNat + 3 < 2 ^ 64) :
    (3 * (q + 1) - 1).toNat = 3 * q.toNat + 2 := by
  bv_omega

theorem half_toNat : (h / 2).toNat = h.toNat / 2 := by simp [BitVec.toNat_udiv]

/-- The odd case is positive as it stands. -/
theorem odd_index_toNat (hh : h.toNat < (msize nsize).toNat) :
    (3 * (h / 2 + 1) - 1).toNat = 3 * (h.toNat / 2) + 2 := by
  have hn : nsize.toNat < 2 ^ 64 := nsize.isLt
  have hle := three_mul_msize_le hh
  have hhalf := half_toNat (h := h)
  rw [three_mul_succ_toNat (by omega), hhalf]

theorem even_index_toNat (hh : h.toNat < (msize nsize).toNat) : (3 * (h / 2)).toNat = 3 * (h.toNat / 2) := by
  have hn : nsize.toNat < 2 ^ 64 := nsize.isLt
  have hle := three_mul_msize_le hh
  have hhalf := half_toNat (h := h)
  rw [three_mul_toNat (by omega), hhalf]

theorem odd_index_pos (hh : h.toNat < (msize nsize).toNat) : 3 * (h / 2 + 1) - 1 > 0 := by
  rw [gt_iff_lt, BitVec.lt_def, odd_index_toNat hh]
  exact Nat.succ_pos _

/-- The even case stays below the last bucket. -/
theorem even_index_lt (hh : h.toNat < (msize nsize).toNat) (heven : ¬ h &&& 1#64 ≠ 0) :
    3 * (h / 2) < nsize - 1 := by
  have hle := three_mul_msize_le hh
  have hmod := mt odd_iff.mpr heven
  have hidx := even_index_toNat hh
  generalize 3 * (h / 2) = even at hidx
  clear heven
  bv_omega

/-- **Below `msize` no clamp is taken.** -/
theorem hashToCuckooIndex_toNat (hh : h.toNat < (msize nsize).toNat) :
    (hashToCuckooIndex nsize h).toNat = 3 * (h.toNat / 2) + 2 * (h.toNat % 2) := by
  unfold hashToCuckooIndex
  by_cases hodd : h &&& 1#64 ≠ 0
  · have hmod := odd_iff.mp hodd
    rw [if_pos hodd, if_pos (odd_index_pos hh), odd_index_toNat hh]
    omega
  · have hmod := mt odd_iff.mpr hodd
    rw [if_neg hodd, if_pos (even_index_lt hh hodd), even_index_toNat hh]
    omega

/-- A remainder modulo three is the one of the number. -/
theorem mod_three_eq {b r : U64} (hr : b.toNat % 3 = r.toNat) : b % 3 = r := by
  apply BitVec.eq_of_toNat_eq
  rw [BitVec.toNat_umod]
  exact hr

/-- A candidate lies in the table, and is not a spare bucket. -/
theorem hashToCuckooIndex_lt (hh : h.toNat < (msize nsize).toNat) :
    (hashToCuckooIndex nsize h).toNat < nsize.toNat := by
  have hle := three_mul_msize_le hh
  rw [hashToCuckooIndex_toNat hh]
  omega

theorem hashToCuckooIndex_mod (hh : h.toNat < (msize nsize).toNat) :
    hashToCuckooIndex nsize h % 3 = 0 ∨ hashToCuckooIndex nsize h % 3 = 2 := by
  have hidx := hashToCuckooIndex_toNat hh
  rcases Nat.mod_two_eq_zero_or_one h.toNat with heven | hodd
  · exact .inl (mod_three_eq (by rw [show (0 : U64).toNat = 0 from rfl]; omega))
  · exact .inr (mod_three_eq (by rw [show (2 : U64).toNat = 2 from rfl]; omega))

theorem hashToCuckooIndex_injective {h' : U64} (hh : h.toNat < (msize nsize).toNat)
    (hh' : h'.toNat < (msize nsize).toNat)
    (heq : hashToCuckooIndex nsize h = hashToCuckooIndex nsize h') : h = h' := by
  have hnat := congrArg BitVec.toNat heq
  rw [hashToCuckooIndex_toNat hh, hashToCuckooIndex_toNat hh'] at hnat
  apply BitVec.eq_of_toNat_eq
  omega

/-- **The spare bucket** of the candidates `3j` and `3j + 2` is `3j + 1`. -/
theorem spareBucket_toNat (hh : h.toNat < (msize nsize).toNat) :
    (spareBucket (hashToCuckooIndex nsize h)).toNat = 3 * (h.toNat / 2) + 1 := by
  have hle := three_mul_msize_le hh
  have hn : nsize.toNat < 2 ^ 64 := nsize.isLt
  have hidx := hashToCuckooIndex_toNat hh
  generalize hashToCuckooIndex nsize h = b at hidx
  unfold spareBucket
  rcases Nat.mod_two_eq_zero_or_one h.toNat with heven | hodd
  · have hzero : b % 3 = 0 := mod_three_eq (by rw [show (0 : U64).toNat = 0 from rfl]; omega)
    rw [if_pos hzero]
    bv_omega
  · have htwo : b % 3 = 2 := mod_three_eq (by rw [show (2 : U64).toNat = 2 from rfl]; omega)
    rw [if_neg (by rw [htwo]; decide), if_pos htwo]
    bv_omega

/-- The check for a spare bucket never fails: it is positive as an `int64_t` and lies in the table. -/
theorem spareInside_hashToCuckooIndex (hh : h.toNat < (msize nsize).toNat) :
    spareInside nsize (spareBucket (hashToCuckooIndex nsize h)) = true := by
  have hle := three_mul_msize_le hh
  have hn : nsize.toNat < 2 ^ 64 := nsize.isLt
  have hlt : 3 * h.toNat + 3 ≤ nsize.toNat * 2 % 2 ^ 64 := by
    rw [msize_toNat] at hh
    omega
  have hspare := spareBucket_toNat hh
  generalize spareBucket (hashToCuckooIndex nsize h) = spare at hspare
  rw [spareInside, Bool.and_eq_true, decide_eq_true_eq, BitVec.lt_def, BitVec.slt_iff_toInt_lt,
    BitVec.toInt_eq_toNat_of_lt (x := spare) (by omega)]
  constructor
  · simp only [BitVec.toInt_zero]
    omega
  · omega

theorem spareOf_toNat (hh : h.toNat < (msize nsize).toNat) :
    (spareOf nsize (hashToCuckooIndex nsize h)).toNat = 3 * (h.toNat / 2) + 1 := by
  rw [spareOf, if_pos (spareInside_hashToCuckooIndex hh), spareBucket_toNat hh]

end Index

/-! ## The loops -/

namespace RaceHashTable

variable {t u : RaceHashTable} {e : Entry}

/-- The buckets a key may lie in: its candidates and the spare bucket of each. -/
def bucketsOf (nsize key : U64) : List U64 :=
  [(candidates nsize key).1, (candidates nsize key).2, spareOf nsize (candidates nsize key).1,
    spareOf nsize (candidates nsize key).2]

/-- One entry was stored: a free slot of bucket `b` is taken now and holds the entry; all else is as before. -/
structure Stores (t u : RaceHashTable) (e : Entry) (b : Nat) (slot : Slot) : Prop where
  inside : b < t.nsize.toNat
  clear : (t.bucket b).taken slot = false
  occupied : ∀ i, (u.bucket b).occupied.getLsbD i = (decide (i = slot.val) || (t.bucket b).occupied.getLsbD i)
  stored : (u.bucket b).fps slot = fingerprint e.key ∧ (u.bucket b).addrs slot = e.addr ∧
    (u.bucket b).lens slot = e.len
  otherSlots : ∀ s, s ≠ slot → (u.bucket b).fps s = (t.bucket b).fps s ∧
    (u.bucket b).addrs s = (t.bucket b).addrs s ∧ (u.bucket b).lens s = (t.bucket b).lens s
  otherBuckets : ∀ b', b' ≠ b → u.bucket b' = t.bucket b'
  nsize_eq : u.nsize = t.nsize

theorem occupied_put (b : CuckooBucket) (slot : Slot) (e : Entry) (i : Nat) :
    (b.put slot e).occupied.getLsbD i = (decide (i = slot.val) || b.occupied.getLsbD i) := by
  have hbit : ∀ s : Slot, (1#8 <<< s.val).getLsbD i = decide (i = s.val) := by
    intro s
    rw [BitVec.getLsbD_shiftLeft, BitVec.getLsbD_one]
    have hs := s.isLt
    by_cases hi : i = s.val
    · subst hi
      simp
      omega
    · simp [hi]
      omega
  simp only [CuckooBucket.put, BitVec.getLsbD_or, hbit, Bool.or_comm]

theorem stores_store {b : Nat} {slot : Slot} (hb : b < t.nsize.toNat)
    (hfree : (t.bucket b).freeSlot = some slot) : Stores t (t.store b slot e) e b slot where
  inside := hb
  clear := CuckooBucket.taken_freeSlot hfree
  occupied i := by rw [t.bucket_store_self (t.size_eq ▸ hb), occupied_put]
  stored := by simp [t.bucket_store_self (t.size_eq ▸ hb), CuckooBucket.put]
  otherSlots s hs := by simp [t.bucket_store_self (t.size_eq ▸ hb), CuckooBucket.put, hs]
  otherBuckets b' hne := t.bucket_store_ne hne slot e
  nsize_eq := rfl

theorem tryBuckets_free {b : U64} (hb : b.toNat < t.nsize.toNat) {slot : Slot}
    (hfree : (t.bucket b.toNat).freeSlot = some slot) (bs : List U64) :
    t.tryBuckets e (b :: bs) = .ok (some (t.store b.toNat slot e)) := by
  unfold tryBuckets
  rw [if_pos (t.size_eq ▸ hb), hfree]

theorem tryBuckets_full {b : U64} (hb : b.toNat < t.nsize.toNat) (hfull : (t.bucket b.toNat).Full)
    (bs : List U64) : t.tryBuckets e (b :: bs) = t.tryBuckets e bs := by
  rw [tryBuckets, if_pos (t.size_eq ▸ hb), CuckooBucket.freeSlot_eq_none.mpr hfull]

/-- **One loop of `insert`.** Over buckets of the table it returns; either all of them are full, or the first
    one that is not got the entry. -/
theorem tryBuckets_cases {bs : List U64} (hbs : ∀ b ∈ bs, b.toNat < t.nsize.toNat) :
    (t.tryBuckets e bs = .ok none ∧ ∀ b ∈ bs, (t.bucket b.toNat).Full) ∨
      ∃ done b rest slot, bs = done ++ b :: rest ∧ (∀ d ∈ done, (t.bucket d.toNat).Full) ∧
        (t.bucket b.toNat).freeSlot = some slot ∧
        t.tryBuckets e bs = .ok (some (t.store b.toNat slot e)) := by
  induction bs with
  | nil => exact .inl ⟨rfl, by simp⟩
  | cons b bs ih =>
      have hb : b.toNat < t.nsize.toNat := hbs b List.mem_cons_self
      cases hfree : (t.bucket b.toNat).freeSlot with
      | some slot => exact .inr ⟨[], b, bs, slot, rfl, by simp, hfree, tryBuckets_free hb hfree bs⟩
      | none =>
          have hfull := CuckooBucket.freeSlot_eq_none.mp hfree
          rw [tryBuckets_full hb hfull bs]
          rcases ih (fun d hd => hbs d (List.mem_cons_of_mem b hd)) with
            ⟨hnone, hall⟩ | ⟨done, d, rest, slot, hsplit, hdone, hslot, hsome⟩
          · exact .inl ⟨hnone, List.forall_mem_cons.mpr ⟨hfull, hall⟩⟩
          · refine .inr ⟨b :: done, d, rest, slot, ?_, List.forall_mem_cons.mpr ⟨hfull, hdone⟩, hslot, hsome⟩
            rw [hsplit]
            rfl

/-! ## One insert -/

section Insert

variable (hn : 2 ≤ t.nsize.toNat)

include hn

theorem msize_pos : 0 < (msize t.nsize).toNat := by
  have hle := t.bytes_le
  rw [msize_toNat]
  omega

theorem cuckooHash_eq (key : U64) : t.cuckooHash key = .ok (candidates t.nsize key) := by
  have hpos := msize_pos hn
  rw [cuckooHash, if_neg]
  rintro hzero
  rw [hzero] at hpos
  exact absurd hpos (by decide)

theorem cuckooHash_bind {α : Type} (key : U64) (f : U64 × U64 → Except Fault α) :
    (t.cuckooHash key >>= f) = f (candidates t.nsize key) := by
  rw [cuckooHash_eq hn]
  rfl

theorem number_lt (h : U64) : (h % msize t.nsize).toNat < (msize t.nsize).toNat := by
  rw [BitVec.toNat_umod]
  exact Nat.mod_lt _ (msize_pos hn)

/-- A key's buckets lie in the table. -/
theorem bucketsOf_lt (key : U64) : ∀ b ∈ bucketsOf t.nsize key, b.toNat < t.nsize.toNat := by
  have hspare (h : U64) :
      (spareOf t.nsize (hashToCuckooIndex t.nsize (h % msize t.nsize))).toNat < t.nsize.toNat := by
    have hle := three_mul_msize_le (number_lt hn h)
    rw [spareOf_toNat (number_lt hn h)]
    omega
  intro b hb
  simp only [bucketsOf, List.mem_cons, List.not_mem_nil, or_false] at hb
  rcases hb with rfl | rfl | rfl | rfl
  · exact hashToCuckooIndex_lt (number_lt hn _)
  · exact hashToCuckooIndex_lt (number_lt hn _)
  · exact hspare _
  · exact hspare _

/-- The two loops of `insert` run over the candidates, then over the spare buckets. -/
theorem insert_eq {r r' : Option RaceHashTable}
    (hfirst : t.tryBuckets e [(candidates t.nsize e.key).1, (candidates t.nsize e.key).2] = .ok r)
    (hspare : t.tryBuckets e
      [spareOf t.nsize (candidates t.nsize e.key).1, spareOf t.nsize (candidates t.nsize e.key).2] = .ok r') :
    t.insert e = .ok (((r <|> r').map fun u => (u, true)).getD (t, false)) := by
  rw [insert, cuckooHash_bind hn]
  generalize candidates t.nsize e.key = c at hfirst hspare
  rw [hfirst]
  cases r with
  | some u => rfl
  | none =>
      rw [hspare]
      cases r' with
      | some u => rfl
      | none => rfl

/-- **One insert.** It returns; either all buckets of the key are full and the table stays as it is, or the
    first bucket that is not full got the entry in its first free slot. -/
theorem insert_cases (e : Entry) :
    (t.insert e = .ok (t, false) ∧ ∀ b ∈ bucketsOf t.nsize e.key, (t.bucket b.toNat).Full) ∨
      ∃ done b rest slot, bucketsOf t.nsize e.key = done ++ b :: rest ∧
        (∀ d ∈ done, (t.bucket d.toNat).Full) ∧ (t.bucket b.toNat).freeSlot = some slot ∧
        t.insert e = .ok (t.store b.toNat slot e, true) := by
  have hlt := bucketsOf_lt hn e.key
  have hins := @insert_eq t e hn
  unfold bucketsOf at hlt ⊢
  generalize candidates t.nsize e.key = c at hlt hins
  have hsplit : [c.1, c.2, spareOf t.nsize c.1, spareOf t.nsize c.2]
      = [c.1, c.2] ++ [spareOf t.nsize c.1, spareOf t.nsize c.2] := rfl
  rw [hsplit] at hlt ⊢
  have hspare := tryBuckets_cases (fun b hb => hlt b (List.mem_append_right _ hb)) (e := e)
  rcases tryBuckets_cases (fun b hb => hlt b (List.mem_append_left _ hb)) (e := e) with
    ⟨hnone, hall⟩ | ⟨done, b, rest, slot, hcut, hdone, hslot, hsome⟩
  · rcases hspare with ⟨hnone', hall'⟩ | ⟨done, b, rest, slot, hcut, hdone, hslot, hsome⟩
    · exact .inl ⟨hins hnone hnone', List.forall_mem_append.mpr ⟨hall, hall'⟩⟩
    · refine .inr ⟨[c.1, c.2] ++ done, b, rest, slot, ?_, List.forall_mem_append.mpr ⟨hall, hdone⟩, hslot,
        hins hnone hsome⟩
      rw [hcut, List.append_assoc]
  · obtain ⟨r', hr'⟩ : ∃ r', t.tryBuckets e [spareOf t.nsize c.1, spareOf t.nsize c.2] = .ok r' := by
      rcases hspare with ⟨hnone', -⟩ | ⟨_, _, _, _, _, _, _, hsome'⟩
      · exact ⟨_, hnone'⟩
      · exact ⟨_, hsome'⟩
    refine .inr ⟨done, b, rest ++ [spareOf t.nsize c.1, spareOf t.nsize c.2], slot, ?_, hdone, hslot, hins hsome hr'⟩
    rw [hcut, List.append_assoc, List.cons_append]

/-! ## One read -/

/-- The candidate number that `remote_lookup` starts from. -/
theorem first_eq (key : U64) : ∃ h : U64, h.toNat < (msize t.nsize).toNat ∧
    (candidates t.nsize key).1 = hashToCuckooIndex t.nsize h :=
  ⟨_, number_lt hn (cuckooSeeds key).1, rfl⟩

/-- **One read covers two buckets**, the first candidate and its spare bucket: they are neighbours. -/
theorem remoteLookup_eq {key h : U64} (hh : h.toNat < (msize t.nsize).toNat)
    (hfirst : (candidates t.nsize key).1 = hashToCuckooIndex t.nsize h) :
    ∃ start size, t.remoteLookup key = .ok (start, size) ∧
      start.toNat = (3 * (h.toNat / 2) + h.toNat % 2) * 64 ∧ size.toNat = 2 * 64 := by
  have hle := three_mul_msize_le hh
  have hbytes := t.bytes_le
  rw [remoteLookup, cuckooHash_bind hn, hfirst]
  dsimp only
  rw [spareInside_hashToCuckooIndex hh]
  have hidx := hashToCuckooIndex_toNat hh
  have hspare := spareBucket_toNat hh
  generalize hashToCuckooIndex t.nsize h = index at hidx hspare
  generalize spareBucket index = spare at hspare
  refine ⟨_, _, rfl, ?_, rfl⟩
  have hmin : (if index < spare then index else spare).toNat = 3 * (h.toNat / 2) + h.toNat % 2 := by
    by_cases hlt : index < spare
    · rw [if_pos hlt]
      rw [BitVec.lt_def] at hlt
      omega
    · rw [if_neg hlt]
      rw [BitVec.lt_def] at hlt
      omega
  generalize (if index < spare then index else spare) = first at hmin
  bv_omega

/-! ## Every run of inserts -/

/-- What an insert does: it stores the entry in one slot of the key's buckets and reports it, or it reports that
    all of them are full and leaves the table as it is. -/
def Places (t : RaceHashTable) (e : Entry) : Prop :=
  ∃ u stored, t.insert e = .ok (u, stored) ∧
    (stored = true → ∃ b ∈ bucketsOf t.nsize e.key, ∃ slot, Stores t u e b.toNat slot) ∧
    (stored = false ↔ ∀ b ∈ bucketsOf t.nsize e.key, (t.bucket b.toNat).Full) ∧ (stored = false → u = t)

theorem places (e : Entry) : Places t e := by
  rcases insert_cases hn e with ⟨hins, hfull⟩ | ⟨done, b, rest, slot, hsplit, -, hfree, hins⟩
  · exact ⟨t, false, hins, by simp, by simpa using hfull, fun _ => rfl⟩
  · have hmem : b ∈ bucketsOf t.nsize e.key := by simp [hsplit]
    refine ⟨_, true, hins, fun _ => ⟨b, hmem, slot, stores_store (bucketsOf_lt hn e.key b hmem) hfree⟩,
      ⟨by simp, fun hfull => ?_⟩, by simp⟩
    have htaken := hfull b hmem slot
    rw [CuckooBucket.taken_freeSlot hfree] at htaken
    cases htaken

omit hn in
theorem Places.nsize_eq {u : RaceHashTable} {stored : Bool} (h : Places t e) (hins : t.insert e = .ok (u, stored)) :
    u.nsize = t.nsize := by
  obtain ⟨u', stored', hins', hstores, -, hsame⟩ := h
  rw [hins] at hins'
  cases hins'
  cases stored with
  | true =>
      obtain ⟨b, -, slot, hst⟩ := hstores rfl
      exact hst.nsize_eq
  | false => rw [hsame rfl]

/-- A run of inserts returns; the table has its size ever after. -/
theorem inserts_ok (es : List Entry) : ∃ u, t.inserts es = .ok u ∧ u.nsize = t.nsize := by
  induction es generalizing t with
  | nil => exact ⟨t, rfl, rfl⟩
  | cons e es ih =>
      have hplaces := places hn e
      obtain ⟨u, stored, hins, -⟩ := hplaces
      have hsize := (places hn e).nsize_eq hins
      obtain ⟨w, hw, hwsize⟩ := ih (t := u) (by rw [hsize]; exact hn)
      refine ⟨w, ?_, hwsize.trans hsize⟩
      rw [inserts, List.foldlM_cons, hins]
      exact hw

end Insert

end RaceHashTable

/-! ## The index arithmetic of a whole table -/

/-- The position of a candidate: below `nsize`, never a spare position, its spare bucket is the neighbour
    `3j + 1` that `3j` and `3j + 2` share, and no clamp and no default branch is taken on the way. -/
structure IndexOk (nsize h : U64) : Prop where
  index_lt : (hashToCuckooIndex nsize h).toNat < nsize.toNat
  index_mod : hashToCuckooIndex nsize h % 3 = 0 ∨ hashToCuckooIndex nsize h % 3 = 2
  odd_clamp : h &&& 1#64 ≠ 0 → 3 * (h / 2 + 1) - 1 > 0
  even_clamp : ¬ h &&& 1#64 ≠ 0 → 3 * (h / 2) < nsize - 1
  spare_taken : spareInside nsize (spareBucket (hashToCuckooIndex nsize h)) = true
  spare_lt : (spareOf nsize (hashToCuckooIndex nsize h)).toNat < nsize.toNat
  spare_iff : ∀ j, (spareOf nsize (hashToCuckooIndex nsize h)).toNat = 3 * j + 1 ↔
    (hashToCuckooIndex nsize h).toNat = 3 * j ∨ (hashToCuckooIndex nsize h).toNat = 3 * j + 2
  spare_mod : (spareOf nsize (hashToCuckooIndex nsize h)).toNat % 3 = 1

theorem indexOk {nsize h : U64} (hh : h.toNat < (msize nsize).toNat) : IndexOk nsize h := by
  have hle := three_mul_msize_le hh
  have hidx := hashToCuckooIndex_toNat hh
  have hspare := spareOf_toNat hh
  exact ⟨hashToCuckooIndex_lt hh, hashToCuckooIndex_mod hh, fun _ => odd_index_pos hh, even_index_lt hh,
    spareInside_hashToCuckooIndex hh, by omega, fun j => by omega, by omega⟩

/-- **Where entries lie.** The candidates of a table of two buckets or more are distinct positions inside it,
    each with a spare bucket inside it. After every run of inserts an insert stores its entry in one free slot
    of the key's buckets, or reports that they are full, and a read stays inside the table. -/
theorem entries_placed (nsize : U64) (hn : 2 ≤ nsize.toNat) :
    (∀ h : U64, h.toNat < (msize nsize).toNat → IndexOk nsize h) ∧
    (∀ h h' : U64, h.toNat < (msize nsize).toNat → h'.toNat < (msize nsize).toNat →
      hashToCuckooIndex nsize h = hashToCuckooIndex nsize h' → h = h') ∧
    ∀ t : RaceHashTable, t.nsize = nsize → ∀ es, ∃ u, t.inserts es = .ok u ∧ u.nsize = nsize ∧
      (∀ e, u.Places e) ∧
      ∀ key, ∃ start size, u.remoteLookup key = .ok (start, size) ∧
        start.toNat + size.toNat ≤ nsize.toNat * 64 := by
  refine ⟨fun h => indexOk, fun h h' => hashToCuckooIndex_injective, ?_⟩
  intro t hsize es
  obtain ⟨u, hu, husize⟩ := t.inserts_ok (hsize ▸ hn) es
  have hu2 : 2 ≤ u.nsize.toNat := by rwa [husize, hsize]
  refine ⟨u, hu, husize.trans hsize, fun e => RaceHashTable.places hu2 e, ?_⟩
  intro key
  obtain ⟨h, hh, hfirst⟩ := RaceHashTable.first_eq hu2 key
  obtain ⟨start, size, hread, hstart, hlen⟩ := RaceHashTable.remoteLookup_eq hu2 hh hfirst
  refine ⟨start, size, hread, ?_⟩
  have hle := three_mul_msize_le hh
  rw [hstart, hlen, ← hsize, ← husize]
  omega

/-- A table of four buckets in cleared memory, the size for eight entries. -/
def fourBuckets : RaceHashTable where
  nsize := 4
  cuckooBuckets := #[{}, {}, {}, {}]
  size_eq := rfl
  bytes_le := by decide

/-- The last candidate of four buckets is bucket 2; a fresh table takes an entry. -/
theorem entries_placed_four :
    (hashToCuckooIndex 4 1).toNat < 4 ∧ (spareOf 4 (hashToCuckooIndex 4 1)).toNat % 3 = 1 ∧
      ∃ u, fourBuckets.inserts [⟨7, 0, 16⟩] = .ok u ∧ ∀ e, u.Places e := by
  obtain ⟨hindex, -, hrun⟩ := entries_placed 4 (by decide)
  obtain ⟨u, hu, -, hplaces, -⟩ := hrun fourBuckets rfl [⟨7, 0, 16⟩]
  exact ⟨(hindex 1 (by decide)).index_lt, (hindex 1 (by decide)).spare_mod, u, hu, hplaces⟩

end Outback.Race
