import Outback.Rdma.Server

/-!
# `Rdma.Correctness.Effects` — what one request can do to the server

**`handle_effect`** inverts the four callbacks once: each returning request has one of the ten effects of `Effect`, and
replies `status = true`. `placed_word` says what reseeding a bucket leaves: every old word at its key's slot under the
new seed, the new word at the new key's, and nothing else.
-/

namespace Outback

namespace RdmaServer

variable (H : HashFn)

/-! ## The table as the server reads it -/

def word (s : RdmaServer) (r : Nat) (t : Slot) : U64 := s.buckets.word r t

def addr (s : RdmaServer) (r : Nat) (t : Slot) : Nat := addrOf (s.word r t)

/-- The packed entry a slot refers to. -/
def entryAt (s : RdmaServer) (r : Nat) (t : Slot) : PackedStruct := s.packed.rawArray (s.addr r t)

def Occupied (s : RdmaServer) (r : Nat) (t : Slot) : Prop := occ (s.word r t) = true

instance (s : RdmaServer) (r : Nat) (t : Slot) : Decidable (s.Occupied r t) := inferInstanceAs (Decidable (_ = true))

/-- The slot of a key in row `r` under the server's seed. -/
def slot (s : RdmaServer) (r : Nat) (k : U64) : Slot := seedSlot H (s.lookup.seeds r) k

/-- `check_slots` of a put. -/
def status (s : RdmaServer) (r : Nat) (k : U64) : SlotStatus :=
  (s.buckets.bucketsArray r).checkSlots H k (s.slot H r k)

/-! ## The effects -/

/-- `bulk_load_data`, and the new entry's word in slot `t`. -/
def insertAt (s : RdmaServer) (r : Nat) (t : Slot) (k v : U64) : RdmaServer :=
  { s with
    packed := s.packed.push ⟨k, 8, v⟩
    buckets := s.buckets.writeAddr H k r t ((BitVec.ofNat 32 s.packed.num).setWidth 64) }

/-- `update_data` of entry `a`. -/
def rewrite (s : RdmaServer) (a : Nat) (k v : U64) : RdmaServer := { s with packed := s.packed.setEntry a ⟨k, 64, v⟩ }

/-- To the LRU cache, and an entry that no slot refers to. -/
def divert (s : RdmaServer) (k v : U64) : RdmaServer :=
  { s with packed := s.packed.push ⟨k, 8, v⟩, lruCache := s.lruCache.insert k v }

def setCachebit (s : RdmaServer) (r : Nat) (t : Slot) : RdmaServer := { s with buckets := s.buckets.setCachebit r t }

/-- The keys a reseeding put separates: those of the row's occupied slots, and the new one. -/
def rowKeys (s : RdmaServer) (r : Nat) (k : U64) : List U64 :=
  (s.buckets.bucketsArray r).readBucketAddrs.map (fun w => (s.packed.rawArray (addrOf w)).key) ++ [k]

/-- The word of a new entry: its packed index passes through a `uint32_t`. -/
def newWord (s : RdmaServer) (k : U64) : U64 :=
  combine (fingerprint H k) 64 ((BitVec.ofNat 32 s.packed.num).setWidth 64)

/-- The words of these keys, in the same order. -/
def rowWords (s : RdmaServer) (r : Nat) (k : U64) : List U64 :=
  (s.buckets.bucketsArray r).readBucketAddrs ++ [s.newWord H k]

/-- The row placed anew under `seed`. -/
def reseed (s : RdmaServer) (r : Nat) (k v : U64) (seed : U8) : RdmaServer :=
  { s with
    lookup := s.lookup.updateSeed r seed
    packed := s.packed.push ⟨k, 8, v⟩
    buckets := s.buckets.setRow r (.replace H seed (s.rowKeys r k) (s.rowWords H r k)) }

/-- The `val` of a put's reply. A reseeding one carries the new seed below bit 8. -/
def putVal (s : RdmaServer) (r : Nat) (k : U64) : U64 :=
  match s.status H r k with
  | .good => 0
  | .maybeUpdate => 1
  | .emptyExists => (1 <<< 8) + ((forceSeed H (s.rowKeys r k)).getD 0).setWidth 64
  | .full => 3

/-- The entry cleared, and the slot too. -/
def erase (s : RdmaServer) (r : Nat) (t : Slot) : RdmaServer :=
  { s with packed := s.packed.setEntry (s.addr r t) .zero, buckets := s.buckets.removeAddr r t }

end RdmaServer

/-- The effects of a request, each with the branch conditions under which the callbacks have it. -/
inductive Effect (H : HashFn) (s : RdmaServer) : Request → RdmaServer → Prop where
  | read {loc : Nat} {k : U64} : Effect H s (.get loc k) s
  | insert {loc : Nat} {k v : U64} (hst : s.status H (locRow loc) k = .good)
      (hroom : s.packed.num < s.packed.numElements) :
      Effect H s (.put loc k v) (s.insertAt H (locRow loc) (s.slot H (locRow loc) k) k v)
  | rewrite {loc : Nat} {k v : U64} (hst : s.status H (locRow loc) k = .maybeUpdate)
      (hk : (s.entryAt (locRow loc) (s.slot H (locRow loc) k)).key = k) :
      Effect H s (.put loc k v) (s.rewrite (s.addr (locRow loc) (s.slot H (locRow loc) k)) k v)
  | collide {loc : Nat} {k v : U64} (hst : s.status H (locRow loc) k = .maybeUpdate)
      (hk : (s.entryAt (locRow loc) (s.slot H (locRow loc) k)).key ≠ k) (hroom : s.packed.num < s.packed.numElements) :
      Effect H s (.put loc k v) (s.divert k v)
  | reseed {loc : Nat} {k v : U64} (hst : s.status H (locRow loc) k = .emptyExists) (seed : U8)
      (hseed : forceSeed H (s.rowKeys (locRow loc) k) = some seed) (hroom : s.packed.num < s.packed.numElements) :
      Effect H s (.put loc k v) (s.reseed H (locRow loc) k v seed)
  | overflow {loc : Nat} {k v : U64} (hst : s.status H (locRow loc) k = .full)
      (hroom : s.packed.num < s.packed.numElements) :
      Effect H s (.put loc k v) ((s.divert k v).setCachebit (locRow loc) (locSlot loc))
  | update {loc : Nat} {k v : U64} (hk : (s.entryAt (locRow loc) (locSlot loc)).key = k) :
      Effect H s (.update loc k v) (s.rewrite (s.addr (locRow loc) (locSlot loc)) k v)
  | miss {loc : Nat} {k v : U64} (hk : (s.entryAt (locRow loc) (locSlot loc)).key ≠ k)
      (hroom : s.packed.num < s.packed.numElements) :
      Effect H s (.update loc k v) (s.divert k v)
  | erase {loc : Nat} {k : U64} (hk : (s.entryAt (locRow loc) (locSlot loc)).key = k) :
      Effect H s (.remove loc k) (s.erase (locRow loc) (locSlot loc))
  | absent {loc : Nat} {k : U64} (hk : (s.entryAt (locRow loc) (locSlot loc)).key ≠ k) : Effect H s (.remove loc k) s

section Inversion

variable {H : HashFn} {s s' : RdmaServer} {rep : ReplyValue}

/-- `read_batch_keys` returned: the keys of the entries the words refer to. -/
theorem readBatchKeys_eq_ok {pd : PackedData} {words keys : List U64} (h : pd.readBatchKeys words = .ok keys) :
    keys = words.map fun w => (pd.rawArray (addrOf w)).key := by
  induction words generalizing keys with
  | nil =>
      cases h
      rfl
  | cons w ws ih =>
      unfold PackedData.readBatchKeys at h ih
      rw [List.mapM_cons] at h
      obtain ⟨k, hk, h⟩ := Lib.bind_eq_ok.mp h
      obtain ⟨ks, hks, h⟩ := Lib.bind_eq_ok.mp h
      cases h
      rw [List.map_cons, ih hks, (PackedData.readKey_eq_ok hk).2]

theorem put_effect {loc : Nat} {k v : U64} (h : s.outbackPutCallback H loc k v = .ok (s', rep)) :
    Effect H s (.put loc k v) s' ∧ rep = ⟨true, s.putVal H (locRow loc) k⟩ := by
  unfold RdmaServer.outbackPutCallback at h
  obtain ⟨b, hb, h⟩ := Lib.bind_eq_ok.mp h
  obtain ⟨-, rfl⟩ := LudoBuckets.row_eq_ok hb
  have hdef : (s.buckets.bucketsArray (locRow loc)).checkSlots H k (seedSlot H (s.lookup.seeds (locRow loc)) k)
      = s.status H (locRow loc) k := rfl
  simp only [hdef] at h
  cases hst : s.status H (locRow loc) k with
  | good =>
      simp only [hst] at h
      obtain ⟨r, hr, h⟩ := Lib.bind_eq_ok.mp h
      obtain ⟨hroom, rfl⟩ := PackedData.bulkLoadData_eq_ok hr
      cases h
      exact ⟨.insert hst hroom, by rw [RdmaServer.putVal, hst]⟩
  | maybeUpdate =>
      simp only [hst] at h
      obtain ⟨key, hkey, h⟩ := Lib.bind_eq_ok.mp h
      obtain ⟨hlt, rfl⟩ := PackedData.readKey_eq_ok hkey
      split at h
      · rename_i hk
        rw [PackedData.updateData_ok hlt] at h
        cases h
        exact ⟨.rewrite hst hk, by rw [RdmaServer.putVal, hst]⟩
      · rename_i hk
        obtain ⟨r, hr, h⟩ := Lib.bind_eq_ok.mp h
        obtain ⟨hroom, rfl⟩ := PackedData.bulkLoadData_eq_ok hr
        cases h
        exact ⟨.collide hst hk hroom, by rw [RdmaServer.putVal, hst]⟩
  | emptyExists =>
      simp only [hst] at h
      simp only [RdmaServer.reseedBucket, hb, Exec.ok_bind] at h
      obtain ⟨keys, hkeys, h⟩ := Lib.bind_eq_ok.mp h
      obtain rfl := readBatchKeys_eq_ok hkeys
      obtain ⟨r, hr, h⟩ := Lib.bind_eq_ok.mp h
      obtain ⟨hroom, rfl⟩ := PackedData.bulkLoadData_eq_ok hr
      split at h
      · rename_i seed hseed
        cases h
        have hkeys : forceSeed H (s.rowKeys (locRow loc) k) = some seed := hseed
        exact ⟨.reseed hst seed hseed hroom, by simp only [RdmaServer.putVal, hst, hkeys, Option.getD_some]⟩
      · cases h
  | full =>
      simp only [hst] at h
      obtain ⟨r, hr, h⟩ := Lib.bind_eq_ok.mp h
      obtain ⟨hroom, rfl⟩ := PackedData.bulkLoadData_eq_ok hr
      cases h
      exact ⟨.overflow hst hroom, by rw [RdmaServer.putVal, hst]⟩

theorem update_effect {loc : Nat} {k v : U64} (h : s.outbackUpdateCallback loc k v = .ok (s', rep)) :
    Effect H s (.update loc k v) s' ∧ rep.status = true := by
  unfold RdmaServer.outbackUpdateCallback at h
  obtain ⟨b, hb, h⟩ := Lib.bind_eq_ok.mp h
  obtain ⟨-, rfl⟩ := LudoBuckets.row_eq_ok hb
  obtain ⟨key, hkey, h⟩ := Lib.bind_eq_ok.mp h
  obtain ⟨hlt, rfl⟩ := PackedData.readKey_eq_ok hkey
  split at h
  · rename_i hk
    rw [PackedData.updateData_ok hlt] at h
    cases h
    exact ⟨.update hk, rfl⟩
  · rename_i hk
    obtain ⟨r, hr, h⟩ := Lib.bind_eq_ok.mp h
    obtain ⟨hroom, rfl⟩ := PackedData.bulkLoadData_eq_ok hr
    cases h
    exact ⟨.miss hk hroom, rfl⟩

theorem remove_effect {loc : Nat} {k : U64} (h : s.outbackRemoveCallback loc k = .ok (s', rep)) :
    Effect H s (.remove loc k) s' ∧ rep.status = true := by
  unfold RdmaServer.outbackRemoveCallback PackedData.removeDataWithKeyCheck at h
  obtain ⟨b, hb, h⟩ := Lib.bind_eq_ok.mp h
  obtain ⟨-, rfl⟩ := LudoBuckets.row_eq_ok hb
  obtain ⟨r, hr, h⟩ := Lib.bind_eq_ok.mp h
  obtain ⟨e, he, hr⟩ := Lib.bind_eq_ok.mp hr
  obtain ⟨-, rfl⟩ := PackedData.entry_eq_ok he
  split at hr
  · rename_i hk
    cases hr
    cases h
    exact ⟨.absent hk, rfl⟩
  · rename_i hk
    cases hr
    cases h
    exact ⟨.erase (not_not.mp hk), rfl⟩

/-- **What a request can do.** -/
theorem handle_effect {req : Request} (h : s.handle H req = .ok (s', rep)) : Effect H s req s' ∧ rep.status = true := by
  cases req with
  | get loc k =>
      obtain ⟨r, hr, h⟩ := Lib.bind_eq_ok.mp h
      cases h
      unfold RdmaServer.outbackGetCallback at hr
      obtain ⟨b, -, hr⟩ := Lib.bind_eq_ok.mp hr
      obtain ⟨e, -, hr⟩ := Lib.bind_eq_ok.mp hr
      cases hr
      exact ⟨.read, rfl⟩
  | put loc k v =>
      obtain ⟨he, rfl⟩ := put_effect h
      exact ⟨he, rfl⟩
  | update loc k v => exact update_effect h
  | remove loc k => exact remove_effect h

theorem step_effect {req : Request} (h : s.step H req = .ok s') : Effect H s req s' := by
  unfold RdmaServer.step at h
  obtain ⟨r, hr, h⟩ := Lib.bind_eq_ok.mp h
  cases h
  exact (handle_effect hr).1

end Inversion

/-! ## The table after each effect -/

namespace RdmaServer

variable {H : HashFn} {s : RdmaServer} {r r' : Nat} {t t' : Slot} {k k' v : U64} {seed : U8}

/-- A get answers with the data of the entry its slot refers to. -/
theorem get_slot (hr : r < s.buckets.numElements) (hlt : s.addr r t < s.packed.numElements) :
    s.outbackGetCallback (4 * r + t.val) = .ok ⟨true, (s.entryAt r t).data⟩ := by
  unfold outbackGetCallback
  rw [locRow_slot, locSlot_slot, LudoBuckets.row_ok hr, Exec.ok_bind]
  show (s.packed.entry (s.addr r t) >>= _) = _
  rw [PackedData.entry_ok hlt, Exec.ok_bind]
  rfl

theorem addrOf_newWord : addrOf (s.newWord H k) = s.packed.num % 2 ^ 32 := addrOf_newIndex ..

theorem occ_newWord : occ (s.newWord H k) = true := occ_combine (by decide)

theorem insertAt_word : (s.insertAt H r t k v).word r' t' = if r' = r ∧ t' = t then s.newWord H k else s.word r' t' :=
  LudoBuckets.write_word ..

theorem erase_word : (s.erase r t).word r' t' = if r' = r ∧ t' = t then 0 else s.word r' t' :=
  LudoBuckets.write_word ..

/-- The cache bit is neither in the address nor in the length. -/
theorem setCachebit_word : addrOf ((s.setCachebit r t).word r' t') = addrOf (s.word r' t') ∧
    occ ((s.setCachebit r t).word r' t') = occ (s.word r' t') := by
  have hword : (s.setCachebit r t).word r' t' = if r' = r ∧ t' = t then s.word r t ||| 1#64 <<< 63 else s.word r' t' :=
    LudoBuckets.write_word ..
  rw [hword]
  split
  · rename_i h
    rw [h.1, h.2]
    exact setBit63_fields _
  · exact ⟨rfl, rfl⟩

theorem reseed_word_of_ne (h : r' ≠ r) : (s.reseed H r k v seed).word r' t' = s.word r' t' := by
  show (s.buckets.setRow r _).word r' t' = _
  rw [LudoBuckets.setRow_word, if_neg h]
  rfl

theorem reseed_slot : (s.reseed H r k v seed).slot H r' k' = if r' = r then seedSlot H seed k' else s.slot H r' k' := by
  show seedSlot H (Function.update s.lookup.seeds r seed r') k' = _
  by_cases h : r' = r
  · subst h
    rw [Function.update_self, if_pos rfl]
  · rw [Function.update_of_ne h, if_neg h]
    rfl

/-! ### A row placed anew -/

/-- The cells the loop writes: each old word at its key's slot, then the new one. -/
theorem rowCells_eq (f : U64 → U64) (g : U64 → Slot) (words : List U64) (w : U64) :
    (((words.map f) ++ [k]).map g).zip (words ++ [w]) = words.map (fun w => (g (f w), w)) ++ [(g k, w)] := by
  induction words with
  | nil => rfl
  | cons a words ih => simpa using ih

theorem mem_readBucketAddrs {b : LudoBucket} {w : U64} :
    w ∈ b.readBucketAddrs ↔ ∃ t, occ (b.slots t) = true ∧ b.slots t = w := by
  unfold LudoBucket.readBucketAddrs
  simp

section Placed

variable (hseed : forceSeed H (s.rowKeys r k) = some seed)

include hseed

/-- The cells have pairwise different slots: that is what the seed was looked for. -/
theorem rowCells_nodup :
    ((((s.rowKeys r k).map (seedSlot H seed)).zip (s.rowWords H r k)).map Prod.fst).Nodup := by
  rw [List.map_fst_zip]
  · exact forceSeed_nodup hseed
  · simp [rowKeys, rowWords]

/-- An old word is at its key's slot under the new seed. -/
theorem reseed_word_old (ht : s.Occupied r t) :
    (s.reseed H r k v seed).word r (seedSlot H seed (s.entryAt r t).key) = s.word r t := by
  show (s.buckets.setRow r _).word r _ = _
  rw [LudoBuckets.setRow_word, if_pos rfl]
  refine Lib.scatter_of_mem (rowCells_nodup hseed) ?_
  unfold rowKeys rowWords
  rw [rowCells_eq]
  have hmem : s.word r t ∈ (s.buckets.bucketsArray r).readBucketAddrs := mem_readBucketAddrs.mpr ⟨t, ht, rfl⟩
  exact List.mem_append_left _ (List.mem_map.mpr ⟨s.word r t, hmem, rfl⟩)

/-- The new word is at the new key's slot. -/
theorem reseed_word_new : (s.reseed H r k v seed).word r (seedSlot H seed k) = s.newWord H k := by
  show (s.buckets.setRow r _).word r _ = _
  rw [LudoBuckets.setRow_word, if_pos rfl]
  refine Lib.scatter_of_mem (rowCells_nodup hseed) ?_
  unfold rowKeys rowWords
  rw [rowCells_eq]
  exact List.mem_append_right _ (List.mem_singleton.mpr rfl)

/-- There is nothing else in the row. -/
theorem reseed_word_cases (t' : Slot) : (s.reseed H r k v seed).word r t' = 0 ∨
    (t' = seedSlot H seed k ∧ (s.reseed H r k v seed).word r t' = s.newWord H k) ∨
    ∃ t, s.Occupied r t ∧ t' = seedSlot H seed (s.entryAt r t).key ∧
      (s.reseed H r k v seed).word r t' = s.word r t := by
  by_cases hmem : t' ∈ ((((s.rowKeys r k).map (seedSlot H seed)).zip (s.rowWords H r k)).map Prod.fst)
  · right
    obtain ⟨c, hc, rfl⟩ := List.mem_map.mp hmem
    unfold rowKeys rowWords at hc
    rw [rowCells_eq] at hc
    rcases List.mem_append.mp hc with hold | hnew
    · right
      obtain ⟨w, hw, rfl⟩ := List.mem_map.mp hold
      obtain ⟨t, ht, rfl⟩ := mem_readBucketAddrs.mp hw
      exact ⟨t, ht, rfl, reseed_word_old hseed ht⟩
    · left
      obtain rfl := List.mem_singleton.mp hnew
      exact ⟨rfl, reseed_word_new hseed⟩
  · left
    show (s.buckets.setRow r _).word r t' = 0
    rw [LudoBuckets.setRow_word, if_pos rfl]
    exact Lib.scatter_of_not_mem hmem

end Placed

end RdmaServer

end Outback
