import Outback.Lib.Partial
import Outback.Slot

/-!
# `PackedData` — the packed key/value array (`outback/packed_data.hh`)

`rawArray` is memory: in the RDMA server the object owns it, on the NUMA path it is a window into a shared
region. `num` is the wrapper's own allocation counter, `numElements` its bound.
-/

namespace Outback

structure PackedStruct where
  key : U64
  dataLength : U32
  data : U64
  deriving DecidableEq, Repr

/-- `sizeof(PackedStruct<u64, u64>)`: the struct is packed, `8 + 4 + 8` bytes. -/
def sizeofPackedStruct : Nat := 20

/-- What `memset(&rawArray[num], 0, sizeof(packed_struct_t))` leaves. -/
def PackedStruct.zero : PackedStruct := ⟨0, 0, 0⟩

structure PackedData where
  rawArray : Nat → PackedStruct
  num : Nat
  numElements : Nat

namespace PackedData

/-- `PackedData(char* reg_mem, size_t numElements_)`: the constructor copies its default-initialised local
    `packed_struct` over every entry of the memory it is given. The value of that local is indeterminate:
    `packedStruct` stands for it. -/
def ofRegMem (regMem : Nat → PackedStruct) (numElements : Nat) (packedStruct : PackedStruct) : PackedData where
  rawArray := fun i => if i < numElements then packedStruct else regMem i
  num := 0
  numElements := numElements

/-- `rawArray[num]`. -/
def entry (pd : PackedData) (i : Nat) : Exec PackedStruct :=
  if i < pd.numElements then .ok (pd.rawArray i) else .error .packedBounds

/-- `rawArray[num] = e`. -/
def setEntry (pd : PackedData) (i : Nat) (e : PackedStruct) : PackedData :=
  { pd with rawArray := Function.update pd.rawArray i e }

def readKey (pd : PackedData) (i : Nat) : Exec U64 := (pd.entry i).map (·.key)

/-- `update_data(num, key, data_length, data)`. -/
def updateData (pd : PackedData) (i : Nat) (key : U64) (dataLength : U32) (data : U64) : Exec PackedData :=
  if i < pd.numElements then .ok (pd.setEntry i ⟨key, dataLength, data⟩) else .error .packedBounds

/-- `remove_data_with_key_check(num, key)`. -/
def removeDataWithKeyCheck (pd : PackedData) (i : Nat) (key : U64) : Exec (PackedData × Bool) := do
  let e ← pd.entry i
  if e.key ≠ key then return (pd, false)
  else return (pd.setEntry i .zero, true)

/-- `rawArray[num] = e; num++`. -/
def push (pd : PackedData) (e : PackedStruct) : PackedData where
  rawArray := Function.update pd.rawArray pd.num e
  num := pd.num + 1
  numElements := pd.numElements

/-- `bulk_load_data(key, data_length, data)`: writes at the counter and returns it as a `uint32_t`. -/
def bulkLoadData (pd : PackedData) (key : U64) (dataLength : U32) (data : U64) : Exec (PackedData × U32) :=
  if pd.num ≥ pd.numElements then .error .exited
  else .ok (pd.push ⟨key, dataLength, data⟩, BitVec.ofNat 32 pd.num)

/-- `read_batch_keys(addrs)`: the arguments are whole slot words, masked to their address here. -/
def readBatchKeys (pd : PackedData) (addrs : List U64) : Exec (List U64) :=
  addrs.mapM (fun addr => pd.readKey (addrOf addr))

theorem entry_ok {pd : PackedData} {i : Nat} (h : i < pd.numElements) : pd.entry i = .ok (pd.rawArray i) :=
  if_pos h

theorem readKey_ok {pd : PackedData} {i : Nat} (h : i < pd.numElements) :
    pd.readKey i = .ok (pd.rawArray i).key := by
  rw [readKey, entry_ok h]; rfl

theorem updateData_ok {pd : PackedData} {i : Nat} (h : i < pd.numElements) (key : U64) (l : U32) (data : U64) :
    pd.updateData i key l data = .ok (pd.setEntry i ⟨key, l, data⟩) := if_pos h

/-- An entry that was read lies in the array. -/
theorem entry_eq_ok {pd : PackedData} {i : Nat} {e : PackedStruct} (h : pd.entry i = .ok e) :
    i < pd.numElements ∧ e = pd.rawArray i := by
  unfold entry at h
  split at h
  · rename_i hi
    exact ⟨hi, (Except.ok.inj h).symm⟩
  · cases h

theorem readKey_eq_ok {pd : PackedData} {i : Nat} {k : U64} (h : pd.readKey i = .ok k) :
    i < pd.numElements ∧ k = (pd.rawArray i).key := by
  obtain ⟨e, he, hk⟩ := Lib.bind_eq_ok.mp h
  obtain ⟨hi, rfl⟩ := entry_eq_ok he
  exact ⟨hi, (Except.ok.inj hk).symm⟩

/-- An entry that was written lies in the array. -/
theorem updateData_eq_ok {pd pd' : PackedData} {i : Nat} {key : U64} {l : U32} {data : U64}
    (h : pd.updateData i key l data = .ok pd') : i < pd.numElements ∧ pd' = pd.setEntry i ⟨key, l, data⟩ := by
  unfold updateData at h
  split at h
  · rename_i hi
    exact ⟨hi, (Except.ok.inj h).symm⟩
  · cases h

@[simp] theorem setEntry_rawArray (pd : PackedData) (i : Nat) (e : PackedStruct) :
    (pd.setEntry i e).rawArray = Function.update pd.rawArray i e := rfl

@[simp] theorem push_num (pd : PackedData) (e : PackedStruct) : (pd.push e).num = pd.num + 1 := rfl

@[simp] theorem push_numElements (pd : PackedData) (e : PackedStruct) :
    (pd.push e).numElements = pd.numElements := rfl

theorem push_rawArray (pd : PackedData) (e : PackedStruct) :
    (pd.push e).rawArray = Function.update pd.rawArray pd.num e := rfl

/-- Below the counter a push changes nothing. -/
theorem push_rawArray_lt {pd : PackedData} {e : PackedStruct} {i : Nat} (h : i < pd.num) :
    (pd.push e).rawArray i = pd.rawArray i := by
  rw [push_rawArray, Function.update_of_ne (Nat.ne_of_lt h)]

theorem bulkLoadData_ok {pd : PackedData} (h : pd.num < pd.numElements) (key : U64) (l : U32) (data : U64) :
    pd.bulkLoadData key l data = .ok (pd.push ⟨key, l, data⟩, BitVec.ofNat 32 pd.num) :=
  if_neg (Nat.not_le.mpr h)

/-- `bulk_load_data` returns only when there is room. -/
theorem bulkLoadData_eq_ok {pd : PackedData} {key : U64} {l : U32} {data : U64} {r : PackedData × U32}
    (h : pd.bulkLoadData key l data = .ok r) :
    pd.num < pd.numElements ∧ r = (pd.push ⟨key, l, data⟩, BitVec.ofNat 32 pd.num) := by
  unfold bulkLoadData at h
  split at h
  · exact absurd h (by simp)
  · rename_i hlt
    exact ⟨Nat.not_le.mp hlt, (Except.ok.inj h).symm⟩

/-- The loop of `setup_ludo_table` that loads `keys[i]` with data `i`, from counter position `i`. -/
def bulkLoadAll (pd : PackedData) : List U64 → Exec PackedData
  | [] => .ok pd
  | key :: keys => do
      let (pd', _) ← pd.bulkLoadData key 8 (BitVec.ofNat 64 pd.num)
      bulkLoadAll pd' keys

/-- **The bulk load.** With room for all keys, entry `num + j` holds key `j` and its own index, every other
    entry is untouched and the counter has advanced past the keys. -/
theorem bulkLoadAll_ok (keys : List U64) (pd : PackedData) (h : pd.num + keys.length ≤ pd.numElements) :
    ∃ pd', pd.bulkLoadAll keys = .ok pd' ∧ pd'.num = pd.num + keys.length ∧
      pd'.numElements = pd.numElements ∧
      (∀ j (hj : j < keys.length), pd'.rawArray (pd.num + j) = ⟨keys.get ⟨j, hj⟩, 8, BitVec.ofNat 64 (pd.num + j)⟩) ∧
      (∀ i, i < pd.num ∨ pd.num + keys.length ≤ i → pd'.rawArray i = pd.rawArray i) := by
  induction keys generalizing pd with
  | nil => exact ⟨pd, rfl, rfl, rfl, fun j hj => absurd hj (by simp), fun _ _ => rfl⟩
  | cons key keys ih =>
      rw [List.length_cons] at h
      have hroom : pd.num < pd.numElements := by omega
      obtain ⟨pd', hrun, hnum, hel, hload, hrest⟩ := ih (pd.push ⟨key, 8, BitVec.ofNat 64 pd.num⟩)
        (by rw [push_num, push_numElements]; omega)
      rw [push_num] at hnum hload hrest
      rw [push_numElements] at hel
      refine ⟨pd', ?_, ?_, hel, ?_, ?_⟩
      · rw [bulkLoadAll, bulkLoadData_ok hroom]; exact hrun
      · rw [hnum, List.length_cons]; omega
      · intro j hj
        cases j with
        | zero =>
            rw [Nat.add_zero, hrest pd.num (Or.inl (Nat.lt_succ_self _)), push_rawArray, Function.update_self]
            rfl
        | succ j =>
            have hj' : j < keys.length := by simpa using hj
            rw [show pd.num + (j + 1) = pd.num + 1 + j by omega, hload j hj']
            rfl
      · intro i hi
        rw [List.length_cons] at hi
        rw [hrest i (by omega), push_rawArray, Function.update_of_ne (by omega)]

/-- With room for all keys the loop is a fold of pushes. -/
theorem bulkLoadAll_eq {keys : List U64} {pd : PackedData} (h : pd.num + keys.length ≤ pd.numElements) :
    pd.bulkLoadAll keys = .ok (keys.foldl (fun pd key => pd.push ⟨key, 8, BitVec.ofNat 64 pd.num⟩) pd) := by
  induction keys generalizing pd with
  | nil => rfl
  | cons key keys ih =>
      rw [List.length_cons] at h
      rw [bulkLoadAll, bulkLoadData_ok (by omega), Exec.ok_bind, List.foldl_cons]
      exact ih (by rw [push_num, push_numElements]; omega)

end PackedData

end Outback
