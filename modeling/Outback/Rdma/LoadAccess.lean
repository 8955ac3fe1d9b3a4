import Outback.PackedData
import Outback.Lib.Reach

/-!
# `Rdma.LoadAccess` — `bulk_load_data` at single accesses (`outback/packed_data.hh`)

The counter `num` is atomic, the call is not: it reads `num` for the bound, for the index of each of its three field stores,
and a last time where it increments it. The server's callers hold the mutex of their row, and the packed array is shared by
all rows, so calls of different threads overlap. A thread inside a call is at a `LoadPc`; between any two accesses other
threads run.

`returned` is no state of the program: it records what each call has returned, with the value the counter had and what the
call was to store.
-/

namespace Outback

/-- The fields of an entry, in the order of their stores. -/
inductive LoadField where
  | key
  | data
  | dataLength
  deriving DecidableEq, Repr

/-- What a thread does next. -/
inductive LoadPc where
  /-- it is in no call -/
  | idle
  /-- `num >= numElements` -/
  | checkBound
  /-- the `num` of `rawArray[num]` -/
  | readIndex (f : LoadField)
  /-- the store of the field, at the index just read -/
  | storeField (f : LoadField) (i : Nat)
  /-- `num++` -/
  | increment
  deriving DecidableEq, Repr

/-- What a call has returned: `addr` is the `uint32_t` the caller gets. -/
structure Load where
  addr : U32
  num : Nat
  entry : PackedStruct
  deriving DecidableEq, Repr

/-- One `PackedData` and the threads that call it. -/
structure LoadWorld (threads : Nat) where
  packed : PackedData
  pc : Fin threads → LoadPc
  /-- the arguments of the call a thread is in -/
  arg : Fin threads → PackedStruct
  returned : List Load

namespace PackedStruct

/-- One field of `e` becomes that of `a`. -/
def store (e : PackedStruct) (f : LoadField) (a : PackedStruct) : PackedStruct :=
  match f with
  | .key => { e with key := a.key }
  | .data => { e with data := a.data }
  | .dataLength => { e with dataLength := a.dataLength }

end PackedStruct

/-- Behind the store of a field: the index of the next one, or the increment. -/
def LoadField.next : LoadField → LoadPc
  | .key => .readIndex .data
  | .data => .readIndex .dataLength
  | .dataLength => .increment

namespace LoadWorld

variable {threads : Nat}

def setPc (w : LoadWorld threads) (tid : Fin threads) (pc : LoadPc) : LoadWorld threads :=
  { w with pc := Function.update w.pc tid pc }

/-- A thread in no call begins one. -/
def call (w : LoadWorld threads) (tid : Fin threads) (entry : PackedStruct) : LoadWorld threads :=
  if w.pc tid = .idle then { w.setPc tid .checkBound with arg := Function.update w.arg tid entry } else w

/-- The next access of thread `tid`. -/
def advance (w : LoadWorld threads) (tid : Fin threads) : Exec (LoadWorld threads) :=
  match w.pc tid with
  | .idle => .ok w
  | .checkBound =>
      if w.packed.num ≥ w.packed.numElements then .error .exited else .ok (w.setPc tid (.readIndex .key))
  | .readIndex f => .ok (w.setPc tid (.storeField f w.packed.num))
  | .storeField f i => do
      let e ← w.packed.entry i
      return { w.setPc tid f.next with packed := w.packed.setEntry i (e.store f (w.arg tid)) }
  | .increment =>
      .ok { w.setPc tid .idle with
        packed := { w.packed with num := w.packed.num + 1 }
        returned := w.returned ++ [⟨BitVec.ofNat 32 w.packed.num, w.packed.num, w.arg tid⟩] }

end LoadWorld

inductive LoadStep (threads : Nat) where
  | call (tid : Fin threads) (entry : PackedStruct)
  | advance (tid : Fin threads)

def LoadWorld.step {threads : Nat} (w : LoadWorld threads) : LoadStep threads → Exec (LoadWorld threads)
  | .call tid entry => .ok (w.call tid entry)
  | .advance tid => w.advance tid

/-- An array that nobody is loading. -/
def PackedData.loadWorld (pd : PackedData) (threads : Nat) : LoadWorld threads :=
  ⟨pd, fun _ => .idle, fun _ => .zero, []⟩

/-- The accesses of a call made without a break. -/
def LoadWorld.runCall {threads : Nat} (w : LoadWorld threads) (tid : Fin threads) : Nat → Exec (LoadWorld threads)
  | 0 => .ok w
  | n + 1 => do (← w.advance tid).runCall tid n

/-- Nobody in between, the accesses are `bulk_load_data`. -/
theorem LoadWorld.runCall_eq {threads : Nat} (w : LoadWorld threads) {tid : Fin threads} (entry : PackedStruct)
    (hidle : w.pc tid = .idle) : (w.call tid entry).runCall tid 8
      = (w.packed.bulkLoadData entry.key entry.dataLength entry.data).map fun r => { w with
          packed := r.1
          arg := Function.update w.arg tid entry
          returned := w.returned ++ [⟨r.2, w.packed.num, entry⟩] } := by
  have hcall : w.call tid entry = { w.setPc tid .checkBound with arg := Function.update w.arg tid entry } := if_pos hidle
  rw [hcall]
  by_cases hfull : w.packed.num ≥ w.packed.numElements
  · have hexit : LoadWorld.advance { w.setPc tid .checkBound with arg := Function.update w.arg tid entry } tid
        = .error .exited := by
      simp only [advance, setPc, Function.update_self]
      exact if_pos hfull
    rw [runCall, hexit, PackedData.bulkLoadData, if_pos hfull]
    rfl
  · have hroom : w.packed.num < w.packed.numElements := Nat.not_le.mp hfull
    -- three stores to one entry, and the thread is idle again
    have hpc : Function.update w.pc tid .idle = w.pc := by rw [← hidle, Function.update_eq_self]
    simp only [runCall, advance, setPc, Function.update_self, if_neg hfull, PackedData.bulkLoadData, Exec.ok_bind,
      PackedData.entry, if_pos hroom, PackedData.setEntry, Function.update_idem, LoadField.next, PackedStruct.store,
      pure, Except.pure, PackedData.push, Except.map, hpc]

/-- Two threads and an empty array of two entries. -/
theorem LoadWorld.runCall_eq_two : ∃ w,
    ((PackedData.loadWorld ⟨fun _ => .zero, 0, 2⟩ 2).call 0 ⟨7, 8, 70⟩).runCall 0 8 = .ok w ∧ w.packed.num = 1 := by
  rw [LoadWorld.runCall_eq _ _ rfl]
  exact ⟨_, rfl, rfl⟩

end Outback
