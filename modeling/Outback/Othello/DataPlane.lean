import Outback.Othello.ControlPlane

/-!
# `Othello.DataPlane` — the classifier that is looked up (`DataPlaneOthello`)

The data plane has the cells of the control plane and nothing else. It is made by a full copy (`fullSync`), or follows an
update of the control plane by its `OthelloUpdateResult`: the nodes `cc` whose cells have changed, and the `xorTemplate`
that was added to each of them.

A cell is changed between two increments of a version byte, which readers wait for to be even. Here nothing runs between
the two, so a reader that finds an odd version would wait for ever.
-/

namespace Outback

structure DataPlaneOthello extends OthelloCommon where
  lock : Nat → U8

namespace DataPlaneOthello

variable (H : HashFn) (L : Nat)

/-- `lock[index & 8191U]++`. -/
def lockStep (dp : DataPlaneOthello) (index : Nat) : DataPlaneOthello :=
  { dp with lock := Function.update dp.lock (index &&& 8191) (dp.lock (index &&& 8191) + 1) }

/-- `fullSync(cp)`. -/
def fullSync (dp : DataPlaneOthello) (cp : ControlPlaneOthello) : DataPlaneOthello :=
  { dp with toOthelloCommon := cp.toOthelloCommon }

/-- `DataPlaneOthello(cp)`. -/
def ofControlPlane (cp : ControlPlaneOthello) : DataPlaneOthello where
  toOthelloCommon := cp.toOthelloCommon
  lock := fun _ => 0

/-- `memValueSet(index, value)`. -/
def memValueSet (dp : DataPlaneOthello) (index : Nat) (value : U64) : DataPlaneOthello :=
  let dp := dp.lockStep index
  lockStep { dp with mem := Outback.memValueSet L 0 dp.mem index value } index

/-- `fixSingle<true>(nodeToFix, x)`. -/
def fixSingle (dp : DataPlaneOthello) (nodeToFix : Nat) (x : U64) : DataPlaneOthello :=
  dp.memValueSet L nodeToFix (x ^^^ memValueGet L 0 dp.mem nodeToFix)

/-- `fixHalfTreeByConnectedComponent(indices, xorTemplate)`; the parameter `xorTemplate` has 32 bits. -/
def fixHalfTreeByConnectedComponent (dp : DataPlaneOthello) (indices : List Nat) (xorTemplate : U32) : DataPlaneOthello :=
  indices.foldl (fun dp index => dp.fixSingle L index (xorTemplate.setWidth 64)) dp

/-- What an update of the control plane asks of the data plane: `xorTemplate` at the nodes `cc`, or a full copy where the
    control plane has been rebuilt. The two operations are the source's; the caller that chooses between them by the
    result of an update is not part of it. -/
def follow (dp : DataPlaneOthello) (result : OthelloUpdateResult) (cp : ControlPlaneOthello) : DataPlaneOthello :=
  if 0 < result.status then dp.fullSync cp
  else dp.fixHalfTreeByConnectedComponent L result.cc (result.xorTemplate.setWidth 32)

/-- `lookUp(k, v)`. -/
def lookUp (dp : DataPlaneOthello) (k : U64) : LudoExec U64 :=
  let ha := (dp.getIndices H k).1
  let hb := (dp.getIndices H k).2
  if (dp.lock (ha &&& 8191)).toNat % 2 = 1 ∨ (dp.lock (hb &&& 8191)).toNat % 2 = 1 then .error .othello
  else .ok (dp.valueOf H L k)

end DataPlaneOthello

end Outback
