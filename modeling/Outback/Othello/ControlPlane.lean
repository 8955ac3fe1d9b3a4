import Outback.Lib.Chains
import Outback.Lib.TreeSearch
import Outback.Othello.DisjointSet
import Outback.Othello.Common

/-!
# `Othello.ControlPlane` — the updatable classifier (`othello_cp_dp.h`)

An Othello maps keys to values of `L` bits. Every key is an edge between a node of array A and a node of array B, and its
value is the exclusive or of the cells of its two nodes; a second array `indMem` gives in the same way the index of the key
in `keys`. As long as the edges form a forest every assignment of values has cells for it. The control plane keeps that
forest: the edges at each node as linked lists (`head`, `nextAtA`, `nextAtB`) and its components as a disjoint set.

This is `ControlPlaneOthello<K, V, L, 0, true>` as the Ludo table uses it: no digest (`DL = 0`), the data plane maintained,
the disjoint set maintained, not randomized. `H` is the seeded hash `Hasher64<K>`. The calls that draw seeds take the
number of `rand()` calls made so far and return the new one. `build` may try seeds without end, so these calls have a bound
`depth` on how deep they nest; the searches through the trees have bounds that are never reached.
-/

namespace Outback

/-- `OthelloCPCell`: `keyId` and `nodeId`. No cell is the `keyId` `-1`. -/
abbrev OthelloCPCell := Nat × Nat

/-- `OthelloUpdateResult`. -/
structure OthelloUpdateResult where
  status : Int := 0
  xorTemplate : U64 := 0
  marks : Int × Int := (-1, -1)
  cc : List Nat := []

/-- The cells below `size` stay, the new ones are `fill`: `vector::resize`. -/
def resized {α : Type} (size : Nat) (fill : α) (v : Nat → α) : Nat → α := fun i => if i < size then v i else fill

structure ControlPlaneOthello extends OthelloCommon where
  compact : Bool
  nKeysInOthello : Nat
  /-- `keys.size()`, and the size of `values`, `nextAtA` and `nextAtB` -/
  keysSize : Nat
  keys : Nat → U64
  values : Nat → U64
  indMem : Nat → U32
  head : Nat → Option OthelloCPCell
  nextAtA : Nat → Option OthelloCPCell
  nextAtB : Nat → Option OthelloCPCell
  connectivityForest : DisjointSet

namespace ControlPlaneOthello

variable (H : HashFn) (L : Nat) (rand : Nat → U64)

/-! ## Looking up -/

/-- `lookUpIndex(k)`. -/
def lookUpIndex (t : ControlPlaneOthello) (k : U64) : Nat :=
  (t.indMem (t.getIndices H k).1 ^^^ t.indMem (t.getIndices H k).2).toNat

/-- `isMember(k)`. -/
def isMember (t : ControlPlaneOthello) (k : U64) : Bool :=
  decide (t.lookUpIndex H k < t.nKeysInOthello) && t.keys (t.lookUpIndex H k) == k

/-- `lookUp(k)`, whether or not the key is a member. -/
def lookUp (t : ControlPlaneOthello) (k : U64) : U64 := t.valueOf H L k

/-! ## The searches through the trees -/

/-- The cells of the list at a node. -/
def cells (t : ControlPlaneOthello) (nid : Nat) : LudoExec (List OthelloCPCell) :=
  Lib.walk (if nid < t.ma then t.nextAtA else t.nextAtB) .othello (t.keysSize + 1) (t.head nid)

/-- More turns than a search needs: there are fewer nodes. -/
def turns (t : ControlPlaneOthello) : Nat := t.ma + t.mb + 1

/-- The cells of both arrays. -/
abbrev Labels := OthelloMem × (Nat → U32)

/-- `fillSingle<fillValue, fillIndex>`: the cells of a node from those of the opposite node. -/
def fillSingle (t : ControlPlaneOthello) (fillValue fillIndex : Bool) (keyId nodeToFill oppositeNode : Nat) (s : Labels) :
    Labels :=
  (if fillValue then memSet L 0 s.1 nodeToFill (t.values keyId ^^^ memGet L 0 s.1 oppositeNode) else s.1,
    if fillIndex then Function.update s.2 nodeToFill (BitVec.ofNat 32 keyId ^^^ s.2 oppositeNode) else s.2)

/-- `fixSingle<fillValue, fillIndex>`. -/
def fixSingle (fillValue fillIndex : Bool) (nodeToFix : Nat) (x : U64) (ix : U32) (s : Labels) : Labels :=
  (if fillValue then memSet L 0 s.1 nodeToFix (x ^^^ memGet L 0 s.1 nodeToFix) else s.1,
    if fillIndex then Function.update s.2 nodeToFix (ix ^^^ s.2 nodeToFix) else s.2)

/-- `fixHalfTreeDFS<fillValue, fillIndex>`: fill the start node of the edge, and add what changed there to the cells of all
    nodes on its side of the edge. Returns what changed, the `xorTemplate`. -/
def fixHalfTreeDFS (fillValue fillIndex : Bool) (t : ControlPlaneOthello) (keyId startNode skippedNode : Nat) :
    LudoExec (ControlPlaneOthello × U64) :=
  if ¬ startNode < t.ma then .error .assertFailed
  else do
    let s := t.fillSingle L fillValue fillIndex keyId startNode skippedNode (t.mem, t.indMem)
    let x := if fillValue then memGet L 0 t.mem startNode ^^^ memGet L 0 s.1 startNode else 0
    let ix := if fillIndex then t.indMem startNode ^^^ s.2 startNode else 0
    let s ← Lib.treeSearch t.cells (fun _ _ nextNode s => fixSingle L fillValue fillIndex nextNode x ix s) .othello t.turns
      [(some keyId, startNode)] s
    .ok ({ t with mem := s.1, indMem := s.2 }, x)

/-- `fillTreeDFS<true, true>(root)`. -/
def fillTreeDFS (t : ControlPlaneOthello) (root : Nat) : LudoExec ControlPlaneOthello := do
  let s ← Lib.treeSearch t.cells (fun nid keyId nextNode s => t.fillSingle L true true keyId nextNode nid s) .othello t.turns
    [(none, root)] (t.mem, t.indMem)
  .ok { t with mem := s.1, indMem := s.2 }

/-- `fillValue()`: every tree from its root. -/
def fillValue (t : ControlPlaneOthello) : LudoExec ControlPlaneOthello :=
  (List.range (t.ma + t.mb)).foldlM (fun t i => if t.connectivityForest.isRoot i then t.fillTreeDFS L i else .ok t) t

/-- `connectDFS(root)`: all nodes of the tree are pointed at one of them. -/
def connectDFS (t : ControlPlaneOthello) (root : Nat) : LudoExec ControlPlaneOthello :=
  match t.head root with
  | none => .ok { t with connectivityForest := t.connectivityForest.set root root }
  | some cell => do
      let root := if t.ma < root then cell.2 else root
      let s ← Lib.treeSearch t.cells (fun _ _ nextNode s => DisjointSet.set s nextNode root) .othello t.turns
        [(none, root)] (t.connectivityForest.set root root)
      .ok { t with connectivityForest := s }

/-- `getHalfTree(k, startFromA, prependTheOtherEnd)`. -/
def getHalfTree (t : ControlPlaneOthello) (k : U64) (startFromA prependTheOtherEnd : Bool) : LudoExec (List Nat) :=
  let start := if startFromA then (t.getIndices H k).1 else (t.getIndices H k).2
  let other := if startFromA then (t.getIndices H k).2 else (t.getIndices H k).1
  Lib.treeSearch t.cells (fun _ _ nextNode result => result ++ [nextNode]) .othello t.turns
    [(some (t.lookUpIndex H k), start)] (if prependTheOtherEnd then [other, start] else [start])

/-! ## Building -/

/-- `resetBuildState()`. -/
def resetBuildState (t : ControlPlaneOthello) : ControlPlaneOthello where
  mem := (List.range (t.ma + t.mb)).foldl (fun mem i => memSet L 0 mem i 0) t.mem
  ma := t.ma
  mb := t.mb
  hab := t.hab
  compact := t.compact
  nKeysInOthello := t.nKeysInOthello
  keysSize := t.keysSize
  keys := t.keys
  values := t.values
  indMem := t.indMem
  head := fun _ => none
  nextAtA := fun _ => none
  nextAtB := fun _ => none
  connectivityForest := .reset

/-- `addEdge(key, ha, hb)`. -/
def addEdge (t : ControlPlaneOthello) (key ha hb : Nat) : LudoExec ControlPlaneOthello := do
  let headA := Function.update t.head ha (some (key, hb))
  let s ← t.connectivityForest.merge t.turns ha hb
  .ok { t with
    nextAtA := Function.update t.nextAtA key (t.head ha)
    nextAtB := Function.update t.nextAtB key (headA hb)
    head := Function.update headA hb (some (key, ha))
    connectivityForest := s }

/-- `testHash()`: the edges are added one after the other, until one closes a cycle. -/
def testHash : List Nat → ControlPlaneOthello → LudoExec (Bool × ControlPlaneOthello)
  | [], t => .ok (true, t)
  | i :: is, t => do
      let same ← t.connectivityForest.sameSet t.turns (t.getIndices H (t.keys i)).1 (t.getIndices H (t.keys i)).2
      let t := { t with connectivityForest := same.2 }
      if same.1 then .ok (false, t)
      else do
        let t ← t.addEdge i (t.getIndices H (t.keys i)).1 (t.getIndices H (t.keys i)).2
        testHash is t

/-- `tryBuild()`. -/
def tryBuild (t : ControlPlaneOthello) : LudoExec (Bool × ControlPlaneOthello) :=
  let t := t.resetBuildState L
  if t.nKeysInOthello = 0 then .ok (true, t)
  else do
    let succ ← testHash H (List.range t.nKeysInOthello) t
    if succ.1 then do
      let t ← succ.2.fillValue L
      .ok (true, t)
    else .ok succ

/-- `(uint64_t(rand()) << 32U) | rand()`. -/
def drawSeed (n : Nat) : U64 := rand n <<< 32 ||| rand (n + 1)

/-- The tries of one round of `build`, with `tries` left. -/
def rehash : Nat → ControlPlaneOthello → Nat → LudoExec (Bool × ControlPlaneOthello × Nat)
  | 0, t, n => .ok (false, t, n)
  | tries + 1, t, n => do
      let built ← tryBuild H L { t with hab := drawSeed rand n }
      if built.1 then .ok (true, built.2, n + 2) else rehash tries built.2 (n + 2)

def MAX_REHASH : Nat := 5

/-! ## Sizes -/

/-- A number of 53 bits, and zeros: a product of doubles is rounded to the nearest one, to an even one between two. -/
def roundTo53 (p : Nat) : Nat :=
  if p < 2 ^ 53 then p
  else
    let s := p.log2 - 52
    let q := p / 2 ^ s
    let r := p % 2 ^ s
    (if 2 ^ s < 2 * r ∨ (2 * r = 2 ^ s ∧ q % 2 = 1) then q + 1 else q) * 2 ^ s

/-- `nextMb <<= 1U` while it is below the target. -/
def doubleUntil (target : Nat) : Nat → Nat → Nat
  | 0, n => n
  | fuel + 1, n => if n < target then doubleUntil target fuel (n * 2) else n

/-- `nextMb` for a target capacity below `2 ^ 32`. -/
def nextMb (compact : Bool) (target : Nat) : Nat := if compact then target else doubleUntil target 32 256

/-- `uint64_t(1.33334 * nextMb)`; the double 1.33334 is `6004829527158177 / 2 ^ 52`. -/
def nextMa (nextMb : Nat) : Nat := roundTo53 (6004829527158177 * nextMb) / 2 ^ 52

/-- `nextMa < 0.8 * ma`; the double 0.8 is `3602879701896397 / 2 ^ 52`. -/
def shrinks (nextMa ma : Nat) : Bool := nextMa * 2 ^ 52 < roundTo53 (3602879701896397 * ma)

/-- `keys.size() * 1.33`; the double 1.33 is `748723438050345 / 2 ^ 49`. -/
def enlarged (keysSize : Nat) : Nat := roundTo53 (748723438050345 * keysSize) / 2 ^ 49

/-- Room for `target` keys. -/
def reserve (t : ControlPlaneOthello) (target : Nat) : ControlPlaneOthello :=
  if t.keysSize < target then
    { t with
      keysSize := max 256 (target * (if t.compact then 1 else 2) % 2 ^ 32)
      keys := resized t.keysSize 0 t.keys
      values := resized t.keysSize 0 t.values
      nextAtA := resized t.keysSize (some (0, 0)) t.nextAtA
      nextAtB := resized t.keysSize (some (0, 0)) t.nextAtB }
  else t

/-- The node arrays with their new sizes. -/
def resizeNodes (t : ControlPlaneOthello) (nextMa nextMb : Nat) : ControlPlaneOthello :=
  { t with
    ma := nextMa
    mb := nextMb
    mem := ⟨resized (((t.ma + t.mb) * L + 63) / 64) 0 t.mem.word⟩
    indMem := resized (t.ma + t.mb) 0 t.indMem
    head := resized (t.ma + t.mb) (some (0, 0)) t.head
    connectivityForest := resized (t.ma + t.mb) none t.connectivityForest }

/-- `resizeCapacity(targetCapacity, forceBuild)`, with the `build` that it calls. -/
def resizeCapacityWith (build : ControlPlaneOthello → Nat → LudoExec (ControlPlaneOthello × Nat)) (t : ControlPlaneOthello)
    (n : Nat) (targetCapacity : Nat) (forceBuild : Bool) : LudoExec (ControlPlaneOthello × Nat) :=
  let target := max t.nKeysInOthello (max targetCapacity 256)
  let mb := nextMb t.compact target
  let ma := nextMa mb
  if 2 ^ 32 ≤ ma + mb then .error .tooManyKeys
  else
    let t := t.reserve target
    if t.ma < ma ∨ shrinks ma t.ma then build (t.resizeNodes L ma mb) n
    else if forceBuild then build t n
    else .ok (t, n)

/-- `build()`: rounds of five tries. After a round that failed the table is enlarged, which builds it, and built again. -/
def build : Nat → ControlPlaneOthello → Nat → LudoExec (ControlPlaneOthello × Nat)
  | 0, _, _ => .error .depth
  | depth + 1, t, n => do
      let r ← rehash H L rand MAX_REHASH t n
      if r.1 then .ok r.2
      else do
        let e ← resizeCapacityWith L (build depth) r.2.1 r.2.2 (enlarged r.2.1.keysSize) true
        build depth e.1 e.2

/-- `resizeCapacity(targetCapacity, forceBuild)`. -/
def resizeCapacity (depth : Nat) : ControlPlaneOthello → Nat → Nat → Bool → LudoExec (ControlPlaneOthello × Nat) :=
  resizeCapacityWith L (build H L rand depth)

/-- `ControlPlaneOthello(keyCapacity, compact, keys, values)`. -/
def construct (depth n keyCapacity : Nat) (compact : Bool) (keys values : List U64) :
    LudoExec (ControlPlaneOthello × Nat) :=
  let nKeys := min (min keys.length values.length) keyCapacity
  resizeCapacity H L rand depth
    { mem := ⟨fun _ => 0⟩, ma := 0, mb := 0, hab := 0xe2211e2211, compact := compact, nKeysInOthello := nKeys
      keysSize := nKeys, keys := fun i => (keys.take nKeys).getD i 0, values := fun i => (values.take nKeys).getD i 0
      indMem := fun _ => 0, head := fun _ => none, nextAtA := fun _ => some (0, 0), nextAtB := fun _ => some (0, 0)
      connectivityForest := .reset }
    n (max keyCapacity nKeys) true

/-! ## Updates -/

/-- `changeValueAt(keyId, val)`. -/
def changeValueAt (t : ControlPlaneOthello) (keyId : Nat) (val : U64) : LudoExec (ControlPlaneOthello × U64) :=
  if ¬ keyId < t.nKeysInOthello then .error .assertFailed
  else
    let t := { t with values := Function.update t.values keyId val }
    t.fixHalfTreeDFS L true false keyId (t.getIndices H (t.keys keyId)).1 (t.getIndices H (t.keys keyId)).2

/-- `changeValue(k, val)`. -/
def changeValue (t : ControlPlaneOthello) (k : U64) (val : U64) : LudoExec (OthelloUpdateResult × ControlPlaneOthello) :=
  if ¬ t.isMember H k then .error .assertFailed
  else do
    let r ← t.changeValueAt H L (t.lookUpIndex H k) val
    if r.2 ≠ 0 then do
      let cc ← r.1.getHalfTree H k (decide (0 < r.2.toInt)) false
      .ok ({ xorTemplate := r.2, cc := cc }, r.1)
    else .ok ({ xorTemplate := r.2 }, r.1)

/-- `toggleInOthello(k)`; the values have one bit. -/
def toggleInOthello (t : ControlPlaneOthello) (k : U64) : LudoExec (OthelloUpdateResult × ControlPlaneOthello) :=
  if ¬ t.isMember H k then .error .assertFailed
  else do
    let keyId := t.lookUpIndex H k
    let t := { t with values := Function.update t.values keyId (if t.values keyId = 0 then 1 else 0) }
    let r ← t.fixHalfTreeDFS L true false keyId (t.getIndices H k).1 (t.getIndices H k).2
    let cc ← r.1.getHalfTree H k (decide (0 < r.2.toInt)) false
    .ok ({ xorTemplate := 1, cc := cc }, r.1)

/-- `isConnectedDFS(ha0, hb0)`, from the disjoint set. -/
def isConnectedDFS (t : ControlPlaneOthello) (ha hb : Nat) : LudoExec (Bool × ControlPlaneOthello) := do
  let same ← t.connectivityForest.sameSet t.turns ha hb
  .ok (same.1, { t with connectivityForest := same.2 })

/-- A key and its value at the end of `keys` and `values`. -/
def append (t : ControlPlaneOthello) (k v : U64) : ControlPlaneOthello :=
  { t with
    keys := Function.update t.keys t.nKeysInOthello k
    values := Function.update t.values t.nKeysInOthello v }

/-- `insert(k, v, DoNotRebuild)`. -/
def insert : Nat → ControlPlaneOthello → Nat → U64 → U64 → Bool →
    LudoExec (OthelloUpdateResult × ControlPlaneOthello × Nat)
  | 0, _, _, _, _, _ => .error .depth
  | depth + 1, t, n, k, v, doNotRebuild =>
      if t.isMember H k then do
        let r ← t.changeValue H L k v
        .ok (r.1, r.2, n)
      else if t.keysSize ≤ t.nKeysInOthello ∨ t.mb ≤ t.nKeysInOthello then
        if doNotRebuild then .ok ({ status := -2 }, t, n)
        else do
          let e ← resizeCapacity H L rand depth t n (t.nKeysInOthello * 4 % 2 ^ 32) true
          let r ← insert depth e.1 e.2 k v false
          if r.1.status < 0 then .error .othello else .ok ({ r.1 with status := 2 }, r.2)
      else do
        let ends := t.getIndices H k
        let connected ← t.isConnectedDFS ends.1 ends.2
        let t := connected.2
        if connected.1 then
          if doNotRebuild then .ok ({ status := -1 }, t, n)
          else do
            let b ← build H L rand depth { t.append k v with nKeysInOthello := t.nKeysInOthello + 1 } n
            .ok ({ status := 1 }, b)
        else do
          let t ← (t.append k v).addEdge t.nKeysInOthello ends.1 ends.2
          let r ← t.fixHalfTreeDFS L true true t.nKeysInOthello ends.1 ends.2
          let t := { r.1 with nKeysInOthello := r.1.nKeysInOthello + 1 }
          let cc ← t.getHalfTree H k (decide (0 < r.2.toInt)) false
          .ok ({ xorTemplate := r.2, cc := cc }, t, n)

/-- `clear()`. -/
def clear (t : ControlPlaneOthello) : ControlPlaneOthello := { t with nKeysInOthello := 0 }

/-! ## Removing -/

/-- The pointer to the cell of `key` in the lists of `ha` and `hb` is redirected to `atA` and `atB`. -/
def redirectBoth (t : ControlPlaneOthello) (key ha hb : Nat) (atA atB : Option OthelloCPCell) : LudoExec ControlPlaneOthello := do
  let a ← Lib.redirect t.nextAtA key LudoFault.othello (t.keysSize + 1) (t.head ha) atA
  let head := Function.update t.head ha a.1
  let b ← Lib.redirect t.nextAtB key LudoFault.othello (t.keysSize + 1) (head hb) atB
  .ok { t with head := Function.update head hb b.1, nextAtA := a.2, nextAtB := b.2 }

/-- "move the last to override current key-value": the key at index `last` gets the index `keyId`. -/
def moveLast (t : ControlPlaneOthello) (keyId last : Nat) : LudoExec ControlPlaneOthello := do
  let t := { t with keys := Function.update t.keys keyId (t.keys last), values := Function.update t.values keyId (t.values last) }
  let ends := t.getIndices H (t.keys last)
  let t := { t with
    nextAtA := Function.update t.nextAtA keyId (t.nextAtA last)
    nextAtB := Function.update t.nextAtB keyId (t.nextAtB last) }
  let t ← t.redirectBoth last ends.1 ends.2 (some (keyId, ends.2)) (some (keyId, ends.1))
  let r ← t.fixHalfTreeDFS L false true keyId ends.1 ends.2
  .ok r.1

/-- `isEmpty(index)`. -/
def isEmpty (t : ControlPlaneOthello) (index : Nat) : Bool := memGet L 0 t.mem index &&& 1 == 0

/-- `remove(k)`. -/
def remove (t : ControlPlaneOthello) (k : U64) : LudoExec (OthelloUpdateResult × ControlPlaneOthello) :=
  let keyId := t.lookUpIndex H k
  if ¬ keyId < t.nKeysInOthello ∨ t.keys keyId ≠ k then .ok ({}, t)
  else do
    let ends := t.getIndices H k
    let last := t.nKeysInOthello - 1
    let t ← { t with nKeysInOthello := last }.redirectBoth keyId ends.1 ends.2 (t.nextAtA keyId) (t.nextAtB keyId)
    let t ← if keyId ≠ last then t.moveLast H L keyId last else .ok t
    let t ← t.connectDFS ends.1
    let t ← t.connectDFS ends.2
    .ok ({ marks := (if t.isEmpty L ends.1 then ends.1 else -1, if t.isEmpty L ends.2 then ends.2 else -1) }, t)

end ControlPlaneOthello

end Outback
