import Mathlib.Data.Finset.Basic
import SparseVllm.Lib.Dict
import SparseVllm.Lib.Run
import SparseVllm.Lib.Walk
import SparseVllm.Prefix.Ancestry

/-!
# The radix tree with its nodes (`RadixTreeBackend`, `engine/prefix_cache.py`)

The backend as the source keeps it: nodes with parent pointers and child maps, the location map and
the leaf set, which every operation updates by hand. A node is named by a number, the root by `0`, and
a new one by the next number that was not given out; a removed node keeps its number. A loop over
pointers has fuel, and running out is an error of its own.

Left out: `_rebuild_locations`, which nothing calls, and `stats`.
-/

namespace SparseVllm

open SparseVllm.Lib

/-- A reference to a `RadixTreeNode`. -/
abbrev NodeId := Nat

/-- `RadixTreeNode`. -/
structure RadixTreeNode (B : Type) where
  segment : List B := []
  parent : Option NodeId := none
  children : Dict B NodeId := ∅

/-- `RadixTreeBackend`, with the nodes its references lead to. -/
structure RadixHeap (B : Type) where
  nodes : NodeId → RadixTreeNode B
  allocated : Nat
  locations : Dict B (NodeId × Nat)
  leafBlockIds : Finset B

/-- The `KeyError`s and `RuntimeError`s of the backend, and a loop that does not end. -/
inductive RadixHeapError where
  | rootChildExists
  | parentMissing
  | childExists
  | edgeInconsistent
  | blockMissing
  | liveTreeChildren
  | removeRoot
  | outOfFuel
  deriving DecidableEq, Repr

/-- A method of the backend. -/
abbrev RadixHeapM (B α : Type) := EStateM RadixHeapError (RadixHeap B) α

/-- `RadixLookupResult`. -/
structure RadixLookupResult (B : Type) where
  hitBlockCount : Nat
  lastBlockId : Option B
  deriving DecidableEq, Repr

namespace RadixHeap

variable {B : Type} [DecidableEq B]

/-- `RadixTreeBackend()`. -/
def empty : RadixHeap B where
  nodes := fun _ => {}
  allocated := 1
  locations := ∅
  leafBlockIds := ∅

/-- `not node.children`. -/
def childless (node : RadixTreeNode B) : Bool := node.children.values.isEmpty

/-- Assign to a node. -/
def setNode (n : NodeId) (node : RadixTreeNode B) (h : RadixHeap B) : RadixHeap B :=
  { h with nodes := Function.update h.nodes n node }

/-- `_index_segment`. -/
def indexSegment (n : NodeId) (h : RadixHeap B) : RadixHeap B :=
  { h with
    locations := (h.nodes n).segment.zipIdx.foldl (fun d e => d.set e.1 (n, e.2)) h.locations }

/-- `_unindex_segment`. -/
def unindexSegment (segment : List B) (h : RadixHeap B) : RadixHeap B :=
  { h with locations := segment.foldl (fun d id => d.pop id) h.locations }

/-- `_discard_leaf`. -/
def discardLeaf (n : NodeId) (h : RadixHeap B) : RadixHeap B :=
  match (h.nodes n).segment.getLast? with
  | some id => { h with leafBlockIds := h.leafBlockIds.erase id }
  | none => h

/-- `_add_leaf`. -/
def addLeaf (n : NodeId) (h : RadixHeap B) : RadixHeap B :=
  match (h.nodes n).segment.getLast? with
  | some id =>
    if childless (h.nodes n) then { h with leafBlockIds := insert id h.leafBlockIds } else h
  | none => h

/-- `if not node.children: self._discard_leaf(node)`. -/
def discarded (n : NodeId) (h : RadixHeap B) : RadixHeap B :=
  if childless (h.nodes n) then h.discardLeaf n else h

/-- `for child in children: child.parent = parent`. -/
def reparent (children : List NodeId) (parent : NodeId) (h : RadixHeap B) : RadixHeap B :=
  children.foldl (fun h c => h.setNode c { h.nodes c with parent := some parent }) h

/-- `_split_after`, which returns the node it is given. -/
def splitAfter (n : NodeId) (index : Nat) (h : RadixHeap B) : RadixHeap B :=
  let old := h.nodes n
  match old.segment.drop (index + 1) with
  | [] => h
  | next :: rest =>
    let h := h.unindexSegment old.segment
    let suffixNode := h.allocated
    let h := { h with allocated := h.allocated + 1 }
    let h := h.setNode suffixNode
      { segment := next :: rest, parent := some n, children := old.children }
    let h := h.reparent old.children.values suffixNode
    let h := h.setNode n
      { h.nodes n with
        segment := old.segment.take (index + 1)
        children := Dict.set ∅ next suffixNode }
    (h.indexSegment n).indexSegment suffixNode

/-- `child = RadixTreeNode(segment, parent)`, its entry in the parent's map, its locations and its
leaf. -/
def addChild (parent : NodeId) (id : B) (rest : List B) (h : RadixHeap B) : RadixHeap B :=
  let child := h.allocated
  let h := { h with allocated := h.allocated + 1 }
  let h := h.setNode child { segment := id :: rest, parent := some parent }
  let h := h.setNode parent
    { h.nodes parent with children := (h.nodes parent).children.set id child }
  (h.indexSegment child).addLeaf child

/-- `insert_child`. -/
def insertChild (parentBlockId : Option B) (blockId : B) : RadixHeapM B Unit := do
  match (← get).locations.get? blockId with
  | some _ => pure ()
  | none =>
    match parentBlockId with
    | none =>
      raiseIf (((← get).nodes 0).children.get? blockId).isSome .rootChildExists
      modify (addChild 0 blockId [])
    | some parent =>
      match (← get).locations.get? parent with
      | none => throw .parentMissing
      | some (n, index) =>
        modify (splitAfter n index)
        modify (discarded n)
        raiseIf (((← get).nodes n).children.get? blockId).isSome .childExists
        modify (addChild n blockId [])

/-- The inner loop of `lookup` over a segment: the count and last id it reaches, and the selector that
is left, if the segment ends first. -/
def lookupSegment : List B → List B → RadixLookupResult B → RadixLookupResult B × Option (List B)
  | [], ids, hit => (hit, some ids)
  | _ :: _, [], hit => (hit, none)
  | s :: segment, id :: ids, hit =>
    if id = s then lookupSegment segment ids ⟨hit.hitBlockCount + 1, some s⟩ else (hit, none)

/-- The outer loop of `lookup`, with the selector below the limit that is left. -/
def lookupLoop (h : RadixHeap B) :
    Nat → NodeId → List B → RadixLookupResult B → Option (RadixLookupResult B)
  | 0, _, _, _ => none
  | _ + 1, _, [], hit => some hit
  | fuel + 1, n, id :: ids, hit =>
    match (h.nodes n).children.get? id with
    | none => some hit
    | some c =>
      match lookupSegment (h.nodes c).segment (id :: ids) hit with
      | (hit, none) => some hit
      | (hit, some ids) => lookupLoop h fuel c ids hit

/-- `lookup`. -/
def lookup (h : RadixHeap B) (blockIds : List B) (maxBlocks : Int) : Option (RadixLookupResult B) :=
  let limit := min maxBlocks.toNat blockIds.length
  lookupLoop h (limit + 1) 0 (blockIds.take limit) ⟨0, none⟩

/-- The number of ids a segment and a path agree on. -/
def commonLength : List B → List B → Nat
  | id :: ids, s :: segment => if id = s then commonLength ids segment + 1 else 0
  | _, _ => 0

/-- The split of `insert`: a new node takes the first `common` ids and the child keeps the others. -/
def halve (n child : NodeId) (common : Nat) (h : RadixHeap B) : RadixHeap B :=
  let old := h.nodes child
  match old.segment.take common, old.segment.drop common with
  | first :: upper, next :: lower =>
    let h := h.unindexSegment old.segment
    let split := h.allocated
    let h := { h with allocated := h.allocated + 1 }
    let h := h.setNode split
      { segment := first :: upper, parent := some n, children := Dict.set ∅ next child }
    let h := h.setNode n { h.nodes n with children := (h.nodes n).children.set first split }
    h.setNode child { h.nodes child with segment := next :: lower, parent := some split }
  | _, _ => h

/-- The child is split, the rest of the path, if any, becomes a second child, and the halves are
indexed. -/
def splitBefore (n child : NodeId) (common : Nat) (path : List B) (h : RadixHeap B) : RadixHeap B :=
  let split := h.allocated
  let h := h.halve n child common
  let h := match path.drop common with
    | [] => h
    | id :: rest => h.addChild split id rest
  (h.indexSegment split).indexSegment child

/-- The loop of `insert`, with the path that is left. -/
def insertLoop : Nat → NodeId → List B → RadixHeapM B Unit
  | 0, _, _ => throw .outOfFuel
  | _ + 1, _, [] => pure ()
  | fuel + 1, n, id :: rest => do
    match ((← get).nodes n).children.get? id with
    | none =>
      modify (discarded n)
      modify (addChild n id rest)
    | some child =>
      let segment := ((← get).nodes child).segment
      let common := commonLength (id :: rest) segment
      if common = segment.length then insertLoop fuel child ((id :: rest).drop common)
      else do
        raiseIf (common = 0) .edgeInconsistent
        modify (splitBefore n child common (id :: rest))

/-- `insert`. -/
def insert (blockIds : List B) : RadixHeapM B Unit := insertLoop (blockIds.length + 1) 0 blockIds

/-- `remove_block`. -/
def removeBlock (blockId : B) : RadixHeapM B Unit := do
  match (← get).locations.get? blockId with
  | none => throw .blockMissing
  | some (n, index) =>
    let node := (← get).nodes n
    raiseIf (index + 1 ≠ node.segment.length ∨ childless node = false) .liveTreeChildren
    match node.parent with
    | none => throw .removeRoot
    | some parent =>
      modify fun h => { h with
        locations := h.locations.pop blockId
        leafBlockIds := h.leafBlockIds.erase blockId }
      match node.segment with
      | [first] =>
        modify fun h => h.setNode parent
          { h.nodes parent with children := (h.nodes parent).children.pop first }
        modify (addLeaf parent)
      | segment =>
        modify fun h => h.setNode n { h.nodes n with segment := segment.dropLast }
        modify (addLeaf n)

/-- The loop of `path_to_block`: the segments above a node, the nearest first. -/
def climb (h : RadixHeap B) : Nat → NodeId → Option (List (List B))
  | 0, _ => none
  | fuel + 1, n =>
    match (h.nodes n).parent with
    | none => some []
    | some p =>
      (climb h fuel p).map fun above =>
        if (h.nodes p).segment = [] then above else (h.nodes p).segment :: above

/-- `path_to_block`. -/
def pathToBlock (h : RadixHeap B) (blockId : B) : Option (List B) :=
  match h.locations.get? blockId with
  | none => none
  | some (n, index) =>
    (h.climb (h.locations.keys.length + 1) n).map fun above =>
      ((h.nodes n).segment.take (index + 1) :: above).reverse.flatten

/-- `subtree_block_ids`. -/
def subtreeBlockIds (h : RadixHeap B) (rootBlockId : B) : Option (List B) :=
  match h.locations.get? rootBlockId with
  | none => none
  | some (root, index) =>
    let children := fun n => (h.nodes n).children.values
    (walk children h.allocated (children root).reverse).map fun visited =>
      (h.nodes root).segment.drop index ++ visited.flatMap fun n => (h.nodes n).segment

/-- `child_count`. -/
def childCount (h : RadixHeap B) (blockId : B) : Option Nat :=
  match h.locations.get? blockId with
  | none => none
  | some (n, index) =>
    if index + 1 < (h.nodes n).segment.length then some 1
    else some (h.nodes n).children.values.length

/-- `child_block_ids`. -/
def childBlockIds (h : RadixHeap B) (blockId : B) : Option (List B) :=
  match h.locations.get? blockId with
  | none => none
  | some (n, index) =>
    match (h.nodes n).segment.drop (index + 1) with
    | next :: _ => some [next]
    | [] => some ((h.nodes n).children.values.filterMap fun c => (h.nodes c).segment.head?)

end RadixHeap

end SparseVllm
