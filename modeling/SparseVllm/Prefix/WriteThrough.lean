import SparseVllm.Prefix.Index

/-!
# Choosing blocks to back up (`select_write_through_candidates`, `engine/prefix_cache.py`)

The cache manager keeps the ids of unreferenced blocks that still have to be copied to the host. A
selection takes those whose parent is on the host, on its way there, or taken before.
-/

namespace SparseVllm.RadixPrefixIndex

variable {B P : Type} [LinearOrder B]

/-- The update of `pending` at the start of `select_write_through_candidates`. -/
def addCandidates (s : RadixPrefixIndex B P) (pending newlyUnreferenced : List B) : List B :=
  newlyUnreferenced.foldl (fun pending id =>
    match s.getBlock id with
    | some block => if block.refCount = 0 ∧ id ∉ pending then pending ++ [id] else pending
    | none => pending) pending

/-- A pending block that still has to be backed up. -/
def backUpCandidate (s : RadixPrefixIndex B P) (id : B) : Bool :=
  match s.getBlock id with
  | some block => decide (block.refCount = 0) && block.residency.devicePresent &&
      !block.residency.hostPresent && block.residency.transfer.isNone
  | none => false

/-- `(int(item.logical_block_idx), int(item.last_access))`. -/
def candidateKey (s : RadixPrefixIndex B P) (id : B) : Nat ×ₗ Nat :=
  match s.getBlock id with
  | some block => toLex (block.logicalBlockIdx, block.lastAccess)
  | none => toLex (0, 0)

/-- `parent_ready`, given the ids selected so far. -/
def candidateReady (s : RadixPrefixIndex B P) (selected : List B) (id : B) : Bool :=
  match s.parentAt id with
  | none => true
  | some p =>
    match s.getBlock p with
    | some parent => parent.residency.hostPresent ||
        decide (parent.residency.transfer = some .d2h) || decide (p ∈ selected)
    | none => false

/-- The selection loop, over the candidates in order. -/
def selectReady (s : RadixPrefixIndex B P) (selected : List B) : List B → List B
  | [] => selected
  | id :: rest =>
    selectReady s (if candidateReady s selected id then selected ++ [id] else selected) rest

/-- `select_write_through_candidates`: the selected ids, and the pending ids that stay. -/
def selectWriteThroughCandidates (s : RadixPrefixIndex B P) (pending newlyUnreferenced : List B) :
    List B × List B :=
  let candidates := (addCandidates s pending newlyUnreferenced).filter (backUpCandidate s)
  (selectReady s [] (candidates.mergeSort fun a b => decide (candidateKey s a ≤ candidateKey s b)),
    candidates)

end SparseVllm.RadixPrefixIndex
