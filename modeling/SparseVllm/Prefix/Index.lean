import Mathlib.Data.Finset.Basic
import Mathlib.Data.Prod.Lex
import Mathlib.Data.List.Sort
import SparseVllm.Lib.Heap
import SparseVllm.Lib.Program
import SparseVllm.Prefix.RadixTree
import SparseVllm.Prefix.RoutingSnapshot

/-!
# The prefix index (`RadixPrefixIndex`, `engine/prefix_cache.py`)

The index holds the cached prompt blocks: their reference counts, eviction priorities and residency
(device, host, a transfer in flight), and the radix tree of their ids. `B` is the type of stable
block ids and `P` the type of payloads, which a cache manager owns. A method is a program on the
index; it names a block by its id, so the source's identity check `self.blocks.get(id) is block`
reads here as a failed lookup.

Four sets of ids are memoised, each under the capacity epoch it was computed at (`CapacityView`).
The `scan` definitions are what the methods compute when the memo is out of date.

The index also keeps the set of its ids for routing snapshots, and the last snapshot it gave.

Left out: the contents of a `prune_record`, the inspection dictionaries and the counters that only
`stats()` reads. `committed_blocks` stays, since a rollback checks it.
-/

namespace SparseVllm

open SparseVllm.Lib

/-- `PrefixTransferKind`. -/
inductive PrefixTransferKind where
  | d2h
  | h2d
  deriving DecidableEq, Repr

/-- `PrefixBlockResidency`. -/
structure PrefixBlockResidency where
  devicePresent : Bool := true
  hostPresent : Bool := false
  transfer : Option PrefixTransferKind := none
  deriving DecidableEq, Repr

/-- `PrefixCacheBlock`. -/
structure PrefixCacheBlock (B P : Type) where
  stableBlockId : B
  parentBlockId : Option B
  blockSize : Nat
  logicalBlockIdx : Nat
  payload : P
  tokenIds : List Int := []
  refCount : Int := 0
  lastAccess : Nat := 0
  evictionPriority : Int := 0
  residency : PrefixBlockResidency := {}
  /-- `prune_record is not None`. -/
  hasPruneRecord : Bool := false
  deriving DecidableEq, Repr

/-- What the index raises, one constructor for each `raise`. -/
inductive PrefixIndexError (B : Type) where
  | noResidentPayload
  | d2hPayloads
  | h2dPayloads
  | radix (error : RadixError)
  | routing (error : RoutingError)
  | updateNotIndexed
  | negativeRefCount
  | blockNotFull (tokens blockSize : Nat)
  | badBlockCount (blockCount : Int)
  | chainTooShort (recovered : Nat) (expected : Int)
  | chainIncomplete (missing : B) (expected : Int)
  | badNeededBlocks (needed : Int)
  | notEnoughEvictable (live maxBlocks : Nat) (needed : Int) (evicted evictable : Nat)
  | capacityBeforeInsert (live maxBlocks : Nat)
  | insertParentMissing
  | deviceBelowHostOnly
  | hostBelowDeviceOnly
  | backUpNotIndexed
  | backUpReferenced
  | backUpHasHost
  | d2hWhileTransfer
  | d2hPathBroken
  | finishD2hInactive
  | publishBeforeParent
  | abortD2hInactive
  | promoteNotIndexed
  | promoteHasDevice
  | promoteNoHost
  | h2dWhileTransfer
  | h2dPathBroken
  | finishH2dInactive
  | abortH2dInactive
  | abortH2dChild
  | demotionWeight (block : B) (weight : Int)
  | evictionWeight (block : B) (weight : Int)
  | removeMissing
  | removeReferenced
  | removeNegativePriority
  | removeInFlight
  | removeLiveChildren
  | rollbackStale
  | rollbackReferenced
  | rollbackLiveChildren
  | rollbackStatistics
  | stalePlan
  deriving DecidableEq, Repr

/-- The raise of `PrefixBlockResidency.validate`, if it raises. -/
def PrefixBlockResidency.defect {B : Type} (r : PrefixBlockResidency) :
    Option (PrefixIndexError B) :=
  if r.devicePresent = false ∧ r.hostPresent = false then some .noResidentPayload
  else match r.transfer with
    | some .d2h =>
      if r.devicePresent = false ∨ r.hostPresent = true then some .d2hPayloads else none
    | some .h2d =>
      if r.devicePresent = false ∨ r.hostPresent = false then some .h2dPayloads else none
    | none => none

/-- `validate` does not raise. -/
def PrefixBlockResidency.Valid (r : PrefixBlockResidency) : Prop :=
  (r.devicePresent = true ∨ r.hostPresent = true) ∧
    (r.transfer = some .d2h → r.devicePresent = true ∧ r.hostPresent = false) ∧
    (r.transfer = some .h2d → r.devicePresent = true ∧ r.hostPresent = true)

instance (r : PrefixBlockResidency) : Decidable r.Valid := by
  unfold PrefixBlockResidency.Valid
  infer_instance

theorem PrefixBlockResidency.defect_eq_none {B : Type} {r : PrefixBlockResidency} :
    r.defect = (none : Option (PrefixIndexError B)) ↔ r.Valid := by
  obtain ⟨device, host, transfer⟩ := r
  rcases transfer with _ | (_ | _) <;> cases device <;> cases host <;>
    simp [PrefixBlockResidency.defect, PrefixBlockResidency.Valid]

/-- The four memoised sets: `freeable_block_ids`, `evictable_block_ids`,
`device_freeable_block_ids` and `device_reclaimable_block_ids`. -/
inductive CapacityView where
  | freeable
  | evictable
  | deviceFreeable
  | deviceReclaimable
  deriving DecidableEq, Repr

/-- `_…_cache_epoch` and `_…_block_ids_cache`; the epoch is `-1` before the first scan. -/
structure CapacityMemo (B : Type) where
  epoch : Int := -1
  ids : Finset B := ∅

/-- `RadixPrefixIndex`. -/
structure RadixPrefixIndex (B P : Type) where
  blockSize : Nat
  maxBlocks : Option Nat
  backend : RadixTreeBackend B := .empty
  blocks : Dict B (PrefixCacheBlock B P) := ∅
  clock : Nat := 0
  mutationEpoch : Int := 0
  capacityEpoch : Int := 0
  lookupEpoch : Int := 0
  insertEpoch : Int := 0
  removeEpoch : Int := 0
  memo : CapacityView → CapacityMemo B := fun _ => {}
  committedBlocks : Int := 0
  routingMembership : PrefixCacheRoutingMembership B := {}
  lastRoutingSnapshot : Option (PrefixCacheRoutingSnapshot B) := none

/-- A method of the index. -/
abbrev PrefixIndexM (B P α : Type) :=
  EStateM (PrefixIndexError B) (RadixPrefixIndex B P) α

namespace RadixPrefixIndex

variable {B P : Type} [LinearOrder B]

/-- `get_block`. -/
def getBlock (s : RadixPrefixIndex B P) (id : B) : Option (PrefixCacheBlock B P) :=
  s.blocks.get? id

/-- `self.blocks[id] = block`, and an attribute update of the block at `id`. -/
def setBlock (s : RadixPrefixIndex B P) (id : B) (block : PrefixCacheBlock B P) :
    RadixPrefixIndex B P :=
  { s with blocks := s.blocks.set id block }

/-- `_mark_mutated`. -/
def markMutated (s : RadixPrefixIndex B P) : RadixPrefixIndex B P :=
  { s with mutationEpoch := s.mutationEpoch + 1 }

/-- `_mark_capacity_mutated`. -/
def markCapacityMutated (s : RadixPrefixIndex B P) : RadixPrefixIndex B P :=
  { s with capacityEpoch := s.capacityEpoch + 1, mutationEpoch := s.mutationEpoch + 1 }

/-- `_mark_inserted`. -/
def markInserted (s : RadixPrefixIndex B P) (capacityChanged : Bool) : RadixPrefixIndex B P :=
  let t := { s with insertEpoch := s.insertEpoch + 1, lookupEpoch := s.lookupEpoch + 1 }
  if capacityChanged then t.markCapacityMutated else t.markMutated

/-- `_mark_removed`. -/
def markRemoved (s : RadixPrefixIndex B P) : RadixPrefixIndex B P :=
  let t := { s with removeEpoch := s.removeEpoch + 1, lookupEpoch := s.lookupEpoch + 1 }
  t.markCapacityMutated

/-- `_tick`. -/
def tick (s : RadixPrefixIndex B P) : RadixPrefixIndex B P := { s with clock := s.clock + 1 }

/-- `block.residency.validate()`. -/
def validate (r : PrefixBlockResidency) : PrefixIndexM B P Unit :=
  match r.defect with
  | some e => throw e
  | none => pure ()

/-- The indexed block of an id, or the raise of the identity check. -/
def indexed (id : B) (error : PrefixIndexError B) : PrefixIndexM B P (PrefixCacheBlock B P) := do
  let s ← get
  match s.getBlock id with
  | some block => pure block
  | none => throw error

/-- `mark_payload_compacted`. -/
def markPayloadCompacted (blocks : List B) : PrefixIndexM B P Unit :=
  if blocks = [] then pure ()
  else do
    forEach blocks fun id => do
      let _ ← indexed id .updateNotIndexed
    modify markCapacityMutated

/-! ## Reference counts -/

/-- The end of `set_block_ref_count`: the capacity epoch moves when the count reaches or leaves
zero. -/
def storeRefCount (block : PrefixCacheBlock B P) (id : B) (refCount : Int) :
    PrefixIndexM B P Unit :=
  if block.refCount = refCount then pure ()
  else modify fun s =>
    let t := s.setBlock id { block with refCount := refCount }
    if (block.refCount = 0) ≠ (refCount = 0) then t.markCapacityMutated else t.markMutated

/-- `set_block_ref_count`. -/
def setBlockRefCount (id : B) (refCount : Int) : PrefixIndexM B P Unit := do
  let block ← indexed id .updateNotIndexed
  raiseIf (refCount < 0) .negativeRefCount
  storeRefCount block id refCount

/-- `acquire_block_ref`. -/
def acquireBlockRef (id : B) : PrefixIndexM B P Unit := do
  let block ← indexed id .updateNotIndexed
  setBlockRefCount id (block.refCount + 1)

/-- `release_block_ref`. -/
def releaseBlockRef (id : B) : PrefixIndexM B P Unit := do
  let block ← indexed id .updateNotIndexed
  setBlockRefCount id (block.refCount - 1)

/-! ## Routing snapshots -/

/-- The snapshot `routing_snapshot` builds. -/
def newRoutingSnapshot (s : RadixPrefixIndex B P) (method : String) :
    PrefixCacheRoutingSnapshot B where
  supported := true
  enabled := true
  method := method
  blockSize := some s.blockSize
  routingMembership := some s.routingMembership

/-- `routing_snapshot`: the last snapshot again while it is for this method. -/
def routingSnapshot (method : String) : PrefixIndexM B P (PrefixCacheRoutingSnapshot B) := do
  let s ← get
  match s.lastRoutingSnapshot.filter (·.method = method) with
  | some snapshot => pure snapshot
  | none =>
    raiseIf (s.routingMembership.liveBlocks ≠ s.blocks.entries.length)
      (.routing (.inconsistent s.routingMembership.liveBlocks s.blocks.entries.length))
    set { s with lastRoutingSnapshot := some (s.newRoutingSnapshot method) }
    pure (s.newRoutingSnapshot method)

/-- `self._routing_membership = …; self._routing_snapshot = None`. -/
def storeRouting : Except RoutingError (PrefixCacheRoutingMembership B) → PrefixIndexM B P Unit
  | .error e => throw (.routing e)
  | .ok membership =>
    modify fun s => { s with routingMembership := membership, lastRoutingSnapshot := none }

/-- `_record_routing_insert`. -/
def recordRoutingInsert (id : B) : PrefixIndexM B P Unit := do
  let s ← get
  storeRouting (s.routingMembership.insert id)

/-- `_record_routing_remove`. -/
def recordRoutingRemove (id : B) : PrefixIndexM B P Unit := do
  let s ← get
  storeRouting (s.routingMembership.remove id)

/-! ## Lookups -/

/-- `block_ids_for_tokens`: the chained ids of the full blocks of a token list. -/
def blockIdsForTokens (hash : List Int → Option B → B) (blockSize : Nat) (tokenIds : List Int)
    (limit : Nat) : List B :=
  go (min limit tokenIds.length / blockSize) none tokenIds
where
  /-- `range(0, token_limit, self.block_size)`, with the id of the block before. -/
  go : Nat → Option B → List Int → List B
    | 0, _, _ => []
    | n + 1, parent, rest =>
      let id := hash (rest.take blockSize) parent
      id :: go n (some id) (rest.drop blockSize)

/-- `match_longest_block_ids`: the hit length, the last id and the hit count. -/
def matchLongestBlockIds (s : RadixPrefixIndex B P) (blockIds : List B) : Nat × Option B × Nat :=
  let hit := s.backend.lookup blockIds blockIds.length
  (hit.length * s.blockSize, hit.getLast?, hit.length)

/-- The blocks of a path, in order. -/
def recoverChain (expected : Int) : List B → PrefixIndexM B P (List (PrefixCacheBlock B P))
  | [] => pure []
  | id :: rest => do
    let block ← indexed id (.chainIncomplete id expected)
    let chain ← recoverChain expected rest
    pure (block :: chain)

/-- `get_chain`. -/
def getChain (lastBlockId : B) (blockCount : Int) :
    PrefixIndexM B P (List (PrefixCacheBlock B P)) := do
  raiseIf (blockCount ≤ 0) (.badBlockCount blockCount)
  let s ← get
  raiseIf (lastBlockId ∉ s.backend.ids) (.radix .blockMissing)
  let path := s.backend.pathToBlock lastBlockId
  raiseIf ((path.length : Int) < blockCount) (.chainTooShort path.length blockCount)
  recoverChain blockCount (path.drop (path.length - blockCount.toNat))

/-- `for block in blocks: block.last_access = access`. -/
def touchAll (access : Nat) (d : Dict B (PrefixCacheBlock B P)) (ids : List B) :
    Dict B (PrefixCacheBlock B P) :=
  ids.foldl (fun d id => d.modify id fun block => { block with lastAccess := access }) d

/-- `touch_chain`. -/
def touchChain (ids : List B) : PrefixIndexM B P Unit :=
  modify fun s => { s.tick with blocks := touchAll s.tick.clock s.blocks ids }

/-! ## Insertion -/

/-- The parent check of `insert_block`. -/
def checkParent (block : PrefixCacheBlock B P) : PrefixIndexM B P Unit := do
  match block.parentBlockId with
  | none => pure ()
  | some p =>
    let parent ← indexed p .insertParentMissing
    raiseIf (block.residency.devicePresent = true ∧ parent.residency.devicePresent = false)
      .deviceBelowHostOnly
    raiseIf (block.residency.hostPresent = true ∧ parent.residency.hostPresent = false)
      .hostBelowDeviceOnly

/-- `block_is_locally_blocked`. -/
def LocallyBlocked (block : PrefixCacheBlock B P) : Prop :=
  block.refCount ≠ 0 ∨ block.evictionPriority < 0 ∨ block.residency.transfer ≠ none

instance (block : PrefixCacheBlock B P) : Decidable (LocallyBlocked block) := by
  unfold LocallyBlocked
  infer_instance

/-- `block_is_locally_blocked and (parent is None or parent_is_locally_blocked)`: the insertion
leaves the capacity epoch alone. -/
def InsertedBlocked (s : RadixPrefixIndex B P) (block : PrefixCacheBlock B P) : Prop :=
  LocallyBlocked block ∧
    match block.parentBlockId with
    | none => True
    | some p =>
      match s.getBlock p with
      | none => True
      | some parent => LocallyBlocked parent

instance (s : RadixPrefixIndex B P) (block : PrefixCacheBlock B P) :
    Decidable (s.InsertedBlocked block) := by
  unfold InsertedBlocked
  cases block.parentBlockId with
  | none => infer_instance
  | some p =>
    simp only
    cases s.getBlock p with
    | none => infer_instance
    | some parent => infer_instance

/-- The end of an insertion, once the tree holds the block. -/
def linkInserted (stored : PrefixCacheBlock B P) :
    Except RadixError (RadixTreeBackend B) → PrefixIndexM B P (PrefixCacheBlock B P)
  | .error e => throw (.radix e)
  | .ok backend => do
    modify fun s => { s with backend := backend, committedBlocks := s.committedBlocks + 1 }
    recordRoutingInsert stored.stableBlockId
    modify fun s => s.markInserted (¬ s.InsertedBlocked stored)
    pure stored

/-- `self.blocks[...] = block; self.backend.insert_child(...)`, and the marks after it. -/
def storeInserted (block : PrefixCacheBlock B P) : PrefixIndexM B P (PrefixCacheBlock B P) := do
  modify tick
  let s ← get
  let stored := { block with lastAccess := s.clock }
  set (s.setBlock block.stableBlockId stored)
  linkInserted stored (s.backend.insertChild block.parentBlockId block.stableBlockId)

/-- `len(self.blocks) >= self.max_blocks`. The message also counts `evictable_blocks()`: that field, and
the refresh of the memo behind it, are left out. -/
def checkCapacity : PrefixIndexM B P Unit := do
  let s ← get
  match s.maxBlocks with
  | none => pure ()
  | some m => raiseIf (m ≤ s.blocks.entries.length) (.capacityBeforeInsert s.blocks.entries.length m)

/-- `insert_block`: a block already indexed is returned as it is. -/
def insertBlock (block : PrefixCacheBlock B P) : PrefixIndexM B P (PrefixCacheBlock B P) := do
  validate block.residency
  let s ← get
  match s.getBlock block.stableBlockId with
  | some existing =>
    let t := s.tick
    let touched := { existing with lastAccess := t.clock }
    set (t.setBlock block.stableBlockId touched)
    pure touched
  | none =>
    checkCapacity
    checkParent block
    storeInserted block

/-! ## Transfers -/

/-- `block.residency.… = …; block.residency.validate(); self._mark_capacity_mutated()`. -/
def reside (id : B) (block : PrefixCacheBlock B P) (r : PrefixBlockResidency) :
    PrefixIndexM B P Unit := do
  modify fun s => s.setBlock id { block with residency := r }
  validate r
  modify markCapacityMutated

/-- `parent is None or ready(parent)`, for a block below the root. -/
def parentReady (s : RadixPrefixIndex B P) (block : PrefixCacheBlock B P)
    (ready : PrefixBlockResidency → Bool) : Bool :=
  match block.parentBlockId with
  | none => true
  | some p =>
    match s.getBlock p with
    | some parent => ready parent.residency
    | none => false

/-- `begin_d2h`. -/
def beginD2h (id : B) : PrefixIndexM B P Unit := do
  let block ← indexed id .backUpNotIndexed
  validate block.residency
  raiseIf (block.refCount ≠ 0) .backUpReferenced
  raiseIf (block.residency.hostPresent = true) .backUpHasHost
  raiseIf (block.residency.transfer ≠ none) .d2hWhileTransfer
  let s ← get
  raiseIf (s.parentReady block (fun r => r.hostPresent || r.transfer = some .d2h) = false)
    .d2hPathBroken
  reside id block { block.residency with transfer := some .d2h }

/-- `finish_d2h`. -/
def finishD2h (id : B) : PrefixIndexM B P Unit := do
  let block ← indexed id .finishD2hInactive
  raiseIf (block.residency.transfer ≠ some .d2h) .finishD2hInactive
  let s ← get
  raiseIf (s.parentReady block (·.hostPresent) = false) .publishBeforeParent
  reside id block { block.residency with hostPresent := true, transfer := none }

/-- `abort_d2h`. -/
def abortD2h (id : B) : PrefixIndexM B P Unit := do
  let block ← indexed id .abortD2hInactive
  raiseIf (block.residency.transfer ≠ some .d2h) .abortD2hInactive
  reside id block { block.residency with transfer := none }

/-- `begin_h2d`. -/
def beginH2d (id : B) : PrefixIndexM B P Unit := do
  let block ← indexed id .promoteNotIndexed
  validate block.residency
  raiseIf (block.residency.devicePresent = true) .promoteHasDevice
  raiseIf (block.residency.hostPresent = false) .promoteNoHost
  raiseIf (block.residency.transfer ≠ none) .h2dWhileTransfer
  let s ← get
  raiseIf (s.parentReady block (·.devicePresent) = false) .h2dPathBroken
  reside id block { block.residency with devicePresent := true, transfer := some .h2d }

/-- `finish_h2d`. -/
def finishH2d (id : B) : PrefixIndexM B P Unit := do
  let block ← indexed id .finishH2dInactive
  raiseIf (block.residency.transfer ≠ some .h2d) .finishH2dInactive
  reside id block { block.residency with transfer := none }

/-- The child is indexed and has a device payload. -/
def childOnDevice (s : RadixPrefixIndex B P) (id : B) : Bool :=
  match s.getBlock id with
  | some child => child.residency.devicePresent
  | none => false

/-- `device_child_count`. -/
def deviceChildCount (s : RadixPrefixIndex B P) (id : B) : Nat :=
  (s.backend.childBlockIds id).countP s.childOnDevice

/-- `abort_h2d`. -/
def abortH2d (id : B) : PrefixIndexM B P Unit := do
  let block ← indexed id .abortH2dInactive
  raiseIf (block.residency.transfer ≠ some .h2d) .abortH2dInactive
  let s ← get
  raiseIf (s.deviceChildCount id ≠ 0) .abortH2dChild
  reside id block { block.residency with devicePresent := false, transfer := none }

/-! ## Capacity views -/

/-- A block that nothing but its children keeps from being removed. -/
def Removable (block : PrefixCacheBlock B P) : Prop :=
  block.refCount = 0 ∧ 0 ≤ block.evictionPriority ∧ block.residency.transfer = none

instance (block : PrefixCacheBlock B P) : Decidable (Removable block) := by
  unfold Removable
  infer_instance

/-- `locally_freeable` of the block at `id`. -/
def removableAt (s : RadixPrefixIndex B P) (id : B) : Bool :=
  match s.getBlock id with
  | some block => decide (Removable block)
  | none => false

/-- The ids `evictable_block_ids` collects. -/
def scanEvictable (s : RadixPrefixIndex B P) : Finset B :=
  (s.backend.leafBlockIds.filter s.removableAt).toFinset

/-- `for block_id in reversed(node.segment)`: the freeable ids of a segment, and whether all of it
is freeable, given whether everything below it is. -/
def freeableSegment (removable : B → Bool) (below : Bool) : List B → List B × Bool
  | [] => ([], below)
  | id :: rest =>
    let r := freeableSegment removable below rest
    if removable id && r.2 then (id :: r.1, true) else (r.1, false)

/-- The post-order pass of `freeable_block_ids`: the freeable ids of a forest, and whether every
tree of it is freeable (`children_freeable`). -/
def freeableForest (removable : B → Bool) : RadixForest B → List B × Bool
  | .nil => ([], true)
  | .node segment children siblings =>
    let below := freeableForest removable children
    let own := freeableSegment removable below.2 segment
    let others := freeableForest removable siblings
    (own.1 ++ (below.1 ++ others.1), own.2 && others.2)

/-- The ids `freeable_block_ids` collects. -/
def scanFreeable (s : RadixPrefixIndex B P) : Finset B :=
  (freeableForest s.removableAt s.backend.root).1.toFinset

/-- `locally_freeable` of `_device_reclaimable_block_ids`. -/
def DeviceReclaimable (inflight : Bool) (block : PrefixCacheBlock B P) : Prop :=
  block.refCount = 0 ∧ 0 ≤ block.evictionPriority ∧ block.residency.devicePresent = true ∧
    ((block.residency.hostPresent = true ∧ block.residency.transfer = none) ∨
      (inflight = true ∧ block.residency.transfer = some .d2h))

instance (inflight : Bool) (block : PrefixCacheBlock B P) :
    Decidable (DeviceReclaimable inflight block) := by
  unfold DeviceReclaimable
  infer_instance

/-- `locally_freeable` of the block at `id`. -/
def reclaimableAt (s : RadixPrefixIndex B P) (inflight : Bool) (id : B) : Bool :=
  match s.getBlock id with
  | some block => decide (DeviceReclaimable inflight block)
  | none => false

/-- The parent id of the block at `id`. -/
def parentAt (s : RadixPrefixIndex B P) (id : B) : Option B :=
  match s.getBlock id with
  | some block => block.parentBlockId
  | none => none

/-- The ids with a device payload. -/
def deviceIds (s : RadixPrefixIndex B P) : List B :=
  (s.blocks.entries.filter fun e => e.2.residency.devicePresent).map (·.1)

/-- The ids `_device_reclaimable_block_ids` collects, from the device leaves up. -/
def scanDeviceReclaimable (s : RadixPrefixIndex B P) (inflight : Bool) : Finset B :=
  let deviceChildren : Dict B Int := Dict.ofKeys s.deviceIds fun id => s.deviceChildCount id
  let leaves := s.deviceIds.filter fun id => s.deviceChildCount id = 0
  (peelLoop s.parentAt (s.reclaimableAt inflight) s.deviceIds.length deviceChildren
    leaves []).toFinset

/-- The set of a view, computed from the blocks and the tree. -/
def scan (s : RadixPrefixIndex B P) : CapacityView → Finset B
  | .freeable => s.scanFreeable
  | .evictable => s.scanEvictable
  | .deviceFreeable => s.scanDeviceReclaimable false
  | .deviceReclaimable => s.scanDeviceReclaimable true

/-- A memoised view: the memo of the current capacity epoch, else a scan, which is stored. -/
def memoised (view : CapacityView) : PrefixIndexM B P (Finset B) := do
  let s ← get
  if (s.memo view).epoch = s.capacityEpoch then pure (s.memo view).ids
  else
    set { s with memo := Function.update s.memo view ⟨s.capacityEpoch, s.scan view⟩ }
    pure (s.scan view)

/-- `freeable_block_ids`. -/
def freeableBlockIds : PrefixIndexM B P (Finset B) := memoised .freeable

/-- `evictable_block_ids`. -/
def evictableBlockIds : PrefixIndexM B P (Finset B) := memoised .evictable

/-- `device_freeable_block_ids`. -/
def deviceFreeableBlockIds : PrefixIndexM B P (Finset B) := memoised .deviceFreeable

/-- `device_reclaimable_block_ids`. -/
def deviceReclaimableBlockIds : PrefixIndexM B P (Finset B) := memoised .deviceReclaimable

/-! ## Removal -/

/-- `can_evict`. -/
def canEvict (s : RadixPrefixIndex B P) (block : PrefixCacheBlock B P) : Bool :=
  decide (Removable block) && s.backend.childCount block.stableBlockId = 0

/-- `can_demote_device`. -/
def canDemoteDevice (s : RadixPrefixIndex B P) (block : PrefixCacheBlock B P) : Bool :=
  decide (Removable block) && block.residency.devicePresent && block.residency.hostPresent &&
    s.deviceChildCount block.stableBlockId = 0

/-- `can_evict_host`. -/
def canEvictHost (s : RadixPrefixIndex B P) (block : PrefixCacheBlock B P) : Bool :=
  decide (Removable block) && !block.residency.devicePresent && block.residency.hostPresent &&
    s.backend.childCount block.stableBlockId = 0

/-- The end of `_remove_block_from_index`. -/
def dropFromIndex (id : B) : PrefixIndexM B P Unit := do
  let s ← get
  match s.backend.removeBlock id with
  | .error e => throw (.radix e)
  | .ok backend =>
    set { s with backend := backend, blocks := s.blocks.pop id }
    recordRoutingRemove id
    modify markRemoved

/-- `_remove_block_from_index`. -/
def removeBlockFromIndex (id : B) : PrefixIndexM B P (PrefixCacheBlock B P) := do
  let block ← indexed id .removeMissing
  raiseIf (block.refCount ≠ 0) .removeReferenced
  raiseIf (block.evictionPriority < 0) .removeNegativePriority
  raiseIf (block.residency.transfer ≠ none) .removeInFlight
  let s ← get
  raiseIf (s.backend.childCount id ≠ 0) .removeLiveChildren
  dropFromIndex id
  pure block

/-- `rollback_inserted_leaf`. -/
def rollbackInsertedLeaf (id : B) : PrefixIndexM B P Unit := do
  let block ← indexed id .rollbackStale
  raiseIf (block.refCount ≠ 0) .rollbackReferenced
  let s ← get
  raiseIf (s.backend.childCount id ≠ 0) .rollbackLiveChildren
  raiseIf (s.committedBlocks ≤ 0) .rollbackStatistics
  let _ ← removeBlockFromIndex id
  modify fun t => { t with committedBlocks := t.committedBlocks - 1 }

/-- `(-int(block.eviction_priority), int(block.last_access), block_id)`. -/
abbrev EvictionKey (B : Type) := Int ×ₗ Nat ×ₗ B

/-- The heap key of a block. -/
def evictionKey (id : B) (block : PrefixCacheBlock B P) : EvictionKey B :=
  toLex (-block.evictionPriority, toLex (block.lastAccess, id))

/-- `queue_if_evictable` and `queue_if_demotable`, on the heap and the set of queued ids. -/
def queueIf (eligible : RadixPrefixIndex B P → PrefixCacheBlock B P → Bool)
    (s : RadixPrefixIndex B P) (q : List (EvictionKey B) × List B) (id : B) :
    List (EvictionKey B) × List B :=
  if id ∈ q.2 then q
  else match s.getBlock id with
    | none => q
    | some block => if eligible s block then (evictionKey id block :: q.1, id :: q.2) else q

/-- `queue_if_…(block.parent_block_id)`. -/
def queueParent (eligible : RadixPrefixIndex B P → PrefixCacheBlock B P → Bool)
    (s : RadixPrefixIndex B P) (q : List (EvictionKey B) × List B)
    (block : PrefixCacheBlock B P) : List (EvictionKey B) × List B :=
  match block.parentBlockId with
  | none => q
  | some p => queueIf eligible s q p

/-- The policy of one of the three eviction loops: which blocks may go, what one weighs, the raise
on a negative weight, and how one goes. -/
structure EvictionPolicy (B P : Type) where
  eligible : RadixPrefixIndex B P → PrefixCacheBlock B P → Bool
  weight : PrefixCacheBlock B P → Int
  negativeWeight : B → Int → PrefixIndexError B
  take : PrefixCacheBlock B P → PrefixIndexM B P (PrefixCacheBlock B P)

/-- `while weight < needed_weight`, popping the heap; the blocks taken, in order. A popped id that
is no longer eligible is skipped. `fuel` bounds the pops. -/
def evictionLoop (policy : EvictionPolicy B P) (needed : Int) :
    Nat → Int → List (EvictionKey B) × List B → PrefixIndexM B P (List (PrefixCacheBlock B P))
  | 0, _, _ => pure []
  | fuel + 1, taken, (heap, queued) =>
    if needed ≤ taken then pure []
    else match popMin heap with
      | none => pure []
      | some (key, heap) => do
        let id := (ofLex (ofLex key).2).2
        let queued := queued.filter (· ≠ id)
        let s ← get
        match (s.getBlock id).filter (policy.eligible s) with
        | none => evictionLoop policy needed fuel taken (heap, queued)
        | some block =>
          raiseIf (policy.weight block < 0) (policy.negativeWeight id (policy.weight block))
          let gone ← policy.take block
          let t ← get
          let rest ← evictionLoop policy needed fuel (taken + policy.weight block)
            (queueParent policy.eligible t (heap, queued) block)
          pure (gone :: rest)

/-- Pops are bounded by the first candidates and, for each block that goes, its parent. -/
def evictionFuel (s : RadixPrefixIndex B P) : Nat := 2 * s.blocks.entries.length + 1

/-- Start an eviction loop from its first candidates. -/
def runEviction (policy : EvictionPolicy B P) (needed : Int)
    (candidates : RadixPrefixIndex B P → List B) :
    PrefixIndexM B P (List (PrefixCacheBlock B P)) := do
  let s ← get
  evictionLoop policy needed s.evictionFuel 0
    ((candidates s).foldl (queueIf policy.eligible s) ([], []))

/-- `evict_until_weight`. -/
def evictUntilWeight (needed : Int) (weight : PrefixCacheBlock B P → Int) :
    PrefixIndexM B P (List (PrefixCacheBlock B P)) :=
  runEviction
    { eligible := canEvict
      weight := weight
      negativeWeight := .evictionWeight
      take := fun block => removeBlockFromIndex block.stableBlockId }
    needed fun s => s.backend.leafBlockIds

/-- `evict_until_freeable`. -/
def evictUntilFreeable (needed : Int) : PrefixIndexM B P (List (PrefixCacheBlock B P)) :=
  evictUntilWeight needed fun _ => 1

/-- `evict_host_until_freeable`. -/
def evictHostUntilFreeable (needed : Int) : PrefixIndexM B P (List (PrefixCacheBlock B P)) :=
  runEviction
    { eligible := canEvictHost
      weight := fun _ => 1
      negativeWeight := .evictionWeight
      take := fun block => removeBlockFromIndex block.stableBlockId }
    needed fun s => s.backend.leafBlockIds

/-- `block.residency.device_present = False`, of the demotion loop. -/
def demote (block : PrefixCacheBlock B P) : PrefixIndexM B P (PrefixCacheBlock B P) := do
  let r := { block.residency with devicePresent := false }
  reside block.stableBlockId block r
  pure { block with residency := r }

/-- `demote_device_until_weight`. -/
def demoteDeviceUntilWeight (needed : Int) (weight : PrefixCacheBlock B P → Int) :
    PrefixIndexM B P (List (PrefixCacheBlock B P)) :=
  runEviction
    { eligible := canDemoteDevice
      weight := weight
      negativeWeight := .demotionWeight
      take := demote }
    needed fun s => s.deviceIds.filter fun id => s.deviceChildCount id = 0

/-- `demote_device_until_freeable`. -/
def demoteDeviceUntilFreeable (needed : Int) : PrefixIndexM B P (List (PrefixCacheBlock B P)) :=
  demoteDeviceUntilWeight needed fun _ => 1

/-- The evictions of `ensure_insert_capacity`. -/
def evictForInsert (maxBlocks : Nat) (needed overCapacity : Int) :
    PrefixIndexM B P (List (PrefixCacheBlock B P)) := do
  let evicted ← evictUntilFreeable overCapacity
  if (evicted.length : Int) = overCapacity then pure evicted
  else
    let s ← get
    let evictable ← evictableBlockIds
    throw (.notEnoughEvictable s.blocks.entries.length maxBlocks needed evicted.length
      evictable.card)

/-- `ensure_insert_capacity`. -/
def ensureInsertCapacity (needed : Int) : PrefixIndexM B P (List (PrefixCacheBlock B P)) := do
  let s ← get
  match s.maxBlocks with
  | none => pure []
  | some m =>
    raiseIf (needed ≤ 0) (.badNeededBlocks needed)
    if (s.blocks.entries.length : Int) + needed - m ≤ 0 then pure []
    else evictForInsert m needed (s.blocks.entries.length + needed - m)

/-! ## Subtrees -/

/-- `_exact_subtree_ids_for_tokens`, on the ids of the tokens. -/
def exactSubtreeIds (s : RadixPrefixIndex B P) (blockIds : List B) : Option (List B) :=
  let hit := s.backend.lookup blockIds blockIds.length
  match hit.getLast? with
  | none => none
  | some last =>
    if hit.length = blockIds.length then some (s.backend.subtreeBlockIds last) else none

/-- `PrefixCacheBlockedBlock.reason`. -/
inductive BlockedReason where
  | notFound
  | referenced
  | negativePriority
  | transferInflight
  | hasChildren
  deriving DecidableEq, Repr

/-- Why a block of the subtree stays, given the ids planned for deletion so far. -/
def blockedReason (s : RadixPrefixIndex B P) (planned : List B) (id : B)
    (block : PrefixCacheBlock B P) : Option BlockedReason :=
  if 0 < block.refCount then some .referenced
  else if block.evictionPriority < 0 then some .negativePriority
  else if block.residency.transfer ≠ none then some .transferInflight
  else if (s.backend.childBlockIds id).any (fun c => c ∉ planned) then some .hasChildren
  else none

/-- `PrefixCacheDeleteResult`. -/
structure PrefixCacheDeleteResult (B P : Type) where
  deletedBlocks : List (PrefixCacheBlock B P)
  blockedBlocks : List (Option B × BlockedReason)

/-- One pass of the loop of `preview_delete_subtree`, with `planned_deleted_ids`. -/
def planBlock (s : RadixPrefixIndex B P) (r : PrefixCacheDeleteResult B P × List B) (id : B) :
    PrefixCacheDeleteResult B P × List B :=
  match s.getBlock id with
  | none => r
  | some block =>
    match s.blockedReason r.2 id block with
    | some reason =>
      ({ r.1 with blockedBlocks := r.1.blockedBlocks ++ [(some id, reason)] }, r.2)
    | none => ({ r.1 with deletedBlocks := r.1.deletedBlocks ++ [block] }, r.2 ++ [id])

/-- The ids of a subtree, deepest first. -/
def deepestFirst (s : RadixPrefixIndex B P) (subtree : List B) : List B :=
  subtree.mergeSort fun a b =>
    decide ((s.backend.pathToBlock b).length ≤ (s.backend.pathToBlock a).length)

/-- `preview_delete_subtree`. -/
def previewDeleteSubtree (s : RadixPrefixIndex B P) (blockIds : List B) :
    PrefixCacheDeleteResult B P :=
  match s.exactSubtreeIds blockIds with
  | none => ⟨[], [(none, .notFound)]⟩
  | some subtree => ((s.deepestFirst subtree).foldl s.planBlock (⟨[], []⟩, [])).1

/-- The deletions of `safe_delete_subtree`. -/
def deletePlanned : List (PrefixCacheBlock B P) → PrefixIndexM B P (List (PrefixCacheBlock B P))
  | [] => pure []
  | planned :: rest => do
    -- `current is not planned`: nothing comes between the plan and the deletions
    let _ ← indexed planned.stableBlockId .stalePlan
    let block ← removeBlockFromIndex planned.stableBlockId
    let deleted ← deletePlanned rest
    pure (block :: deleted)

/-- `safe_delete_subtree`. -/
def safeDeleteSubtree (blockIds : List B) : PrefixIndexM B P (PrefixCacheDeleteResult B P) := do
  let s ← get
  let plan := s.previewDeleteSubtree blockIds
  let deleted ← deletePlanned plan.deletedBlocks
  pure ⟨deleted, plan.blockedBlocks⟩

/-- One pass of the loop of `set_subtree_eviction_priority`, with `changed` and
`capacity_changed`. -/
def storePriority (priority : Int) (r : Dict B (PrefixCacheBlock B P) × Bool × Bool) (id : B) :
    Dict B (PrefixCacheBlock B P) × Bool × Bool :=
  match r.1.get? id with
  | none => r
  | some block =>
    if block.evictionPriority = priority then r
    else (r.1.set id { block with evictionPriority := priority }, true,
      r.2.2 || (decide (block.evictionPriority < 0) != decide (priority < 0)))

/-- `set_subtree_eviction_priority`. -/
def setSubtreeEvictionPriority (blockIds : List B) (priority : Int) : PrefixIndexM B P Unit :=
  modify fun s =>
    match s.exactSubtreeIds blockIds with
    | none => s
    | some subtree =>
      let r := subtree.foldl (storePriority priority) (s.blocks, false, false)
      let t := { s with blocks := r.1 }
      if r.2.2 then t.markCapacityMutated else if r.2.1 then t.markMutated else t

end RadixPrefixIndex

end SparseVllm
