import SparseVllm.Prefix.Index
import SparseVllm.Scheduler.Sequence

/-!
# Prefix hits of a request (`cache_manager/prefix_cache_mixin.py`)

Two memos sit between a request and the index: the result of its last lookup, and the capacity
counts of its hit. Both are checked against the index's epochs before use. The Standard cache
manager and the mixed coordinator share this code, so it is generic in the payload type `P`.

A memo is keyed by the request (a weak reference in the source), here by its id; a request's prompt
does not change, so the identity test on its token tuple reads as equality.
-/

namespace SparseVllm

open SparseVllm.Lib

/-- `PrefixLookupCacheEntry`. -/
structure PrefixLookupCacheEntry (B : Type) where
  tokenIds : List Nat
  usableTokens : Nat
  blockIds : List B
  removeEpoch : Int
  result : Nat × Option B × Nat

/-- `PrefixHitCapacityCacheEntry`. -/
structure PrefixHitCapacityCacheEntry (B : Type) where
  lastBlockId : B
  hitBlocks : Nat
  removeEpoch : Int
  capacityEpoch : Int
  offloadEnabled : Bool
  chain : List B
  reclaimableBlocks : Nat
  promotionBlocks : Nat

/-- What a lookup raises. -/
inductive PrefixHitError (B : Type) where
  | index (error : PrefixIndexError B)
  | missingLastBlock
  | badBlockSize
  | invalidHit
  | unusableHit (hitLen promptLen : Nat)
  deriving DecidableEq, Repr

/-- An index with the two memos. -/
structure PrefixLookups (B P : Type) where
  prefixCache : RadixPrefixIndex B P
  prefixLookupCache : Dict SeqId (PrefixLookupCacheEntry B) := ∅
  prefixHitCapacityCache : Dict SeqId (PrefixHitCapacityCacheEntry B) := ∅

/-- A program on an index and its memos. -/
abbrev PrefixLookupM (B P α : Type) := EStateM (PrefixHitError B) (PrefixLookups B P) α

namespace PrefixLookups

variable {B P : Type} [LinearOrder B]

/-- A method of the index. -/
def onIndex {α : Type} (m : PrefixIndexM B P α) : PrefixLookupM B P α :=
  zoom PrefixLookups.prefixCache (fun s c => { c with prefixCache := s }) .index m

/-- `hit_blocks == len(entry.block_ids) or not has_block(entry.block_ids[hit_blocks])`. -/
def extendsNoFurther (s : RadixPrefixIndex B P) (entry : PrefixLookupCacheEntry B) : Bool :=
  match entry.blockIds[entry.result.2.2]? with
  | none => true
  | some next => (s.getBlock next).isNone

/-- The block ids of a lookup, from the memo if it is about the same tokens. -/
def lookupBlockIds (hash : List Int → Option B → B) (s : RadixPrefixIndex B P)
    (entry : Option (PrefixLookupCacheEntry B)) (prompt : List Nat) (usable : Nat) : List B :=
  match entry with
  | some entry => entry.blockIds
  | none => RadixPrefixIndex.blockIdsForTokens hash s.blockSize (prompt.map Int.ofNat) usable

/-- `lookup_prefix_cache_hit`. -/
def lookupPrefixCacheHit (hash : List Int → Option B → B) (id : SeqId) (prompt : List Nat)
    (usable : Nat) : PrefixLookupM B P (Nat × Option B × Nat) := do
  let s ← get
  let entry := (s.prefixLookupCache.get? id).filter fun entry =>
    entry.tokenIds = prompt ∧ entry.usableTokens = usable
  match entry.filter fun entry => entry.removeEpoch = s.prefixCache.removeEpoch ∧
      extendsNoFurther s.prefixCache entry = true with
  | some entry => pure entry.result
  | none =>
    let blockIds := lookupBlockIds hash s.prefixCache entry prompt usable
    let result := s.prefixCache.matchLongestBlockIds blockIds
    let stored := { tokenIds := prompt, usableTokens := usable, blockIds := blockIds,
                    removeEpoch := s.prefixCache.removeEpoch, result := result }
    set { s with prefixLookupCache := s.prefixLookupCache.set id stored }
    pure result

/-- The chain of a hit, from the memo if it is about the same chain. -/
def hitChainIds (entry : Option (PrefixHitCapacityCacheEntry B)) (last : B) (hitBlocks : Nat) :
    PrefixLookupM B P (List B) :=
  match entry with
  | some entry => pure entry.chain
  | none => do
    let chain ← onIndex (RadixPrefixIndex.getChain last hitBlocks)
    pure (chain.map (·.stableBlockId))

/-- The ids whose device slots count as reclaimable. -/
def reclaimableIds (offloadEnabled : Bool) : PrefixLookupM B P (Finset B) :=
  onIndex (if offloadEnabled then RadixPrefixIndex.deviceReclaimableBlockIds
    else RadixPrefixIndex.freeableBlockIds)

/-- The counts of a chain, stored in the memo. -/
def countHitCapacity (offloadEnabled : Bool) (id : SeqId) (last : B) (hitBlocks : Nat)
    (entry : Option (PrefixHitCapacityCacheEntry B)) : PrefixLookupM B P (Nat × Nat) := do
  let chain ← hitChainIds entry last hitBlocks
  let freeable ← reclaimableIds offloadEnabled
  let s ← get
  let reclaimable := chain.countP (· ∈ freeable)
  let promotion :=
    if offloadEnabled then chain.countP fun b => !s.prefixCache.childOnDevice b else 0
  let stored :=
    { lastBlockId := last, hitBlocks := hitBlocks, removeEpoch := s.prefixCache.removeEpoch,
      capacityEpoch := s.prefixCache.capacityEpoch, offloadEnabled := offloadEnabled,
      chain := chain, reclaimableBlocks := reclaimable, promotionBlocks := promotion }
  set { s with prefixHitCapacityCache := s.prefixHitCapacityCache.set id stored }
  pure (reclaimable, promotion)

/-- The memo of a hit, if it is about this chain. -/
def hitMemo (s : PrefixLookups B P) (id : SeqId) (last : B) (hitBlocks : Nat) :
    Option (PrefixHitCapacityCacheEntry B) :=
  (s.prefixHitCapacityCache.get? id).filter fun entry =>
    entry.lastBlockId = last ∧ entry.hitBlocks = hitBlocks ∧
      entry.removeEpoch = s.prefixCache.removeEpoch

/-- The memo of a hit, if its counts are current. -/
def currentHitMemo (s : PrefixLookups B P) (offloadEnabled : Bool) (id : SeqId) (last : B)
    (hitBlocks : Nat) : Option (PrefixHitCapacityCacheEntry B) :=
  (s.hitMemo id last hitBlocks).filter fun entry =>
    entry.capacityEpoch = s.prefixCache.capacityEpoch ∧ entry.offloadEnabled = offloadEnabled

/-- `prefix_hit_capacity_counts`: the reclaimable blocks of a hit, and those to promote. -/
def prefixHitCapacityCounts (offloadEnabled : Bool) (id : SeqId) (seq : Sequence B) :
    PrefixLookupM B P (Nat × Nat) :=
  if seq.prefixCacheHitBlockCount = 0 then pure (0, 0)
  else match seq.prefixCacheHitLastBlockId with
    | none => throw .missingLastBlock
    | some last => do
      let s ← get
      let hitBlocks := seq.prefixCacheHitBlockCount
      match s.currentHitMemo offloadEnabled id last hitBlocks with
      | some entry => pure (entry.reclaimableBlocks, entry.promotionBlocks)
      | none => countHitCapacity offloadEnabled id last hitBlocks (s.hitMemo id last hitBlocks)

/-- The checks of `refresh_prefix_cache_hit` on a lookup's result. -/
def checkedHit (blockSize promptLen : Nat) (result : Nat × Option B × Nat) :
    PrefixLookupM B P (Option (Nat × B × Nat)) :=
  if result.1 = 0 then pure none
  else match result.2.1 with
    | none => throw .invalidHit
    | some last => do
      raiseIf (result.2.2 = 0) .invalidHit
      raiseIf (promptLen ≤ result.1 ∨ result.1 % blockSize ≠ 0) (.unusableHit result.1 promptLen)
      pure (some (result.1, last, result.2.2))

/-- The lookup of `refresh_prefix_cache_hit`, once the old hit is cleared. -/
def refreshedHit (hash : List Int → Option B → B) (id : SeqId) (seq : Sequence B) :
    PrefixLookupM B P (Option (Nat × B × Nat)) := do
  if seq.numPrefilledTokens ≠ 0 ∨ seq.numCompletionTokens ≠ 0 then pure none
  else
    let s ← get
    let blockSize := s.prefixCache.blockSize
    raiseIf (blockSize = 0) .badBlockSize
    let usable := usablePrefixCacheTokens seq.numPromptTokens blockSize
    if usable = 0 then pure none
    else
      let result ← lookupPrefixCacheHit hash id seq.promptTokenIds usable
      checkedHit blockSize seq.numPromptTokens result

end PrefixLookups

/-- The hit fields `refresh_prefix_cache_hit` writes. -/
def Sequence.withPrefixCacheHit {B : Type} (seq : Sequence B) :
    Option (Nat × B × Nat) → Sequence B
  | none => seq.clearPrefixCacheHit
  | some (hitLen, last, hitBlocks) =>
    { seq with
      prefixCacheHitLen := hitLen
      prefixCacheHitBlockCount := hitBlocks
      prefixCacheHitLastBlockId := some last }

end SparseVllm
