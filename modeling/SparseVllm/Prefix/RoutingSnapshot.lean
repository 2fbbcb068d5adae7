import Mathlib.Data.Finset.Card
import SparseVllm.Prefix.RoutingMembership

/-!
# Routing snapshots (`PrefixCacheRoutingSnapshot`, `engine/prefix_cache.py`)

A snapshot answers how long a cached prefix a prompt has without touching the index: it computes
the id of one block after another and stops at the first its set does not hold.

`hash` is `_stable_prefix_block_id` at the fingerprint, which an index and its snapshots share.
-/

namespace SparseVllm

variable {B : Type}

/-- `usable_prefix_cache_tokens`, for a positive block size. -/
def usablePrefixCacheTokens (promptLen blockSize : Nat) : Nat :=
  if promptLen ≤ 1 then 0 else (promptLen - 1) / blockSize * blockSize

theorem usablePrefixCacheTokens_le (promptLen blockSize : Nat) :
    usablePrefixCacheTokens promptLen blockSize ≤ promptLen - 1 := by
  unfold usablePrefixCacheTokens
  split
  · exact Nat.zero_le _
  · exact Nat.div_mul_le_self _ _

/-- `PrefixCacheRoutingSnapshot`. -/
structure PrefixCacheRoutingSnapshot (B : Type) where
  supported : Bool
  enabled : Bool
  method : String
  blockSize : Option Nat := none
  blockIds : Finset B := ∅
  routingMembership : Option (PrefixCacheRoutingMembership B) := none
  reason : Option String := none
  deriving DecidableEq

/-- The result of `match`. A disabled snapshot leaves out the fields with a default; `match_ratio`
is `matched_tokens / usable_tokens` as a float. -/
structure PrefixCacheRoutingMatch (B : Type) where
  supported : Bool
  enabled : Bool
  method : String
  blockSize : Nat := 0
  promptTokens : Nat := 0
  usableTokens : Nat := 0
  matchedTokens : Nat
  matchedBlocks : Nat
  lastBlockId : Option B := none
  liveBlocks : Int := 0
  reason : Option String := none
  deriving DecidableEq

/-- The loop of `match`: the ids of the blocks held, before the first that is not. -/
def routedIds (hash : List Int → Option B → B) (blockSize : Nat) (holds : B → Bool) :
    Nat → Option B → List Int → List B
  | 0, _, _ => []
  | n + 1, parent, rest =>
    let id := hash (rest.take blockSize) parent
    if holds id then id :: routedIds hash blockSize holds n (some id) (rest.drop blockSize) else []

namespace PrefixCacheRoutingSnapshot

variable [LinearOrder B]

/-- `contains_block`. -/
def containsBlock (snapshot : PrefixCacheRoutingSnapshot B) (blockId : B) : Bool :=
  match snapshot.routingMembership with
  | none => blockId ∈ snapshot.blockIds
  | some membership => membership.contains blockId

/-- `live_blocks`. -/
def liveBlocks (snapshot : PrefixCacheRoutingSnapshot B) : Int :=
  match snapshot.routingMembership with
  | none => snapshot.blockIds.card
  | some membership => membership.liveBlocks

/-- `match`, at a positive block size. -/
def matchBlocks (hash : List Int → Option B → B) (snapshot : PrefixCacheRoutingSnapshot B)
    (blockSize : Nat) (tokenIds : List Int) : PrefixCacheRoutingMatch B :=
  let usableTokens := usablePrefixCacheTokens tokenIds.length blockSize
  let hit := routedIds hash blockSize snapshot.containsBlock (usableTokens / blockSize) none tokenIds
  { supported := true
    enabled := true
    method := snapshot.method
    blockSize := blockSize
    promptTokens := tokenIds.length
    usableTokens := usableTokens
    matchedTokens := hit.length * blockSize
    matchedBlocks := hit.length
    lastBlockId := hit.getLast?
    liveBlocks := snapshot.liveBlocks }

/-- `match`. -/
def matchTokens (hash : List Int → Option B → B) (snapshot : PrefixCacheRoutingSnapshot B)
    (tokenIds : List Int) : Except RoutingError (PrefixCacheRoutingMatch B) :=
  if snapshot.supported = false ∨ snapshot.enabled = false then
    .ok { supported := snapshot.supported, enabled := snapshot.enabled, method := snapshot.method,
          matchedTokens := 0, matchedBlocks := 0, reason := snapshot.reason }
  else
    match snapshot.blockSize with
    | none | some 0 => .error .noBlockSize
    | some (n + 1) => .ok (snapshot.matchBlocks hash (n + 1) tokenIds)

end PrefixCacheRoutingSnapshot

end SparseVllm
