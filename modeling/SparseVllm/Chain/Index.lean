import Mathlib.Data.List.Sort
import SparseVllm.Lib.Dict
import SparseVllm.Lib.Program
import SparseVllm.Scheduler.Sequence

/-!
# The chain index (`ChainCacheIndex`, `engine/chain_cache.py`)

A chain is the resident sparse KV of one conversation. The index keeps one record per chain and
moves it between ACTIVE (a request is running on it) and IDLE (kept for the next turn). An
admission is planned first (`planAdmission`), which may name IDLE chains to evict, and then applied
(`applyAdmission`).

`C` is the type of chain ids and `D` the type of byte strings used as digests and fingerprints.
SHA-256 is a parameter (`TokenHash`): the index only compares digests and checks their size.

Left out: routing snapshots and the rendering of `stats()`, which read the records and return
texts; the random part of `new_chain_id`.
-/

namespace SparseVllm

open SparseVllm.Lib

/-- `ChainState`. -/
inductive ChainState where
  | active
  | idle
  deriving DecidableEq, Repr

/-- The first differing token of a prefix mismatch, as its message reports it. -/
structure ChainMismatchDetails where
  inputTokens : Nat
  lastInputTokenCount : Int
  stablePrefixMatches : Bool
  firstMismatch : Nat
  expectedTokenId : Option Int
  actualTokenId : Option Int
  deriving DecidableEq, Repr

/-- What the chain cache raises, one constructor for each `raise`. -/
inductive ChainError (C : Type) where
  | notFound (chain : C)
  | appendWithoutChain
  | gone (chain : C)
  | activeWriter (chain : C)
  | notIdleAtAdmission (chain : C)
  | evictActive (chain : C)
  | fingerprintMismatch (chain : C)
  | ownerMismatch (chain : C) (resident requested : SeqId)
  | inputTooShort (input processed : Int)
  | prefixMismatch (chain : C) (processed : Int) (details : Option ChainMismatchDetails)
  | emptyAppend (chain : Option C)
  | noSuffix (chain : C)
  | noCapacity (chain : C)
  | historyCapacity (chain : C) (needed capacity : Int)
  | appeared (chain : C)
  | seqAlreadyOwned (chain owned : C) (seq : SeqId)
  | finishInactive (chain : C)
  | boundaryMovedBack (chain : C) (previous new : Int)
  | tokenOutOfRange (chain : C) (index : Nat) (token : Int)
  | finishedTooShort (chain : C) (tokens processed : Int)
  | rememberActive (chain : C)
  | rememberMismatch (chain : C)
  | negativeProcessed (processed : Int)
  | digestSize
  | tokenNotPackable
  | planDiverged (chain : C)
  | exceedsModelLen (promptLen maxTokens limit : Int)
  | schedulerRejected (seq : SeqId)
  | noFreeRow
  | missingRow (seq : SeqId)
  | notResident (seq : SeqId)
  deriving DecidableEq, Repr

/-- `except ChainPrefixMismatchError`. -/
def ChainError.isPrefixMismatch {C : Type} : ChainError C → Bool
  | .inputTooShort .. | .prefixMismatch .. | .emptyAppend _ | .noSuffix _ => true
  | _ => false

/-- `ChainRecord`. -/
structure ChainRecord (C D : Type) where
  chainId : C
  seqId : SeqId
  fingerprint : D
  state : ChainState
  processedTokenCount : Int := 0
  processedTokenDigest : D
  tokenIds : List Int := []
  lastInputTokenCount : Int := 0
  lastAccess : Nat := 0
  physicalSlotsByLayer : List Int := []
  residentRows : Int := 1
  reservedSlotsByLayer : List Int := []
  reservedRows : Int := 0

/-- The record `finish_digest` leaves behind. -/
def ChainRecord.finished {C D : Type} (record : ChainRecord C D) (digest : D) (processed : Int)
    (physicalSlots : List Int) (residentRows : Int) (now : Nat) : ChainRecord C D :=
  { record with
    processedTokenDigest := digest
    processedTokenCount := processed
    physicalSlotsByLayer := physicalSlots
    residentRows := residentRows
    reservedSlotsByLayer := []
    reservedRows := 0
    state := .idle
    lastAccess := now }

/-- `ChainAdmissionPlan.status`. -/
inductive ChainAdmissionStatus where
  | created
  | resumed
  deriving DecidableEq, Repr

/-- `ChainAdmissionPlan`. -/
structure ChainAdmissionPlan (C : Type) where
  chainId : C
  seqId : SeqId
  status : ChainAdmissionStatus
  reusedTokens : Int
  inputTokenCount : Int
  victimChainIds : List C
  reservedSlotsByLayer : List Int
  reservedRows : Int
  deriving DecidableEq, Repr

/-- The SHA-256 digest of a token list and the size check of a digest. -/
structure TokenHash (D : Type) where
  /-- `b""`. -/
  empty : D
  digest : List Int → D
  /-- `len(digest) == hashlib.sha256().digest_size`. -/
  isSha256 : D → Bool

/-- Token lists as their own digests. -/
def plainHash : TokenHash (List Int) where
  empty := []
  digest := id
  isSha256 _ := true

/-- The record a `created` plan adds. -/
def ChainAdmissionPlan.newRecord {C D : Type} (plan : ChainAdmissionPlan C) (hash : TokenHash D)
    (fingerprint : D) (now : Nat) : ChainRecord C D where
  chainId := plan.chainId
  seqId := plan.seqId
  fingerprint := fingerprint
  state := .active
  processedTokenDigest := hash.empty
  lastInputTokenCount := plan.inputTokenCount
  lastAccess := now
  reservedSlotsByLayer := plan.reservedSlotsByLayer
  reservedRows := plan.reservedRows

/-- The record of a chain that a `resumed` plan activates. -/
def ChainAdmissionPlan.resumedRecord {C D : Type} (plan : ChainAdmissionPlan C)
    (record : ChainRecord C D) (now : Nat) : ChainRecord C D :=
  { record with
    state := .active
    lastInputTokenCount := plan.inputTokenCount
    lastAccess := now
    reservedSlotsByLayer := plan.reservedSlotsByLayer
    reservedRows := plan.reservedRows }

/-- `struct.pack("<q", token_id)` accepts the token. -/
def packable (token : Int) : Bool :=
  decide (-(2 : Int) ^ 63 ≤ token ∧ token < (2 : Int) ^ 63)

/-- `stable_token_digest`. -/
def stableTokenDigest {C D : Type} (hash : TokenHash D) (tokens : List Int) (count : Option Int) :
    Except (ChainError C) D :=
  let taken := match count with
    | none => tokens
    | some n => tokens.take n.toNat
  if taken.all packable = false then .error .tokenNotPackable
  else match count with
    | none => .ok (hash.digest taken)
    | some n =>
      if (taken.length : Int) ≠ n then .error (.inputTooShort taken.length n)
      else .ok (hash.digest taken)

/-- `ChainCacheIndex._stats`. -/
structure ChainStats where
  created : Nat := 0
  resumed : Nat := 0
  finished : Nat := 0
  evicted : Nat := 0
  invalidated : Nat := 0
  prefixMismatch : Nat := 0
  busy : Nat := 0
  deriving DecidableEq, Repr

/-- `ChainCacheIndex`. -/
structure ChainCacheIndex (C D : Type) where
  maxTombstones : Nat
  maxTokenHistoryTokens : Option Int
  tokenHistoryTokens : Int := 0
  records : Dict C (ChainRecord C D) := ∅
  seqIdToChainId : Dict SeqId C := ∅
  /-- Newest first, as `OrderedDict` keeps them last. -/
  tombstones : Dict C Nat := ∅
  clock : Nat := 0
  stats : ChainStats := {}

namespace ChainCacheIndex

variable {C D : Type} [LinearOrder C] [DecidableEq D]

/-- The index's programs. -/
abbrev IndexM (C D α : Type) := EStateM (ChainError C) (ChainCacheIndex C D) α

/-- Raise what a pure check raises. -/
def check {α : Type} (result : Except (ChainError C) α) : IndexM C D α :=
  match result with
  | .ok a => pure a
  | .error e => throw e

/-- `_tick`. -/
def tick : IndexM C D Nat := do
  modify fun index => { index with clock := index.clock + 1 }
  return (← get).clock

/-- `while len(self.tombstones) > self.max_tombstones: popitem(last=False)`. -/
def trimTombstones (limit : Nat) (tombstones : Dict C Nat) : Dict C Nat where
  entries := tombstones.entries.take limit
  nodupKeys := tombstones.nodupKeys.sublist (List.take_sublist _ _)

/-- `_add_tombstone`. -/
def addTombstone (chain : C) : IndexM C D Unit := do
  modify fun index => { index with tombstones := index.tombstones.pop chain }
  let now ← tick
  modify fun index =>
    { index with
      tombstones := trimTombstones index.maxTombstones (index.tombstones.set chain now) }

/-- The first token that does not fit unsigned 32-bit storage. -/
def firstOutOfRange : List Int → Nat → Option (Nat × Int)
  | [], _ => none
  | token :: rest, idx =>
    if token < 0 ∨ 0xFFFFFFFF < token then some (idx, token) else firstOutOfRange rest (idx + 1)

/-- `_prepare_token_history`: only checks, since a token list is its own 32-bit array here. -/
def prepareTokenHistory (record : ChainRecord C D) (tokens : List Int) (processed : Int) :
    IndexM C D Unit := do
  raiseIf (processed < 0) (.negativeProcessed processed)
  match firstOutOfRange tokens 0 with
  | some (idx, token) => throw (.tokenOutOfRange record.chainId idx token)
  | none =>
    raiseIf ((tokens.length : Int) < processed)
      (.finishedTooShort record.chainId tokens.length processed)
    let index ← get
    let nextTotal := index.tokenHistoryTokens - record.tokenIds.length + tokens.length
    match index.maxTokenHistoryTokens with
    | none => pure ()
    | some capacity =>
      raiseIf (capacity < nextTotal) (.historyCapacity record.chainId nextTotal capacity)

/-- Assign fields of the record of `chain`. -/
def modifyRecord (chain : C) (f : ChainRecord C D → ChainRecord C D) : IndexM C D Unit :=
  modify fun index => { index with records := index.records.modify chain f }

/-- `_store_token_history`. -/
def storeTokenHistory (record : ChainRecord C D) (tokens : List Int) : IndexM C D Unit := do
  modify fun index =>
    { index with
      tokenHistoryTokens := index.tokenHistoryTokens - record.tokenIds.length + tokens.length }
  modifyRecord record.chainId fun record => { record with tokenIds := tokens }

/-- `lookup`. -/
def lookup (chain : C) : IndexM C D (ChainRecord C D) := do
  let index ← get
  match index.records.get? chain with
  | some record => pure record
  | none =>
    raiseIf (index.tombstones.get? chain).isSome (.gone chain)
    throw (.notFound chain)

/-- Count a mismatch, then raise it. -/
def raiseMismatch {α : Type} (e : ChainError C) : IndexM C D α := do
  modify fun index =>
    { index with stats := { index.stats with prefixMismatch := index.stats.prefixMismatch + 1 } }
  throw e

/-- The details of a mismatch with the full token list in hand. -/
def mismatchDetails (record : ChainRecord C D) (tokens : List Int) : ChainMismatchDetails :=
  let expected := record.tokenIds.take record.processedTokenCount.toNat
  let actual := tokens.take record.processedTokenCount.toNat
  let firstMismatch := ((expected.zip actual).findIdx? fun (e, a) => e != a).getD
    (min expected.length actual.length)
  let stableBoundary :=
    (min record.lastInputTokenCount (min expected.length actual.length)).toNat
  { inputTokens := tokens.length
    lastInputTokenCount := record.lastInputTokenCount
    stablePrefixMatches := expected.take stableBoundary == actual.take stableBoundary
    firstMismatch := firstMismatch
    expectedTokenId := expected[firstMismatch]?
    actualTokenId := actual[firstMismatch]? }

/-- What the request brings: its tokens (rank 0), or their count and digest (the workers). -/
inductive ChainInput (D : Type) where
  | tokens (tokenIds : List Int)
  | digest (tokenCount : Int) (prefixDigest : D)

/-- `input_token_count`. -/
def ChainInput.tokenCount {D : Type} : ChainInput D → Int
  | .tokens tokenIds => tokenIds.length
  | .digest tokenCount _ => tokenCount

/-- The digest of the input at the record's processed boundary. -/
def inputDigest (hash : TokenHash D) (record : ChainRecord C D) :
    ChainInput D → Except (ChainError C) D
  | .tokens tokenIds => stableTokenDigest hash tokenIds (some record.processedTokenCount)
  | .digest tokenCount prefixDigest =>
    if tokenCount < record.processedTokenCount then
      .error (.inputTooShort tokenCount record.processedTokenCount)
    else .ok prefixDigest

/-- The checks of a request on an existing chain; returns the tokens it reuses. -/
def checkResume (hash : TokenHash D) (record : ChainRecord C D) (chain : C) (seq : SeqId)
    (input : ChainInput D) (fingerprint : D) : IndexM C D Int := do
  if record.state = .active then
    modify fun index => { index with stats := { index.stats with busy := index.stats.busy + 1 } }
    throw (.activeWriter chain)
  else
    raiseIf (record.fingerprint ≠ fingerprint) (.fingerprintMismatch chain)
    raiseIf (record.seqId ≠ seq) (.ownerMismatch chain record.seqId seq)
    match inputDigest hash record input with
    | .error e => if e.isPrefixMismatch then raiseMismatch e else throw e
    | .ok digest =>
      if digest ≠ record.processedTokenDigest then
        raiseMismatch (.prefixMismatch chain record.processedTokenCount
          (match input with
            | .tokens tokenIds => some (mismatchDetails record tokenIds)
            | .digest .. => none))
      else
        return record.processedTokenCount

/-- The eviction order: `(last_access, chain_id)`. -/
def evictsBefore (a b : ChainRecord C D) : Prop :=
  a.lastAccess < b.lastAccess ∨ (a.lastAccess = b.lastAccess ∧ a.chainId ≤ b.chainId)

instance : DecidableRel (evictsBefore (C := C) (D := D)) :=
  fun _ _ => inferInstanceAs (Decidable (_ ∨ _))

/-- The IDLE chains other than `chain`, in eviction order. -/
def evictionCandidates (index : ChainCacheIndex C D) (chain : C) : List (ChainRecord C D) :=
  (index.records.values.filter fun candidate =>
    candidate.state = .idle ∧ candidate.chainId ≠ chain).insertionSort evictsBefore

/-- `slot_deficits[layer] = max(0, slot_deficits[layer] - resident)`. -/
def coverSlots : List Int → List Int → List Int
  | [], _ => []
  | deficit :: deficits, [] => max 0 deficit :: coverSlots deficits []
  | deficit :: deficits, resident :: residents =>
    max 0 (deficit - resident) :: coverSlots deficits residents

/-- The victim loop: the chains to evict, and whether deficits remain. -/
def selectVictims : List (ChainRecord C D) → Int → List Int → List C × Bool
  | [], rowDeficit, slotDeficits =>
    ([], decide (0 < rowDeficit) || slotDeficits.any fun deficit => deficit != 0)
  | victim :: rest, rowDeficit, slotDeficits =>
    if rowDeficit ≤ 0 ∧ (slotDeficits.any fun deficit => deficit != 0) = false then ([], false)
    else
      let (victims, short) := selectVictims rest (max 0 (rowDeficit - victim.residentRows))
        (coverSlots slotDeficits victim.physicalSlotsByLayer)
      (victim.chainId :: victims, short)

/-- What an admission needs: the deficits to cover by evicting, and what it reserves. -/
structure ChainRequirements where
  requiredSlotsByLayer : List Int := []
  rowDeficit : Int := 0
  reservedSlotsByLayer : List Int := []
  reservedRows : Int := 0
  deriving DecidableEq, Repr

/-- The status of the planned admission, and the tokens it reuses. -/
def planStatus (hash : TokenHash D) (chain : C) (seq : SeqId) (input : ChainInput D)
    (fingerprint : D) : IndexM C D (ChainAdmissionStatus × Int) := do
  let index ← get
  match index.records.get? chain with
  | none =>
    raiseIf (index.tombstones.get? chain).isSome (.gone chain)
    return (.created, 0)
  | some record =>
    let reused ← checkResume hash record chain seq input fingerprint
    return (.resumed, reused)

/-- `_plan_admission`. -/
def planAdmission (hash : TokenHash D) (chain : C) (seq : SeqId) (input : ChainInput D)
    (fingerprint : D) (needs : ChainRequirements) : IndexM C D (ChainAdmissionPlan C) := do
  let (status, reused) ← planStatus hash chain seq input fingerprint
  let index ← get
  let (victims, short) := selectVictims (evictionCandidates index chain) (max 0 needs.rowDeficit)
    (needs.requiredSlotsByLayer.map (max 0))
  raiseIf (short = true) (.noCapacity chain)
  return {
    chainId := chain
    seqId := seq
    status := status
    reusedTokens := reused
    inputTokenCount := input.tokenCount
    victimChainIds := victims
    reservedSlotsByLayer := needs.reservedSlotsByLayer.map (max 0)
    reservedRows := max 0 needs.reservedRows }

/-- Remove the record of a chain and leave a tombstone. -/
def dropRecord (record : ChainRecord C D) (chain : C) : IndexM C D Unit := do
  modify fun index =>
    { index with
      tokenHistoryTokens := index.tokenHistoryTokens - record.tokenIds.length
      records := index.records.pop chain
      seqIdToChainId := index.seqIdToChainId.pop record.seqId }
  addTombstone chain

/-- `invalidate`. -/
def invalidate (chain : C) : IndexM C D (ChainRecord C D) := do
  let record ← lookup chain
  dropRecord record chain
  modify fun index =>
    { index with stats := { index.stats with invalidated := index.stats.invalidated + 1 } }
  return record

/-- `evict`. -/
def evict (chain : C) : IndexM C D (ChainRecord C D) := do
  let record ← lookup chain
  raiseIf (record.state = .active) (.evictActive chain)
  dropRecord record chain
  modify fun index =>
    { index with stats := { index.stats with evicted := index.stats.evicted + 1 } }
  return record

/-- The `created` branch of `apply_admission`. -/
def createRecord (hash : TokenHash D) (plan : ChainAdmissionPlan C) (fingerprint : D) :
    IndexM C D (ChainRecord C D) := do
  let index ← get
  raiseIf (index.records.get? plan.chainId).isSome (.appeared plan.chainId)
  match index.seqIdToChainId.get? plan.seqId with
  | some owned => throw (.seqAlreadyOwned plan.chainId owned plan.seqId)
  | none =>
    let now ← tick
    let record := plan.newRecord hash fingerprint now
    modify fun index =>
      { index with
        records := index.records.set plan.chainId record
        seqIdToChainId := index.seqIdToChainId.set plan.seqId plan.chainId
        stats := { index.stats with created := index.stats.created + 1 } }
    return record

/-- The `resumed` branch of `apply_admission`. -/
def resumeRecord (plan : ChainAdmissionPlan C) : IndexM C D (ChainRecord C D) := do
  let record ← lookup plan.chainId
  raiseIf (record.state ≠ .idle) (.notIdleAtAdmission plan.chainId)
  let now ← tick
  modifyRecord plan.chainId fun record => plan.resumedRecord record now
  modify fun index =>
    { index with stats := { index.stats with resumed := index.stats.resumed + 1 } }
  return plan.resumedRecord record now

/-- `apply_admission`. -/
def applyAdmission (hash : TokenHash D) (plan : ChainAdmissionPlan C) (fingerprint : D) :
    IndexM C D (ChainRecord C D) := do
  forEach plan.victimChainIds fun victim => do
    let _ ← evict victim
    pure ()
  match plan.status with
  | .created => createRecord hash plan fingerprint
  | .resumed => resumeRecord plan

/-- `finish_digest`. -/
def finishDigest (hash : TokenHash D) (chain : C) (digest : D) (processed : Int)
    (physicalSlots : List Int) (residentRows : Int := 1) : IndexM C D (ChainRecord C D) := do
  let record ← lookup chain
  raiseIf (record.state ≠ .active) (.finishInactive chain)
  raiseIf (processed < record.processedTokenCount)
    (.boundaryMovedBack chain record.processedTokenCount processed)
  raiseIf (hash.isSha256 digest = false) .digestSize
  let now ← tick
  modifyRecord chain fun record =>
    record.finished digest processed physicalSlots residentRows now
  modify fun index =>
    { index with stats := { index.stats with finished := index.stats.finished + 1 } }
  return record.finished digest processed physicalSlots residentRows now

/-- `finish`. -/
def finish (hash : TokenHash D) (chain : C) (tokens : List Int) (processed : Int)
    (physicalSlots : List Int) (residentRows : Int := 1) : IndexM C D (ChainRecord C D) := do
  let existing ← lookup chain
  prepareTokenHistory existing tokens processed
  let digest ← check (stableTokenDigest hash tokens (some processed))
  let record ← finishDigest hash chain digest processed physicalSlots residentRows
  storeTokenHistory record tokens
  return { record with tokenIds := tokens }

/-- `remember_processed_tokens` of the coordinator, which works on the index alone. -/
def rememberProcessedTokens (hash : TokenHash D) (chain : C) (seq : SeqId) (tokens : List Int)
    (processed : Int) : IndexM C D (ChainRecord C D) := do
  let record ← lookup chain
  raiseIf (record.seqId ≠ seq) (.ownerMismatch chain record.seqId seq)
  raiseIf (record.state ≠ .idle) (.rememberActive chain)
  prepareTokenHistory record tokens processed
  let digest ← check (stableTokenDigest hash tokens (some processed))
  raiseIf (processed ≠ record.processedTokenCount ∨ digest ≠ record.processedTokenDigest)
    (.rememberMismatch chain)
  storeTokenHistory record tokens
  return { record with tokenIds := tokens }

end ChainCacheIndex

end SparseVllm
