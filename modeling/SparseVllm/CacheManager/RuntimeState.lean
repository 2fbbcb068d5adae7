import Mathlib.Algebra.BigOperators.Group.Finset.Basic
import SparseVllm.CacheManager.Standard
import SparseVllm.Scheduler.Schedule

/-!
# The memory oracle (`RuntimeState`, `engine/runtime_state.py`)

The scheduler's oracle over a Standard cache manager, with or without a mixed prefix coordinator:
what is free, what a prompt costs, and what a prefix hit adds to both. `P` is the coordinator's
payload type, which the accounting does not read.

The coordinator's offload controller enters as the program `poll`, what `_poll_offload` does to the
index: any program, since the accounting only reads the index after it. Left out: the recurrent
state manager and the chain coordinator, which have no part in the accounting.
-/

namespace SparseVllm

open SparseVllm.Lib

namespace StandardCacheManager

variable {B : Type} [LinearOrder B]

/-! ## Capacity -/

/-- `_prefix_resident_slots_for_ids`. -/
def prefixResidentSlotsFor (m : StandardCacheManager B) (ids : Finset B) : Nat :=
  ids.sum fun id =>
    match m.prefixCache.getBlock id with
    | some block => if block.residency.devicePresent then m.blockResidentTokens block else 0
    | none => 0

/-- `_prefix_freeable_block_ids_for_capacity`. -/
def prefixFreeableIdsForCapacity : StandardM B (Finset B) := do
  let m ← get
  if m.snapshotDepth = 0 then onIndex RadixPrefixIndex.freeableBlockIds
  else match m.schedulerFreeableBlockIds with
    | some ids => pure ids
    | none => do
      let ids ← onIndex RadixPrefixIndex.freeableBlockIds
      modify fun m => { m with schedulerFreeableBlockIds := some ids }
      pure ids

/-- The blocks whose slots `_prefix_step_reclaimable_slots` counts. -/
def reclaimableIds : StandardM B (Finset B) := do
  let m ← get
  if m.offloadEnabled then onIndex RadixPrefixIndex.deviceReclaimableBlockIds
  else prefixFreeableIdsForCapacity

/-- `reclaimable_slots`, stored for the rest of a scheduler pass. -/
def countReclaimableSlots : StandardM B Nat := do
  let ids ← reclaimableIds
  let m ← get
  let slots := m.prefixResidentSlotsFor ids
  set (if m.snapshotDepth = 0 then m else { m with schedulerReclaimableSlots := some slots })
  pure slots

/-- `_prefix_step_reclaimable_slots`. -/
def prefixStepReclaimableSlots : StandardM B Nat := do
  let m ← get
  if m.enablePrefixCaching = false then pure 0
  else match m.schedulerReclaimableSlots.filter fun _ => m.snapshotDepth ≠ 0 with
    | some slots => pure slots
    | none => countReclaimableSlots

/-- `_prefix_immediately_evictable_slots`. -/
def prefixImmediatelyEvictableSlots : StandardM B Nat := do
  let m ← get
  if m.enablePrefixCaching = false ∨ m.offloadEnabled = true then pure 0
  else
    let ids ← onIndex RadixPrefixIndex.evictableBlockIds
    let m ← get
    pure (m.prefixResidentSlotsFor ids)

/-- `_num_free_slots + _prefix_step_reclaimable_slots()`. -/
def freeAndReclaimable : StandardM B Nat := do
  let m ← get
  let reclaimable ← prefixStepReclaimableSlots
  pure (m.numFreeSlots + reclaimable)

/-- `prefill_step_free_slots`. -/
def prefillStepFreeSlots : StandardM B Nat := do
  let m ← get
  if 0 < m.maxNumBatchedTokens ∧ m.maxNumBatchedTokens ≤ m.numFreeSlots then pure m.numFreeSlots
  else freeAndReclaimable

/-- `decode_step_free_slots`. -/
def decodeStepFreeSlots : StandardM B Nat := do
  let m ← get
  if 0 < m.maxDecodingSeqs ∧ m.maxDecodingSeqs ≤ m.numFreeSlots then pure m.numFreeSlots
  else
    let evictable ← prefixImmediatelyEvictableSlots
    if 0 < m.maxDecodingSeqs ∧ m.maxDecodingSeqs ≤ m.numFreeSlots + evictable then
      pure (m.numFreeSlots + evictable)
    else freeAndReclaimable

/-- The chain of a hit: the memo's, else `_prefix_hit_chain`. -/
def prefixHitChain (seqId : SeqId) (seq : Sequence B) : StandardM B (List B) := do
  let m ← get
  match m.prefixHitCapacityCache.get? seqId, seq.prefixCacheHitLastBlockId with
  | some entry, _ => pure entry.chain
  | none, none => pure []
  | none, some last => do
    let chain ← onIndex (RadixPrefixIndex.getChain last seq.prefixCacheHitBlockCount)
    pure (chain.map (·.stableBlockId))

/-- The resident tokens of a block. -/
def residentTokensOf (m : StandardCacheManager B) (id : B) : Nat :=
  match m.prefixCache.getBlock id with
  | some block => m.blockResidentTokens block
  | none => 0

/-- `_prefix_hit_capacity_slots`: the reclaimable slots of a hit, and the slots to promote. -/
def prefixHitCapacitySlots (seqId : SeqId) (seq : Sequence B) : StandardM B (Nat × Nat) := do
  let m ← get
  if m.enablePrefixCaching = false then pure (0, 0)
  else
    let _ ← onLookups (PrefixLookups.prefixHitCapacityCounts m.offloadEnabled seqId seq)
    let chain ← prefixHitChain seqId seq
    let freeable ← onIndex (if m.offloadEnabled then RadixPrefixIndex.deviceReclaimableBlockIds
      else RadixPrefixIndex.freeableBlockIds)
    let m ← get
    let reclaimable := ((chain.filter (· ∈ freeable)).map m.residentTokensOf).sum
    let promotion := if m.offloadEnabled then
      ((chain.filter fun id => !m.prefixCache.childOnDevice id).map m.residentTokensOf).sum else 0
    pure (reclaimable, promotion)

/-- `prompt_admission_cost`. -/
def promptAdmissionCost (seqId : SeqId) (seq : Sequence B) : StandardM B Int := do
  let suffix : Int := seq.numPromptTokens - seq.prefixCacheHitLen
  if seq.prefixCacheHitLen = 0 then pure suffix
  else
    let slots ← prefixHitCapacitySlots seqId seq
    pure (suffix + slots.1 + slots.2)

/-- The lookup of `refresh_prefix_cache_hit`, after the poll and once the old hit is cleared. -/
def lookupPrefixHit (seqId : SeqId) (seq : Sequence B) : StandardM B (Option (Nat × B × Nat)) := do
  let m ← get
  if m.enablePrefixCaching = false then pure none
  else onLookups (PrefixLookups.refreshedHit m.stableBlockId seqId seq)

/-- Entering `scheduler_capacity_snapshot`. -/
def enterSnapshot (m : StandardCacheManager B) : StandardCacheManager B :=
  if m.snapshotDepth = 0 then
    { m with snapshotDepth := 1, schedulerFreeableBlockIds := none,
             schedulerReclaimableSlots := none }
  else { m with snapshotDepth := m.snapshotDepth + 1 }

/-- Leaving `scheduler_capacity_snapshot`. -/
def exitSnapshot (m : StandardCacheManager B) : StandardCacheManager B :=
  if m.snapshotDepth ≤ 1 then
    { m with snapshotDepth := 0, schedulerFreeableBlockIds := none,
             schedulerReclaimableSlots := none }
  else { m with snapshotDepth := m.snapshotDepth - 1 }

end StandardCacheManager

/-! ## The coordinator -/

/-- `PrefixCacheCoordinator`: what its accounting reads. -/
structure PrefixCacheCoordinator (B P : Type) where
  blockSize : Nat
  /-- `prefix_cache is not None`. -/
  enabled : Bool
  offloadEnabled : Bool
  stableBlockId : List Int → Option B → B
  lookups : PrefixLookups B P
  /-- `_poll_offload`, on the index. -/
  poll : PrefixIndexM B P Unit

/-- The budgets of an admission. -/
inductive AdmissionBudget where
  | slots
  | rows
  | residentSeqs
  deriving DecidableEq, Repr

/-- What the oracle raises. -/
inductive RuntimeStateError (B : Type) where
  | cache (error : StandardCacheError B)
  | coordinator (error : PrefixHitError B)
  deriving DecidableEq, Repr

/-- `RuntimeState`. -/
structure RuntimeState (B P : Type) where
  cacheManager : StandardCacheManager B
  prefixCacheCoordinator : Option (PrefixCacheCoordinator B P) := none
  residentSeqIds : List SeqId := []
  maxNumSeqsInGpu : Nat

/-- A method of the runtime state. -/
abbrev RuntimeStateM (B P α : Type) := EStateM (RuntimeStateError B) (RuntimeState B P) α

namespace RuntimeState

variable {B P : Type} [LinearOrder B]

/-- A method of the cache manager. -/
def onCache {α : Type} (p : StandardM B α) : RuntimeStateM B P α :=
  zoom RuntimeState.cacheManager (fun m r => { r with cacheManager := m }) .cache p

/-- A lookup of the coordinator. -/
def onCoordinator {α : Type} (c : PrefixCacheCoordinator B P) (p : PrefixLookupM B P α) :
    RuntimeStateM B P α :=
  zoom (fun _ => c.lookups) (fun l r =>
    { r with prefixCacheCoordinator := some { c with lookups := l } }) .coordinator p

/-- `admission_reclaimable_slots` and `step_reclaimable_slots`. -/
def coordinatorReclaimableSlots (c : PrefixCacheCoordinator B P) : RuntimeStateM B P Int :=
  if c.enabled = false then pure 0
  else do
    let ids ← onCoordinator c (PrefixLookups.reclaimableIds c.offloadEnabled)
    pure (ids.card * c.blockSize)

/-- `_mixed_prefix_admission_reclaimable_slots` and `_mixed_prefix_step_reclaimable_slots`. -/
def mixedPrefixReclaimableSlots : RuntimeStateM B P Int := do
  let r ← get
  match r.prefixCacheCoordinator with
  | none => pure 0
  | some c => coordinatorReclaimableSlots c

/-- `prefix_hit_evictable_slots`. -/
def coordinatorHitSlots (c : PrefixCacheCoordinator B P) (seqId : SeqId) (seq : Sequence B) :
    RuntimeStateM B P Int :=
  if c.enabled = false ∨ seq.prefixCacheHitLen = 0 then pure 0
  else do
    let counts ← onCoordinator c
      (PrefixLookups.prefixHitCapacityCounts c.offloadEnabled seqId seq)
    pure ((counts.1 + counts.2) * c.blockSize)

/-- What the coordinator adds to a prompt's cost. -/
def mixedPrefixHitSlots (seqId : SeqId) (seq : Sequence B) : RuntimeStateM B P Int := do
  let r ← get
  match r.prefixCacheCoordinator with
  | none => pure 0
  | some c => coordinatorHitSlots c seqId seq

/-- `_mixed_prefix_boundary_limit`, with a coordinator. -/
def mixedPrefixBoundaryLimit (c : PrefixCacheCoordinator B P) (seq : Sequence B) : Int :=
  if c.blockSize = 0 then seq.numPromptTokens - seq.numPrefilledTokens
  else
    let start := max seq.numPrefilledTokens seq.prefixCacheHitLen
    if seq.numPromptTokens ≤ start then 0
    else min (seq.numPromptTokens - start : Nat) (c.blockSize - start % c.blockSize : Nat)

/-- `reserved_prefill_slots`: what the partly prefilled prompts still need. -/
def reservedPrefillSlots (seqs : SeqId → Sequence B) (waiting : List SeqId) : Int :=
  (waiting.map fun id =>
    if 0 < (seqs id).numPrefilledTokens ∧ (seqs id).numPrefilledTokens < (seqs id).numPromptTokens
    then ((seqs id).numPromptTokens - (seqs id).numPrefilledTokens : Int) else 0).sum

/-- `prefill_step_free_slots`. -/
def prefillStepFreeSlots : RuntimeStateM B P Int := do
  let free ← onCache StandardCacheManager.prefillStepFreeSlots
  let mixed ← mixedPrefixReclaimableSlots
  pure (free + mixed)

/-- `prefill_step_free_slots_for`. -/
def prefillStepFreeSlotsFor (seq : Sequence B) : RuntimeStateM B P Int := do
  let free ← prefillStepFreeSlots
  let r ← get
  match r.prefixCacheCoordinator with
  | none => pure free
  | some c => pure (min free (mixedPrefixBoundaryLimit c seq))

/-- `decode_step_free_slots` and `decode_step_free_slots_for`. -/
def decodeStepFreeSlots : RuntimeStateM B P Int := do
  let free ← onCache StandardCacheManager.decodeStepFreeSlots
  let mixed ← mixedPrefixReclaimableSlots
  pure (free + mixed)

/-- `prompt_admission_free_slots`. -/
def promptAdmissionFreeSlots : RuntimeStateM B P Int := do
  let free ← onCache StandardCacheManager.freeAndReclaimable
  let mixed ← mixedPrefixReclaimableSlots
  pure (free + mixed)

/-- `prompt_admission_budgets`; `reserved` is `reserved_prefill_slots` of the waiting queue. -/
def promptAdmissionBudgets (reserved : Int) : RuntimeStateM B P (List (AdmissionBudget × Int)) := do
  let r ← get
  let free ← onCache StandardCacheManager.freeAndReclaimable
  let slots := max 0 ((free : Int) - reserved)
  let residents : Int := (r.maxNumSeqsInGpu - r.residentSeqIds.length : Nat)
  let extra ← mixedPrefixReclaimableSlots
  pure [(.slots, if extra ≤ 0 then slots else slots + extra),
    (.rows, r.cacheManager.freeRows.length), (.residentSeqs, residents)]

/-- `prompt_admission_cost` and `prompt_logical_reservation_cost`. -/
def promptAdmissionCost (seqId : SeqId) (seq : Sequence B) : RuntimeStateM B P Int := do
  let cost ← onCache (StandardCacheManager.promptAdmissionCost seqId seq)
  let mixed ← mixedPrefixHitSlots seqId seq
  pure (cost + mixed)

/-- `prompt_admission_costs`. -/
def promptAdmissionCosts (seqId : SeqId) (seq : Sequence B) :
    RuntimeStateM B P (List (AdmissionBudget × Int)) := do
  let r ← get
  let cost ← onCache (StandardCacheManager.promptAdmissionCost seqId seq)
  let extra ← mixedPrefixHitSlots seqId seq
  pure [(.slots, if extra ≤ 0 then cost else cost + extra), (.rows, 1),
    (.residentSeqs, if seqId ∈ r.residentSeqIds then 0 else 1)]

/-- `on_prompt_admitted`. -/
def onPromptAdmitted (seqId : SeqId) (costs : List (AdmissionBudget × Int)) :
    RuntimeStateM B P Unit :=
  modify fun r =>
    if 0 < budgetOf costs .residentSeqs ∧ seqId ∉ r.residentSeqIds then
      { r with residentSeqIds := seqId :: r.residentSeqIds }
    else r

/-- The poll at the start of `refresh_prefix_cache_hit`. -/
def pollOffload : RuntimeStateM B P Unit := do
  let r ← get
  match r.prefixCacheCoordinator with
  | some c => onCoordinator c (PrefixLookups.onIndex c.poll)
  | none => onCache StandardCacheManager.pollPrefixOffload

/-- The lookup of `refresh_prefix_cache_hit` of the coordinator. -/
def coordinatorLookup (c : PrefixCacheCoordinator B P) (seqId : SeqId) (seq : Sequence B) :
    RuntimeStateM B P (Option (Nat × B × Nat)) :=
  if c.enabled = false then pure none
  else onCoordinator c (PrefixLookups.refreshedHit c.stableBlockId seqId seq)

/-- The lookup of `refresh_prefix_cache_hit`. -/
def lookupHit (seqId : SeqId) (seq : Sequence B) : RuntimeStateM B P (Option (Nat × B × Nat)) := do
  let r ← get
  match r.prefixCacheCoordinator with
  | some c => coordinatorLookup c seqId seq
  | none => onCache (StandardCacheManager.lookupPrefixHit seqId seq)

/-! ## The oracle -/

/-- The programs of the oracle. -/
abbrev OracleM (B P α : Type) := EStateM (RuntimeStateError B) (World (RuntimeState B P) B) α

/-- A method of the runtime state. -/
def onRuntime {α : Type} (p : RuntimeStateM B P α) : OracleM B P α :=
  zoom World.oracle (fun r w => { w with oracle := r }) id p

/-- A method of the runtime state that reads a request. -/
def withSeq {α : Type} (seqId : SeqId) (p : Sequence B → RuntimeStateM B P α) : OracleM B P α := do
  let w ← get
  onRuntime (p (w.seqs seqId))

/-- `clear_prefix_cache_hit`. -/
def clearPrefixCacheHit (seqId : SeqId) : OracleM B P Unit :=
  modify fun w => w.modifySeq seqId Sequence.clearPrefixCacheHit

/-- `refresh_prefix_cache_hit` of a request without a multimodal digest. -/
def refreshTextHit (seqId : SeqId) : OracleM B P Unit := do
  onRuntime pollOffload
  clearPrefixCacheHit seqId
  let hit ← withSeq seqId (lookupHit seqId)
  modify fun w => w.modifySeq seqId fun seq => seq.withPrefixCacheHit hit

/-- `refresh_prefix_cache_hit`. -/
def refreshPrefixCacheHit (seqId : SeqId) : OracleM B P Unit := do
  let w ← get
  if (w.seqs seqId).hasMultimodalDigest then clearPrefixCacheHit seqId else refreshTextHit seqId

/-- `remaining_prefill_tokens`. -/
def remainingPrefillTokens (seq : Sequence B) : Int :=
  seq.numPromptTokens - max seq.numPrefilledTokens seq.prefixCacheHitLen

/-- `RuntimeState` as the scheduler's memory oracle. -/
def oracle (B P : Type) [LinearOrder B] :
    MemoryOracle (RuntimeStateError B) (RuntimeState B P) B Unit AdmissionBudget where
  numFreeSlots := do return (← get).oracle.cacheManager.numFreeSlots
  prefillBatchedTokensMargin := pure 0
  remainingPrefillTokens seqId := do return remainingPrefillTokens ((← get).seqs seqId)
  prefillExecutionMode seqId := do
    return if ((← get).seqs seqId).multimodalFullPrefill then .full else .chunked
  prefillBatchCompatibilityKey _ := pure ()
  resetPrefillExecutionState _ := pure ()
  completePrefillExecution _ := pure ()
  reservedPrefillSlots waiting _ := do return reservedPrefillSlots (← get).seqs waiting
  shouldScheduleFullPrefill _ := pure false
  prefillStepFreeSlots := onRuntime prefillStepFreeSlots
  prefillStepFreeSlotsFor seqId := withSeq seqId prefillStepFreeSlotsFor
  minFinalPrefillChunkSize _ := pure 0
  prefillStepReservationCost _ tokens := pure tokens
  decodeStepFreeSlots := onRuntime decodeStepFreeSlots
  decodeStepFreeSlotsFor _ := onRuntime decodeStepFreeSlots
  decodeStepReservationCost _ := pure 1
  promptAdmissionFreeSlots := onRuntime promptAdmissionFreeSlots
  promptAdmissionBudgets waiting _ := do
    let w ← get
    onRuntime (promptAdmissionBudgets (reservedPrefillSlots w.seqs waiting))
  promptAdmissionCosts seqId := withSeq seqId (promptAdmissionCosts seqId)
  promptLogicalReservationCost seqId := withSeq seqId (promptAdmissionCost seqId)
  promptAdmissionFailureAction := pure .defer
  onPromptAdmitted seqId costs := onRuntime (onPromptAdmitted seqId costs)
  prefixCacheHitRefresher := refreshPrefixCacheHit
  clearPrefixCacheHit := clearPrefixCacheHit
  freeSlotStats := onRuntime (onCache StandardCacheManager.pollPrefixOffload)
  enterCapacitySnapshot := onRuntime (modify fun r =>
    { r with cacheManager := r.cacheManager.enterSnapshot })
  exitCapacitySnapshot := onRuntime (modify fun r =>
    { r with cacheManager := r.cacheManager.exitSnapshot })

end RuntimeState

end SparseVllm
