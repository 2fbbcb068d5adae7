import SparseVllm.Lib.Program
import SparseVllm.Scheduler.Sequence

/-!
# One scheduling pass (`Scheduler.schedule`, `engine/scheduler.py`)

The scheduler runs on its two queues, the heap of requests and the memory oracle's state. The
oracle is a record of programs over the heap and its own state (`MemoryOracle`), so every answer it
may give is covered: an answer may depend on all the state, change it, or raise.

* `World` is what the oracle sees: its own state and the requests. It never sees the queues, except
  as the argument the code passes.
* `PrefillPass` is the local variables of the prefill phase of `_schedule_impl`.
* Every loop of the source is a recursion on the counter the source itself decrements
  (`bucket_scan_budget`, `decode_scan_budget`) or on the list it walks.

Left out: log output, `_admission_defer_warned_seq_ids` (it only limits a log line) and the
`SPARSEVLLM_DEBUG_SLOTS` branches. `free_slot_stats` is kept as a call, since a cache manager polls
its transfers there.
-/

namespace SparseVllm

open SparseVllm.Lib

/-- `PREFILL_EXECUTION_CHUNKED`, `PREFILL_EXECUTION_FULL`, `PREFILL_EXECUTION_RAW_OFFLOAD`. -/
inductive PrefillExecutionMode where
  | chunked
  | full
  | rawOffload
  deriving DecidableEq, Repr

/-- `prompt_admission_failure_action`: `"defer"`, or anything else, which raises. -/
inductive AdmissionFailureAction where
  | defer
  | raise
  deriving DecidableEq, Repr

/-- The errors of one scheduling pass. `oracle` is an exception of the memory oracle. -/
inductive SchedulerError (ε ν : Type) where
  | oracle (error : ε)
  | finishedPrefillWaiting (seq : SeqId)
  | negativeMinFinalChunk (seq : SeqId) (minFinal : Int)
  | insufficientSlotsToAdmit (seq : SeqId) (failedBudget : ν) (need free : Int)
  | promptAdmissionBudgetMismatch (seq : SeqId) (logicalNeed logicalFree : Int)
  | soleDecodeTooSmall (victim : SeqId)
  | atomicPrefillCannotFit (seq : SeqId) (need available : Int)
  | noPrefillCandidate (seq : SeqId) (need candidateFree globalFree : Int)
  | allAdmissionsDeferred (seq : SeqId) (failedBudget : ν) (need free : Int)
  deriving DecidableEq, Repr

/-- What the memory oracle reads and writes: its own state `σ` and the requests. -/
structure World (σ B : Type) where
  oracle : σ
  seqs : SeqId → Sequence B

namespace World

variable {σ B : Type}

/-- Assign fields of one request object. -/
def modifySeq (seq : SeqId) (f : Sequence B → Sequence B) (w : World σ B) : World σ B :=
  { w with seqs := Function.update w.seqs seq (f (w.seqs seq)) }

end World

/-- `MemoryOracle`: the scheduler-facing interface of the runtime state. `κ` is the type of batch
compatibility keys, `ν` the names of the admission budgets. -/
structure MemoryOracle (ε σ B κ ν : Type) where
  numFreeSlots : EStateM ε (World σ B) Int
  prefillBatchedTokensMargin : EStateM ε (World σ B) Int
  remainingPrefillTokens : SeqId → EStateM ε (World σ B) Int
  prefillExecutionMode : SeqId → EStateM ε (World σ B) PrefillExecutionMode
  prefillBatchCompatibilityKey : SeqId → EStateM ε (World σ B) κ
  resetPrefillExecutionState : SeqId → EStateM ε (World σ B) Unit
  completePrefillExecution : SeqId → EStateM ε (World σ B) Unit
  reservedPrefillSlots : List SeqId → Nat → EStateM ε (World σ B) Int
  shouldScheduleFullPrefill : SeqId → EStateM ε (World σ B) Bool
  prefillStepFreeSlots : EStateM ε (World σ B) Int
  prefillStepFreeSlotsFor : SeqId → EStateM ε (World σ B) Int
  minFinalPrefillChunkSize : SeqId → EStateM ε (World σ B) Int
  prefillStepReservationCost : SeqId → Int → EStateM ε (World σ B) Int
  decodeStepFreeSlots : EStateM ε (World σ B) Int
  decodeStepFreeSlotsFor : SeqId → EStateM ε (World σ B) Int
  decodeStepReservationCost : SeqId → EStateM ε (World σ B) Int
  promptAdmissionFreeSlots : EStateM ε (World σ B) Int
  promptAdmissionBudgets : List SeqId → Nat → EStateM ε (World σ B) (List (ν × Int))
  promptAdmissionCosts : SeqId → EStateM ε (World σ B) (List (ν × Int))
  promptLogicalReservationCost : SeqId → EStateM ε (World σ B) Int
  promptAdmissionFailureAction : EStateM ε (World σ B) AdmissionFailureAction
  onPromptAdmitted : SeqId → List (ν × Int) → EStateM ε (World σ B) Unit
  prefixCacheHitRefresher : SeqId → EStateM ε (World σ B) Unit
  clearPrefixCacheHit : SeqId → EStateM ε (World σ B) Unit
  freeSlotStats : EStateM ε (World σ B) Unit
  /-- Entering and leaving `scheduler_capacity_snapshot`. -/
  enterCapacitySnapshot : EStateM ε (World σ B) Unit
  exitCapacitySnapshot : EStateM ε (World σ B) Unit

/-- The configuration the scheduler reads. -/
structure SchedulerConfig where
  maxNumSeqsInBatch : Nat
  maxNumBatchedTokens : Nat
  maxDecodingSeqs : Nat
  enginePrefillChunkSize : Nat
  sparseMethod : SparseMethod
  sinkKeepTokens : Nat
  recentKeepTokens : Nat
  decodeKeepTokens : Nat
  /-- `Scheduler.eos_token_ids`, resolved at construction. -/
  eosTokenIds : List Nat := []

/-- The scheduler's own state, with the heap and the oracle it works on. -/
structure Scheduler (σ B : Type) where
  world : World σ B
  waiting : List SeqId
  decoding : List SeqId
  totalPreemptions : Nat := 0
  totalRecomputeReplays : Nat := 0

/-- What `schedule` returns: the batch, whether it is a prefill batch, the preempted requests. -/
structure ScheduleResult where
  seqs : List SeqId
  isPrefill : Bool
  preempted : List SeqId
  deriving DecidableEq, Repr

/-- `decode_sparse_long_text_threshold`. -/
def decodeSparseLongTextThreshold (cfg : SchedulerConfig) : Nat :=
  match cfg.sparseMethod with
  | .vanilla => 0
  | .streamingllm => cfg.sinkKeepTokens + cfg.recentKeepTokens
  | _ => cfg.sinkKeepTokens + cfg.decodeKeepTokens + cfg.recentKeepTokens

/-- `_is_long_text` for a decode candidate. -/
def isLongText {B : Type} (cfg : SchedulerConfig) (seq : Sequence B) : Bool :=
  match cfg.sparseMethod with
  | .vanilla => false
  | _ => decide (decodeSparseLongTextThreshold cfg < seq.numTokens)

/-- `deque.rotate(-idx)`, `popleft`, `rotate(idx)`: the element and the rest of the queue. -/
def popAt (queue : List SeqId) (idx : Nat) : Option (SeqId × List SeqId) :=
  if idx = 0 then
    match queue with
    | [] => none
    | seq :: rest => some (seq, rest)
  else
    match queue.rotate idx with
    | [] => none
    | seq :: rest => some (seq, rest.rotate (rest.length - idx))

/-- `budgets.get(name, 0) or 0`. -/
def budgetOf {ν : Type} [DecidableEq ν] (budgets : List (ν × Int)) (name : ν) : Int :=
  (budgets.lookup name).getD 0

/-- `budgets[name] = budgets.get(name, 0) - need`. -/
def chargeBudget {ν : Type} [DecidableEq ν] (budgets : List (ν × Int)) (name : ν) (need : Int) :
    List (ν × Int) :=
  (name, budgetOf budgets name - need) :: budgets.filter fun entry => entry.1 ≠ name

/-- `for name, need in costs.items(): admission_budgets[name] -= need`. -/
def chargeBudgets {ν : Type} [DecidableEq ν] (budgets costs : List (ν × Int)) : List (ν × Int) :=
  costs.foldl (fun budgets cost => chargeBudget budgets cost.1 cost.2) budgets

/-- The first cost the budgets do not cover: the name, the need and what is free. -/
def failedBudget {ν : Type} [DecidableEq ν] (budgets : List (ν × Int)) :
    List (ν × Int) → Option (ν × Int × Int)
  | [] => none
  | (name, need) :: rest =>
    if budgetOf budgets name < need then some (name, need, budgetOf budgets name)
    else failedBudget budgets rest

/-- The local variables of the prefill phase of `_schedule_impl`. -/
structure PrefillPass (ν : Type) where
  scheduledSeqs : List SeqId := []
  numBatchedSeqs : Nat := 0
  numBatchedTokens : Int := 0
  promptLogicalFreeCount : Int
  stepFreeCount : Int
  admissionBudgets : List (ν × Int)
  deferredPromptFailure : Option (SeqId × ν × Int × Int) := none
  blockedPrefillStepFailure : Option (SeqId × Int × Int) := none
  blockedPrefillCapacityFailure : Option (SeqId × Int × Int × Int) := none

/-- What becomes of the current bucket after one candidate: `continue`, or the `break` that ends
a raw-offload bucket. -/
inductive BucketStep where
  | continue
  | break
  deriving DecidableEq, Repr

section Pass

variable {ε σ B κ ν : Type} [DecidableEq κ] [DecidableEq ν]
variable (cfg : SchedulerConfig) (memory : MemoryOracle ε σ B κ ν)

/-- The scheduler's programs. -/
abbrev SchedM (ε σ B ν α : Type) := EStateM (SchedulerError ε ν) (Scheduler σ B) α

/-- A call of the memory oracle. -/
def ask {α : Type} (m : EStateM ε (World σ B) α) : SchedM ε σ B ν α := fun s =>
  match m s.world with
  | .ok a w => .ok a { s with world := w }
  | .error e w => .error (.oracle e) { s with world := w }

/-- Assign fields of one request object. -/
def modifySeq (seq : SeqId) (f : Sequence B → Sequence B) : SchedM ε σ B ν Unit :=
  modify fun s => { s with world := s.world.modifySeq seq f }

/-- Read a request object. -/
def getSeq (seq : SeqId) : SchedM ε σ B ν (Sequence B) := do
  return (← get).world.seqs seq

/-- `self.waiting.append(seq)`. -/
def appendWaiting (seq : SeqId) : SchedM ε σ B ν Unit :=
  modify fun s => { s with waiting := s.waiting ++ [seq] }

/-- `self.decoding.append(seq)`. -/
def appendDecoding (seq : SeqId) : SchedM ε σ B ν Unit :=
  modify fun s => { s with decoding := s.decoding ++ [seq] }

/-- `any(seq.is_recompute_replay for seq in self.waiting)`. -/
def replayPending (s : Scheduler σ B) : Bool :=
  s.waiting.any fun seq => (s.world.seqs seq).isRecomputeReplay

/-- `_prefill_batch_key`. -/
def prefillBatchKey (seq : SeqId) : SchedM ε σ B ν (PrefillExecutionMode × κ) := do
  let mode ← ask (memory.prefillExecutionMode seq)
  let compatibility ← ask (memory.prefillBatchCompatibilityKey seq)
  return (mode, compatibility)

/-- `_refresh_prefill_metadata`. -/
def refreshPrefillMetadata (seq : SeqId) : SchedM ε σ B ν Unit := do
  let request ← getSeq seq
  if request.numPrefilledTokens = 0 ∧ request.numCompletionTokens = 0 then
    ask (memory.prefixCacheHitRefresher seq)
  else
    pure ()

/-- The walk of `_prefill_mode_order` over the waiting queue. -/
def collectPrefillModes (pending : Bool) :
    List SeqId → List (PrefillExecutionMode × κ) → SchedM ε σ B ν (List (PrefillExecutionMode × κ))
  | [], modes => pure modes
  | seq :: rest, modes => do
    let request ← getSeq seq
    if pending = true ∧ request.isRecomputeReplay = false then
      collectPrefillModes pending rest modes
    else
      refreshPrefillMetadata memory seq
      let key ← prefillBatchKey memory seq
      collectPrefillModes pending rest (if key ∈ modes then modes else modes ++ [key])

/-- `_prefill_mode_order`. -/
def prefillModeOrder : SchedM ε σ B ν (List (PrefillExecutionMode × κ)) := do
  let s ← get
  collectPrefillModes memory (replayPending s) s.waiting []

/-- The index of the first waiting request of the target bucket. -/
def findPrefillSeq (pending : Bool) (target : PrefillExecutionMode × κ) :
    List SeqId → Nat → SchedM ε σ B ν (Option Nat)
  | [], _ => pure none
  | seq :: rest, idx => do
    let request ← getSeq seq
    if pending = true ∧ request.isRecomputeReplay = false then
      findPrefillSeq pending target rest (idx + 1)
    else
      let key ← prefillBatchKey memory seq
      if key = target then pure (some idx) else findPrefillSeq pending target rest (idx + 1)

/-- `_pop_waiting_at`. -/
def popWaitingAt (idx : Nat) : SchedM ε σ B ν (Option SeqId) := do
  let s ← get
  match popAt s.waiting idx with
  | none => pure none
  | some (seq, rest) =>
    set { s with waiting := rest }
    return some seq

/-- `_pop_next_prefill_seq`. -/
def popNextPrefillSeq (target : PrefillExecutionMode × κ) : SchedM ε σ B ν (Option SeqId) := do
  let s ← get
  let found ← findPrefillSeq memory (replayPending s) target s.waiting 0
  match found with
  | none => pure none
  | some idx => popWaitingAt idx

/-- `_pop_decoding_at`. -/
def popDecodingAt (idx : Nat) : SchedM ε σ B ν (Option SeqId) := do
  let s ← get
  match popAt s.decoding idx with
  | none => pure none
  | some (seq, rest) =>
    set { s with decoding := rest }
    return some seq

/-- `_pop_next_decoding_seq`. -/
def popNextDecodingSeq (targetIsLong : Bool) : SchedM ε σ B ν (Option SeqId) := do
  let s ← get
  match s.decoding.findIdx? (fun seq => isLongText cfg (s.world.seqs seq) == targetIsLong) with
  | none => pure none
  | some idx => popDecodingAt idx

/-- `_can_continue_prefill_batch`. -/
def canContinuePrefillBatch (mode : PrefillExecutionMode) (pass : PrefillPass ν) (margin : Int)
    (s : Scheduler σ B) : Bool :=
  if s.waiting.isEmpty then false
  else if pass.scheduledSeqs.any fun seq => (s.world.seqs seq).isRecomputeReplay then false
  else if cfg.maxDecodingSeqs ≤ s.decoding.length then false
  else match mode with
    | .rawOffload => pass.scheduledSeqs.isEmpty && decide (0 < pass.stepFreeCount)
    | _ =>
      decide (0 < pass.stepFreeCount) &&
        decide (pass.numBatchedTokens ≤ cfg.maxNumBatchedTokens - margin) &&
        decide (pass.numBatchedSeqs < cfg.maxNumSeqsInBatch)

/-- `_prefill_step_tokens`. -/
def prefillStepTokens (mode : PrefillExecutionMode) (remaining numBatchedTokens stepFree : Int) :
    Int :=
  match mode with
  | .full =>
    if remaining ≤ min (cfg.maxNumBatchedTokens - numBatchedTokens) stepFree then remaining else 0
  | _ =>
    min remaining
      (min cfg.enginePrefillChunkSize (min (cfg.maxNumBatchedTokens - numBatchedTokens) stepFree))

/-- `_respect_min_final_prefill_chunk`. -/
def respectMinFinalPrefillChunk (seq : SeqId) (remaining proposed : Int) :
    SchedM ε σ B ν Int := do
  let minFinal ← ask (memory.minFinalPrefillChunkSize seq)
  raiseIf (minFinal < 0) (.negativeMinFinalChunk seq minFinal)
  if minFinal = 0 ∨ remaining - proposed ≤ 0 ∨ minFinal ≤ remaining - proposed then
    pure proposed
  else
    pure (max 0 (remaining - minFinal))

/-- The candidate does not fit this step: note why, and put it back at the tail. -/
def blockPrefillCandidate (mode : PrefillExecutionMode) (seq : SeqId)
    (remaining candidateFree : Int) (pass : PrefillPass ν) : SchedM ε σ B ν (PrefillPass ν) := do
  let pass :=
    if candidateFree ≤ 0 ∧ 0 < pass.stepFreeCount ∧ pass.blockedPrefillCapacityFailure = none then
      { pass with
        blockedPrefillCapacityFailure := some (seq, remaining, candidateFree, pass.stepFreeCount) }
    else pass
  let pass :=
    if mode = .full then
      { pass with
        blockedPrefillStepFailure := some
          (seq, remaining, min (cfg.maxNumBatchedTokens - pass.numBatchedTokens) candidateFree) }
    else pass
  appendWaiting seq
  return pass

/-- `if seq.prefix_cache_hit_len > 0: seq.num_prefilled_tokens = seq.prefix_cache_hit_len`. -/
def startAtPrefixHit (seq : SeqId) : SchedM ε σ B ν Unit :=
  modifySeq seq fun request =>
    if 0 < request.prefixCacheHitLen then
      { request with numPrefilledTokens := request.prefixCacheHitLen }
    else request

/-- Charge the budgets of an admitted prompt, then its logical reservation. -/
def chargeAdmission (seq : SeqId) (costs : List (ν × Int)) (pass : PrefillPass ν) :
    SchedM ε σ B ν (PrefillPass ν) := do
  let pass := { pass with admissionBudgets := chargeBudgets pass.admissionBudgets costs }
  ask (memory.onPromptAdmitted seq costs)
  startAtPrefixHit seq
  let logicalNeed ← ask (memory.promptLogicalReservationCost seq)
  raiseIf (pass.promptLogicalFreeCount < logicalNeed)
    (.promptAdmissionBudgetMismatch seq logicalNeed pass.promptLogicalFreeCount)
  return { pass with promptLogicalFreeCount := pass.promptLogicalFreeCount - logicalNeed }

/-- The admission check of a prompt that has not started: `none` when it is deferred. -/
def admitPrompt (seq : SeqId) (pass : PrefillPass ν) :
    SchedM ε σ B ν (Option (PrefillPass ν) × PrefillPass ν) := do
  let costs ← ask (memory.promptAdmissionCosts seq)
  match failedBudget pass.admissionBudgets costs with
  | some (name, need, free) =>
    let action ← ask memory.promptAdmissionFailureAction
    if action = .defer then
      let pass :=
        if pass.deferredPromptFailure = none then
          { pass with deferredPromptFailure := some (seq, name, need, free) }
        else pass
      appendWaiting seq
      return (none, pass)
    else
      throw (.insufficientSlotsToAdmit seq name need free)
  | none =>
    let pass ← chargeAdmission memory seq costs pass
    return (some pass, pass)

/-- The candidate joins the batch. -/
def schedulePrefillChunk (mode : PrefillExecutionMode) (seq : SeqId) (tokens : Int)
    (pass : PrefillPass ν) : SchedM ε σ B ν (BucketStep × PrefillPass ν) := do
  modifySeq seq fun request => { request with currentChunkSize := some tokens.toNat }
  let cost ← ask (memory.prefillStepReservationCost seq tokens)
  modifySeq seq fun request => { request with status := .running }
  let pass :=
    { pass with
      numBatchedSeqs := pass.numBatchedSeqs + 1
      numBatchedTokens := pass.numBatchedTokens + tokens
      stepFreeCount := max 0 (pass.stepFreeCount - cost)
      scheduledSeqs := pass.scheduledSeqs ++ [seq] }
  return (if mode = .rawOffload then .break else .continue, pass)

/-- The body of the bucket loop for a popped candidate. -/
def prefillCandidate (mode : PrefillExecutionMode) (seq : SeqId) (pass : PrefillPass ν) :
    SchedM ε σ B ν (BucketStep × PrefillPass ν) := do
  let remaining ← ask (memory.remainingPrefillTokens seq)
  let candidateFree ← ask (memory.prefillStepFreeSlotsFor seq)
  let fullStaging ← ask (memory.shouldScheduleFullPrefill seq)
  let candidateFree :=
    if mode ≠ .rawOffload ∧ fullStaging = false then min pass.stepFreeCount candidateFree
    else candidateFree
  raiseIf (remaining ≤ 0) (.finishedPrefillWaiting seq)
  let proposed := prefillStepTokens cfg mode remaining pass.numBatchedTokens candidateFree
  let tokens ← respectMinFinalPrefillChunk memory seq remaining proposed
  if tokens ≤ 0 then
    let pass ← blockPrefillCandidate cfg mode seq remaining candidateFree pass
    return (.continue, pass)
  else
    let request ← getSeq seq
    if request.numPrefilledTokens = 0 then
      let (admitted, pass) ← admitPrompt memory seq pass
      match admitted with
      | none => return (.continue, pass)
      | some pass => schedulePrefillChunk memory mode seq tokens pass
    else
      schedulePrefillChunk memory mode seq tokens pass

/-- The `while` loop over one bucket; the counter is `bucket_scan_budget`. -/
def prefillBucket (margin : Int) (target : PrefillExecutionMode × κ) :
    Nat → PrefillPass ν → SchedM ε σ B ν (PrefillPass ν)
  | 0, pass => pure pass
  | budget + 1, pass => do
    let s ← get
    if canContinuePrefillBatch cfg target.1 pass margin s then
      let popped ← popNextPrefillSeq memory target
      match popped with
      | none => pure pass
      | some seq =>
        let (step, pass) ← prefillCandidate cfg memory target.1 seq pass
        match step with
        | .continue => prefillBucket margin target budget pass
        | .break => pure pass
    else
      pure pass

/-- The `for` loop over the buckets. -/
def prefillBuckets (margin : Int) :
    List (PrefillExecutionMode × κ) → PrefillPass ν → SchedM ε σ B ν (PrefillPass ν)
  | [], pass => pure pass
  | target :: rest, pass => do
    if pass.scheduledSeqs.isEmpty then
      let s ← get
      let pass ← prefillBucket cfg memory margin target s.waiting.length pass
      prefillBuckets margin rest pass
    else
      pure pass

/-- The victim starts over: as a recompute replay once it has a completion token. -/
def restartVictim (victim : SeqId) : SchedM ε σ B ν Unit := do
  let request ← getSeq victim
  if 0 < request.numCompletionTokens then
    modifySeq victim fun request => { request with status := .waiting }.startRecomputeReplay
    modify fun s => { s with totalRecomputeReplays := s.totalRecomputeReplays + 1 }
  else
    modifySeq victim fun request => { request with status := .waiting, numPrefilledTokens := 0 }

/-- `_preempt_decode_victim`; `scheduled` is the batch popped so far. -/
def preemptDecodeVictim (victim : SeqId) (scheduled : List SeqId) :
    SchedM ε σ B ν ScheduleResult := do
  let s ← get
  let request := s.world.seqs victim
  let madeProgressSinceHandoff :=
    decide (request.decodeProgressCheckpoint < request.numCompletionTokens)
  raiseIf (0 < request.numCompletionTokens ∧ s.decoding = [] ∧
    (replayPending s && madeProgressSinceHandoff) = false) (.soleDecodeTooSmall victim)
  restartVictim victim
  forEach s.decoding fun survivor =>
    modifySeq survivor fun request =>
      { request with decodeProgressCheckpoint := request.numCompletionTokens }
  ask (memory.clearPrefixCacheHit victim)
  ask (memory.resetPrefillExecutionState victim)
  appendWaiting victim
  -- Requests already popped into this batch have not run: they go back to the head of the queue.
  modify fun s => { s with decoding := scheduled ++ s.decoding }
  modify fun s => { s with totalPreemptions := s.totalPreemptions + 1 }
  ask memory.freeSlotStats
  return { seqs := [], isPrefill := false, preempted := [victim] }

/-- How the decode loop ends: with the batch and the first blocked request, or by preempting. -/
inductive DecodeOutcome where
  | batch (scheduled : List SeqId) (blocked : Option SeqId)
  | preempt (result : ScheduleResult)

/-- The decode loop; the counter is `decode_scan_budget`. -/
def decodeLoop (targetIsLong : Bool) :
    Nat → Nat → Int → List SeqId → Option SeqId → SchedM ε σ B ν DecodeOutcome
  | 0, _, _, scheduled, blocked => pure (.batch scheduled blocked)
  | budget + 1, numBatchedSeqs, logicalFree, scheduled, blocked => do
    let s ← get
    if s.decoding.isEmpty = true ∨ cfg.maxDecodingSeqs ≤ numBatchedSeqs then
      pure (.batch scheduled blocked)
    else
      let popped ← popNextDecodingSeq cfg targetIsLong
      match popped with
      | none => pure (.batch scheduled blocked)
      | some seq =>
        let seqFree ← ask (memory.decodeStepFreeSlotsFor seq)
        let cost ← ask (memory.decodeStepReservationCost seq)
        if min logicalFree seqFree < cost then
          let nowBlocked := if blocked = none then some seq else blocked
          if 0 < logicalFree then
            appendDecoding seq
            decodeLoop targetIsLong budget numBatchedSeqs logicalFree scheduled nowBlocked
          else if scheduled ≠ [] then
            -- The step still has useful work: run the partial batch before preempting.
            appendDecoding seq
            pure (.batch scheduled nowBlocked)
          else
            let result ← preemptDecodeVictim memory seq scheduled
            pure (.preempt result)
        else
          decodeLoop targetIsLong budget (numBatchedSeqs + 1) (logicalFree - cost)
            (scheduled ++ [seq]) blocked

/-- `if failure is not None and not self.decoding: raise`. -/
def raiseStored (failure : Option (SchedulerError ε ν)) : SchedM ε σ B ν Unit := do
  let s ← get
  match failure with
  | some error => raiseIf (s.decoding = []) error
  | none => pure ()

/-- Nothing could be scheduled: preempt the blocked decode, or fail, or return nothing. -/
def finishEmptyPass (blocked : Option SeqId) (pass : PrefillPass ν) :
    SchedM ε σ B ν ScheduleResult := do
  match blocked with
  | some victim =>
    modify fun s => { s with decoding := s.decoding.erase victim }
    preemptDecodeVictim memory victim []
  | none =>
    raiseStored <| pass.blockedPrefillStepFailure.map fun (seq, need, free) =>
      .atomicPrefillCannotFit seq need free
    raiseStored <| pass.blockedPrefillCapacityFailure.map fun (seq, need, seqFree, globalFree) =>
      .noPrefillCandidate seq need seqFree globalFree
    raiseStored <| pass.deferredPromptFailure.map fun (seq, name, need, free) =>
      .allAdmissionsDeferred seq name need free
    return { seqs := [], isPrefill := false, preempted := [] }

/-- `self.decoding.remove(victim); self.decoding.appendleft(victim)`, if a request was blocked. -/
def frontBlockedDecode : Option SeqId → SchedM ε σ B ν Unit
  | some victim => modify fun s => { s with decoding := victim :: s.decoding.erase victim }
  | none => pure ()

/-- Put the decode batch back at the head, the blocked request before it. -/
def finishDecodeBatch (scheduled : List SeqId) (blocked : Option SeqId) :
    SchedM ε σ B ν ScheduleResult := do
  modify fun s => { s with decoding := scheduled ++ s.decoding }
  frontBlockedDecode blocked
  return { seqs := scheduled, isPrefill := false, preempted := [] }

/-- The capacity counters at the start of the pass, and the batched-tokens margin. -/
def startPass : SchedM ε σ B ν (PrefillPass ν × Int) := do
  let physicalFree ← ask memory.numFreeSlots
  let s ← get
  if s.waiting.isEmpty then
    return ({ promptLogicalFreeCount := 0, stepFreeCount := physicalFree, admissionBudgets := [] },
      0)
  else
    let reserved ← ask (memory.reservedPrefillSlots s.waiting cfg.enginePrefillChunkSize)
    let admissionFree ← ask memory.promptAdmissionFreeSlots
    let stepFree ← ask memory.prefillStepFreeSlots
    let budgets ← ask (memory.promptAdmissionBudgets s.waiting cfg.enginePrefillChunkSize)
    let margin ← ask memory.prefillBatchedTokensMargin
    return ({ promptLogicalFreeCount := max 0 (admissionFree - reserved),
              stepFreeCount := stepFree, admissionBudgets := budgets }, margin)

/-- The decode phase, entered when no prefill was scheduled. -/
def decodePhase (decodeLogicalFree : Int) (pass : PrefillPass ν) :
    SchedM ε σ B ν ScheduleResult := do
  let s ← get
  let hasShortDecode := s.decoding.any fun seq => !isLongText cfg (s.world.seqs seq)
  let targetIsLong := !s.decoding.isEmpty && !hasShortDecode
  let outcome ← decodeLoop cfg memory targetIsLong s.decoding.length pass.numBatchedSeqs
    decodeLogicalFree [] none
  match outcome with
  | .preempt result => pure result
  | .batch scheduled blocked =>
    if scheduled = [] then finishEmptyPass memory blocked pass
    else finishDecodeBatch scheduled blocked

/-- The buckets of the pass: none while a recompute replay waits for the decode queue to drain. -/
def passModes : SchedM ε σ B ν (List (PrefillExecutionMode × κ)) := do
  let s ← get
  if s.waiting.isEmpty = false ∧ (replayPending s && !s.decoding.isEmpty) = false then
    prefillModeOrder memory
  else
    pure []

/-- `_schedule_impl`. -/
def scheduleImpl : SchedM ε σ B ν ScheduleResult := do
  let (pass, margin) ← startPass cfg memory
  let decodeFree ← ask memory.decodeStepFreeSlots
  let modes ← passModes memory
  let pass ← prefillBuckets cfg memory margin modes pass
  if pass.scheduledSeqs = [] then
    decodePhase cfg memory (max 0 decodeFree) pass
  else
    return { seqs := pass.scheduledSeqs, isPrefill := true, preempted := [] }

/-- `schedule`: the pass inside the oracle's capacity snapshot. -/
def schedule : SchedM ε σ B ν ScheduleResult := do
  ask memory.enterCapacitySnapshot
  andFinally (scheduleImpl cfg memory) (ask memory.exitCapacitySnapshot)

end Pass

end SparseVllm
