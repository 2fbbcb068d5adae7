import SparseVllm.Lib.Run
import SparseVllm.Scheduler.Schedule

/-!
# One engine step (`LLMEngine.step` and `Scheduler.postprocess`)

A step schedules, releases the rows of the preempted requests, runs the batch, and lets the
scheduler read the samples. The model runner is a record of programs on the oracle's state and the
requests, as the memory oracle is, so a sample may be anything.

`Engine.executed` is the trace the results are about: the inputs (token and position) executed for
a request since its rows were last released. `executeBatch` appends what the cache managers prepare
from the request (`prefillInputs`, `decodeInputs`), and releasing rows empties it.

Left out: the published outputs and statistics of a step, and the chain branch of a finished
request. A request that resumes a chain enters the scheduler with its reused tokens as its hit
(`addRequest`).
-/

namespace SparseVllm

open SparseVllm.Lib

/-- The errors of an engine step. -/
inductive StepError (ε ν : Type) where
  | scheduler (error : SchedulerError ε ν)
  | runner (error : ε)
  | sequence (seq : SeqId) (error : SequenceError)
  | nothingToRun
  deriving DecidableEq, Repr

/-- `ModelRunner`: the calls of a step. -/
structure ModelRunner (ε σ B : Type) where
  freeSlotsBatch : List SeqId → EStateM ε (World σ B) Unit
  run : List SeqId → Bool → EStateM ε (World σ B) (SeqId → Sample)
  finishSlotsBatch : List SeqId → EStateM ε (World σ B) Unit

/-- The engine: its scheduler, and the inputs executed on the rows each request holds. -/
structure Engine (σ B : Type) where
  scheduler : Scheduler σ B
  executed : SeqId → List (Nat × Int) := fun _ => []

namespace Engine

variable {σ B : Type}

def request (e : Engine σ B) (seq : SeqId) : Sequence B := e.scheduler.world.seqs seq

/-- The rows of a request are released. -/
def release (e : Engine σ B) (seqs : List SeqId) : Engine σ B :=
  { e with executed := fun seq => if seq ∈ seqs then [] else e.executed seq }

end Engine

/-- `resolve_eos_token_ids`, of a request and the scheduler's configured ids. -/
def resolveEosTokenIds (requested configured : List Nat) : List Nat :=
  if requested.isEmpty then configured else requested

/-- The request ends with the token it was just given. -/
def Sequence.endsWith {B : Type} (cfg : SchedulerConfig) (request : Sequence B) (token : Nat) :
    Bool :=
  (!request.ignoreEos && (resolveEosTokenIds request.eosTokenIds cfg.eosTokenIds).contains token) ||
    request.numCompletionTokens == request.maxTokens

section Step

variable {ε σ B κ ν : Type} [DecidableEq κ] [DecidableEq ν]
variable (cfg : SchedulerConfig) (memory : MemoryOracle ε σ B κ ν) (runner : ModelRunner ε σ B)

/-- The programs of a step. -/
abbrev StepM (ε σ B ν α : Type) := EStateM (StepError ε ν) (Engine σ B) α

/-- A method of the scheduler. -/
def onScheduler {α : Type} (m : SchedM ε σ B ν α) : StepM ε σ B ν α :=
  zoom Engine.scheduler (fun s e => { e with scheduler := s }) .scheduler m

/-- `model_runner.call`. -/
def call {α : Type} (m : EStateM ε (World σ B) α) : StepM ε σ B ν α :=
  zoom (fun e => e.scheduler.world)
    (fun w e => { e with scheduler := { e.scheduler with world := w } }) .runner m

/-- A method of a request that may raise. -/
def updateSeq (seq : SeqId) (method : Sequence B → Except SequenceError (Sequence B)) :
    StepM ε σ B ν Unit := do
  let e ← get
  match method (e.request seq) with
  | .error error => throw (.sequence seq error)
  | .ok request => onScheduler (modifySeq seq fun _ => request)

/-! ### `postprocess` -/

/-- A finished request leaves the decode queue. -/
def finishSeq (seq : SeqId) : StepM ε σ B ν Unit := do
  onScheduler (modifySeq seq fun request => { request with status := .finished })
  onScheduler (modify fun s => { s with decoding := s.decoding.erase seq })

/-- The sample is accepted: append it, and finish the request if it ends here. -/
def acceptSample (seq : SeqId) (sample : Sample) : StepM ε σ B ν Unit := do
  onScheduler (modifySeq seq fun request => request.appendToken sample)
  let e ← get
  if (e.request seq).endsWith cfg sample.tokenId then finishSeq seq else pure ()

/-- `if seq.replay_decode_token_count == 0: seq.finish_recompute_replay()`. -/
def finishEmptyReplay (seq : SeqId) : StepM ε σ B ν Unit := do
  let e ← get
  if (e.request seq).replayDecodeTokenCount = 0 then updateSeq seq Sequence.finishRecomputeReplay
  else pure ()

/-- The prompt is prefilled: the request joins the decode queue. -/
def completePrefill (seq : SeqId) (sample : Sample) : StepM ε σ B ν Unit := do
  onScheduler (ask (memory.completePrefillExecution seq))
  onScheduler (modifySeq seq fun request => { request with status := .running })
  onScheduler (appendDecoding seq)
  let e ← get
  if (e.request seq).isRecomputeReplay then
    -- The prefill rebuilt an accepted prompt: its sample is discarded.
    finishEmptyReplay seq
  else
    acceptSample cfg seq sample

/-- The prefill loop of `postprocess`. -/
def postprocessPrefill (seq : SeqId) (sample : Sample) : StepM ε σ B ν Unit := do
  updateSeq seq Sequence.advancePrefill
  let e ← get
  if (e.request seq).numPrefilledTokens < (e.request seq).numPromptTokens then do
    onScheduler (modifySeq seq fun request => { request with status := .waiting })
    onScheduler (modify fun s => { s with waiting := seq :: s.waiting })
  else
    completePrefill cfg memory seq sample

/-- The decode loop of `postprocess`. -/
def postprocessDecode (seq : SeqId) (sample : Sample) : StepM ε σ B ν Unit := do
  let e ← get
  if (e.request seq).isRecomputeDecode then updateSeq seq Sequence.advanceRecomputeReplay
  else acceptSample cfg seq sample

/-- `postprocess`, with the sample of each request of the batch. -/
def postprocess (seqs : List SeqId) (samples : SeqId → Sample) (isPrefill : Bool) :
    StepM ε σ B ν Unit :=
  forEach seqs fun seq =>
    if isPrefill then postprocessPrefill cfg memory seq (samples seq)
    else postprocessDecode cfg seq (samples seq)

/-! ### The step -/

/-- The inputs of a request in the batch. -/
def batchInputs (isPrefill : Bool) (request : Sequence B) :
    Except SequenceError (List (Nat × Int)) :=
  if isPrefill then request.prefillInputs else request.decodeInputs

/-- The cache manager prepares the inputs of one request. -/
def executeSeq (isPrefill : Bool) (seq : SeqId) : StepM ε σ B ν Unit := do
  let e ← get
  match batchInputs isPrefill (e.request seq) with
  | .error error => throw (.sequence seq error)
  | .ok inputs =>
    modify fun e => { e with executed := Function.update e.executed seq (e.executed seq ++ inputs) }

/-- `model_runner.call("run", seqs, is_prefill)`. -/
def executeBatch (seqs : List SeqId) (isPrefill : Bool) : StepM ε σ B ν (SeqId → Sample) := do
  forEach seqs (executeSeq isPrefill)
  call (runner.run seqs isPrefill)

/-- `_release_preempted_sequences`. -/
def releasePreemptedSequences (seqs : List SeqId) : StepM ε σ B ν Unit := do
  if seqs = [] then pure ()
  else do
    call (runner.freeSlotsBatch seqs)
    modify fun e => e.release seqs

/-- `finish_slots_batch` for the requests of the batch that have ended. -/
def releaseFinished (seqs : List SeqId) : StepM ε σ B ν Unit := do
  let e ← get
  let finished := seqs.filter fun seq => (e.request seq).status = .finished
  if finished = [] then pure ()
  else do
    call (runner.finishSlotsBatch finished)
    modify fun e => e.release finished

/-- `prefill_execution_mode_counts`: it refreshes the hits of the waiting requests. -/
def countPrefillModes : SchedM ε σ B ν Unit := do
  let s ← get
  forEach s.waiting fun seq => do
    refreshPrefillMetadata memory seq
    let _ ← ask (memory.prefillExecutionMode seq)
    pure ()

/-- Schedule, then release the rows of the preempted requests. -/
def beginStep : StepM ε σ B ν ScheduleResult := do
  let result ← onScheduler (schedule cfg memory)
  releasePreemptedSequences runner result.preempted
  return result

/-- Run the batch and read its samples. -/
def runBatch (result : ScheduleResult) : StepM ε σ B ν Unit := do
  let samples ← executeBatch runner result.seqs result.isPrefill
  postprocess cfg memory result.seqs samples result.isPrefill

/-- No batch: fine after a preemption or when all requests are done. -/
def idleStep (result : ScheduleResult) : StepM ε σ B ν Unit := do
  let e ← get
  raiseIf (result.preempted = [] ∧ (e.scheduler.waiting ≠ [] ∨ e.scheduler.decoding ≠ []))
    .nothingToRun
  onScheduler (countPrefillModes memory)

/-- `LLMEngine.step`. The raise of `prefill_execution_mode_for_batch` on a batch of several modes is
left out: the scheduler takes a batch from one bucket. -/
def engineStep : StepM ε σ B ν ScheduleResult := do
  let result ← beginStep cfg memory runner
  if result.seqs = [] then do
    idleStep memory result
    return result
  else do
    runBatch cfg memory runner result
    releaseFinished runner result.seqs
    onScheduler (countPrefillModes memory)
    return result

/-- `Scheduler.add` of a new request, which starts after the `reused` tokens of a resumed chain. -/
def addRequest (seq : SeqId) (request : Sequence B) (reused : Nat) (e : Engine σ B) : Engine σ B :=
  { scheduler := { e.scheduler with
      world := e.scheduler.world.modifySeq seq fun _ =>
        { request with numPrefilledTokens := reused, prefixCacheHitLen := reused }
      waiting := e.scheduler.waiting ++ [seq] }
    executed := Function.update e.executed seq [] }

end Step

end SparseVllm
