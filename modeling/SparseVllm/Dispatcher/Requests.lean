import SparseVllm.Lib.Dict
import SparseVllm.Lib.Run
import SparseVllm.Scheduler.Sequence

/-!
# The request dispatcher (`entrypoints/openai/dispatcher.py`)

The clients of `AsyncEngineDispatcher` and its thread over the queues, flags and handles they share,
one atomic step at a time. A client call is a task that steps between its reads and writes of shared
data. What it does under `_state_lock` before its first write that others see is one step with that
write: the answer of `_terminal_message_locked` changes only under the lock, or by the thread's end,
which follows such a change. The thread steps from one access to shared data to the next.

What the thread cannot decide by itself is in the `Reply` of a step: what an engine call returns, raises
and loses, what a step of the engine publishes, and how the texts come out. So an engine exception can
come at every call.

The engine is what `admit_request`, `abort_request`, `discard_chain` and `step` of `LLMEngine` do to the
scheduler's sequences and to the chain records. `owner` and `released` are ghosts.

Left out: the texts, token ids, usage counts and messages of the events, the routing snapshots, the
replies to control calls, a discard's wait for its result, aborts that are not an `_AbortRequest`
(nothing makes one), engines without `admit_request` or `discard_chain`, and exceptions that are no
`Exception`.
-/

namespace SparseVllm.Dispatcher

open SparseVllm.Lib

/-- A handle, named by its `request_token`. -/
abbrev RequestId := Nat

/-- The type of an event on a request's `output_queue`. -/
inductive OutputEvent where
  | token
  | final
  | error
  deriving DecidableEq, Repr

namespace OutputEvent

/-- The events after which a client reads no more. -/
def isTerminal : OutputEvent → Bool
  | token => false
  | final | error => true

end OutputEvent

/-- `RequestHandle`. -/
structure RequestHandle where
  cancelled : Bool := false
  terminal : Bool := false
  seqId : Option SeqId := none
  chainId : Option Nat := none
  /-- Oldest first. -/
  outputQueue : List OutputEvent := []
  /-- How often the admission future was given its result. -/
  resolutions : Nat := 0
  deriving DecidableEq, Repr

namespace RequestHandle

/-- `_put`. -/
def put (event : OutputEvent) (handle : RequestHandle) : RequestHandle :=
  { handle with outputQueue := handle.outputQueue ++ [event] }

/-- `_put` of a `token` event, if there is text for one. -/
def putToken (emits : Bool) (handle : RequestHandle) : RequestHandle :=
  if emits then handle.put .token else handle

/-- The callback of `_resolve_admission`. -/
def resolveAdmission (handle : RequestHandle) : RequestHandle :=
  if handle.resolutions = 0 then { handle with resolutions := 1 } else handle

def setTerminal (handle : RequestHandle) : RequestHandle :=
  { handle with terminal := true }

/-- The end of a request that never became active. -/
def refuse (handle : RequestHandle) : RequestHandle :=
  (handle.setTerminal.put .error).resolveAdmission

end RequestHandle

/-- What an engine call comes to. -/
inductive CallResult where
  | returned
  | typeError
  | raised
  deriving DecidableEq, Repr

/-- What one step of the thread meets. -/
structure Reply where
  /-- The engine call of the step. -/
  call : CallResult := .returned
  /-- The second call, which follows a `TypeError` of the first. -/
  retry : CallResult := .returned
  /-- `_refresh_routing_snapshots` raises. -/
  refreshRaises : Bool := false
  /-- The engine drops these sequences and chains of itself. -/
  lostSeqs : List SeqId := []
  lostChains : List Nat := []
  /-- `last_step_token_outputs`. -/
  tokenOutputs : List SeqId := []
  /-- `finished_outputs`, of the sequences the scheduler has. -/
  finishedOutputs : List SeqId := []
  /-- The prompt extends the tokens of its chain. -/
  prefixMatches : Bool := true
  /-- A raising `admit_request` has applied the admission already. -/
  applied : Bool := false
  /-- What follows the engine call of the step raises: setting up the admitted request, or the text of
  a published one. -/
  textRaises : Bool := false
  /-- The text of a finished request raises before the request leaves the table. -/
  finishRaises : Bool := false
  /-- The text holds a stop string. -/
  stops : Bool := false
  /-- There is text for a `token` event. -/
  emits : Bool := false
  deriving DecidableEq, Repr

namespace Reply

/-- `try: call(seq_id, disposition=..) except TypeError: call(seq_id)` raises. -/
def abortRaises (reply : Reply) : Bool :=
  match reply.call with
  | .returned => false
  | .typeError => reply.retry != .returned
  | .raised => true

end Reply

/-! ## The engine -/

/-- A chain record. -/
structure ChainEntry where
  seqId : SeqId
  /-- `ACTIVE`, or `IDLE`. -/
  active : Bool
  deriving DecidableEq, Repr

/-- The sequences and chains of `LLMEngine`. -/
structure EngineState where
  /-- `resolved_prefix_cache_mode == "chain"`. -/
  chainMode : Bool
  /-- `Sequence.counter`. -/
  counter : SeqId := 0
  /-- The sequences of the scheduler. -/
  scheduled : List SeqId := []
  /-- `ChainCacheIndex.records`. -/
  records : Nat → Option ChainEntry := fun _ => none
  /-- `new_chain_id()`. -/
  nextChainId : Nat := 0
  /-- The request admitted last under a sequence id: whose state the engine holds under it. -/
  owner : SeqId → Option RequestId := fun _ => none

namespace EngineState

/-- The engine drops sequences and chains of itself: evicted, pruned or failed ones. -/
def lose (reply : Reply) (engine : EngineState) : EngineState :=
  { engine with
    scheduled := engine.scheduled.filter fun seqId => seqId ∉ reply.lostSeqs
    records := fun chainId => if chainId ∈ reply.lostChains then none else engine.records chainId }

/-- `abort_request`: the sequence leaves the scheduler, and its chain is invalidated. -/
def abortRequest (seqId : SeqId) (engine : EngineState) : EngineState :=
  { engine with
    scheduled := engine.scheduled.erase seqId
    records := fun chainId => (engine.records chainId).filter fun record => record.seqId ≠ seqId }

/-- `discard_chain` finds its record: the chain is there, under the expected sequence id. -/
def discards (chainId : Nat) (seqId : SeqId) (engine : EngineState) : Bool :=
  match engine.records chainId with
  | some record => record.seqId = seqId
  | none => false

/-- `discard_chain`; a record under another sequence id makes it raise. -/
def discardChain (chainId : Nat) (seqId : SeqId) (engine : EngineState) : EngineState :=
  if engine.discards chainId seqId then
    { engine with
      scheduled := engine.scheduled.erase seqId
      records := fun other => if other = chainId then none else engine.records other }
  else engine

/-- Admit a request under a sequence id, on a chain if there is one. -/
def enter (requestId : RequestId) (seqId : SeqId) (chainId : Option Nat) (engine : EngineState) :
    EngineState :=
  { engine with
    scheduled := engine.scheduled ++ [seqId]
    records := fun other =>
      if chainId = some other then some { seqId := seqId, active := true } else engine.records other
    owner := fun other => if other = seqId then some requestId else engine.owner other }

/-- The sequence id and chain that `admit_request` settles on: those of an idle chain the prompt
extends, the sequence id of the chain and a new chain where the prompt does not, or new ones. -/
def placement (chainId : Option Nat) (reply : Reply) (engine : EngineState) :
    Option (SeqId × Option Nat) :=
  match engine.chainMode, chainId with
  | false, none => some (engine.counter, none)
  -- `ChainModeError`
  | false, some _ => none
  | true, none => some (engine.counter, some engine.nextChainId)
  | true, some chain =>
    match engine.records chain with
    -- not found, or gone
    | none => none
    | some record =>
      -- an active chain is busy
      if record.active then none
      else if reply.prefixMatches then some (record.seqId, some chain)
      else some (record.seqId, some engine.nextChainId)

/-- The chain that a mismatch replaces. -/
def replaced (chainId : Option Nat) (reply : Reply) (engine : EngineState) (other : Nat) : Bool :=
  engine.chainMode && chainId == some other && !reply.prefixMatches &&
    (engine.records other).any fun record => !record.active

/-- `admit_request`: the engine after it, and what it returns. The new ids are used up in any case, and
idle chains may be evicted for room. -/
def admitRequest (requestId : RequestId) (chainId : Option Nat) (reply : Reply)
    (engine : EngineState) : EngineState × Option (SeqId × Option Nat) :=
  let kept := { engine.lose { reply with lostSeqs := [] } with
    counter := engine.counter + 1
    nextChainId := engine.nextChainId + 1 }
  let kept := { kept with
    records := fun other => if engine.replaced chainId reply other then none else kept.records other }
  match engine.placement chainId reply with
  | none => (kept, none)
  | some (seqId, chain) =>
    if reply.call = .returned then (kept.enter requestId seqId chain, some (seqId, chain))
    else if reply.applied then (kept.enter requestId seqId chain, none)
    else (kept, none)

/-- What `step` reports as finished: sequences of the scheduler. -/
def finished (reply : Reply) (engine : EngineState) : List SeqId :=
  reply.finishedOutputs.filter fun seqId => seqId ∈ engine.scheduled

/-- `step`: finished sequences leave the scheduler, and their chains become idle. -/
def step (reply : Reply) (engine : EngineState) : EngineState :=
  let engine := engine.lose reply
  { engine with
    scheduled := engine.scheduled.filter fun seqId => seqId ∉ engine.finished reply
    records := fun chainId => (engine.records chainId).map fun record =>
      if record.seqId ∈ engine.finished reply then { record with active := false } else record }

end EngineState

/-! ## The shared state -/

/-- `_AbortRequest`, with the `request_token` and `terminal` flag of its request. -/
structure AbortRequest where
  seqId : SeqId
  chainId : Option Nat
  requestId : RequestId
  force : Bool
  deriving DecidableEq, Repr

/-- What stands in `_pending`. -/
inductive PendingItem where
  | request (requestId : RequestId)
  | wakeup
  /-- `None`. -/
  | stop
  deriving DecidableEq, Repr

/-- A client call, by what it does next. -/
inductive ClientTask where
  /-- `cancel`: reads `terminal`. -/
  | cancel (requestId : RequestId)
  /-- Sets `cancelled`. -/
  | cancelMark (requestId : RequestId)
  /-- Reads `seq_id`. -/
  | cancelRead (requestId : RequestId)
  /-- Puts its abort. -/
  | cancelPut (abort : AbortRequest)
  /-- Puts `_WAKEUP`. -/
  | wake
  /-- `discard`: sets `cancelled`. -/
  | discard (requestId : RequestId)
  /-- Reads `seq_id`. -/
  | discardRead (requestId : RequestId)
  /-- Takes the lock; puts its abort, or raises. -/
  | discardPut (abort : AbortRequest)
  /-- `control`: takes the lock; puts its call, or raises. -/
  | control
  /-- Puts `_WAKEUP` and releases the lock. -/
  | wakeLocked
  /-- `close`: takes the lock; sets `closing`. -/
  | close
  /-- Puts `None` and releases the lock. -/
  | closePut
  /-- `engine.exit()`. -/
  | closeExit
  | returned
  deriving DecidableEq, Repr

/-- Where the thread is in `_admit`. -/
inductive AdmitStage where
  | readCancelled
  | readClosing
  | callEngine
  /-- The engine has admitted the request; `handle.seq_id` is not written. -/
  | writeSeqId (seqId : SeqId)
  | readCancelledAgain (seqId : SeqId)
  /-- The `except` branch. -/
  | failed
  deriving DecidableEq, Repr

/-- Where the thread is in `_run`. -/
inductive Phase where
  /-- `_drain_controls`, before or after the admissions. -/
  | drainControls (admitted : Bool)
  /-- `run_pending_prefix_prune`. -/
  | prune
  /-- `_drain_aborts`, before or after the admissions. -/
  | drainAborts (admitted changed : Bool)
  /-- `_pending.get()`. -/
  | waitPending
  /-- `_pending.get_nowait()`, until it is empty. -/
  | drainPending
  | admitRequest (requestId : RequestId) (stage : AdmitStage)
  /-- The step of the engine, between two refreshes. -/
  | engineStep
  /-- `_publish_token_deltas`; then `_publish_finished`. -/
  | publishTokens (outputs finished : List SeqId)
  | publishFinished (finished : List SeqId)
  /-- A fatal exception on its way to `_mark_failed`. -/
  | failing
  /-- Reads `failure_message`. -/
  | stopped
  /-- `_fail_active_requests`. -/
  | failActive
  /-- `_drain_queued_requests`: the requests, then the controls. -/
  | drainQueued
  | drainQueuedControls
  /-- `_fail_pending_aborts`. -/
  | failAborts
  | ended
  deriving DecidableEq, Repr

/-- The dispatcher and its clients. -/
structure DispatcherState where
  engine : EngineState
  /-- The handles of `submit`, of ids below `nextRequest`. -/
  handles : RequestId → RequestHandle := fun _ => {}
  nextRequest : RequestId := 0
  /-- The `chain_id` a queued request asks for. -/
  wantedChain : RequestId → Option Nat := fun _ => none
  pending : List PendingItem := []
  aborts : List AbortRequest := []
  controls : Nat := 0
  closing : Bool := false
  /-- `_failed_message` is set. -/
  failed : Bool := false
  /-- A client holds `_state_lock`. -/
  locked : Bool := false
  clients : List ClientTask := []
  phase : Phase := .drainControls false
  stopping : Bool := false
  active : Dict SeqId RequestId := ∅
  /-- `_latest_request_tokens`. -/
  latest : Dict SeqId RequestId := ∅
  /-- For each engine state given up: the request it was given up for, and the request it was of. -/
  released : List (RequestId × Option RequestId) := []

namespace DispatcherState

/-- `_terminal_message_locked` is not `None`. -/
def refuses (s : DispatcherState) : Bool :=
  s.failed || s.closing || s.phase == .ended

def onHandle (requestId : RequestId) (f : RequestHandle → RequestHandle) (s : DispatcherState) :
    DispatcherState :=
  { s with handles := fun other =>
      if other = requestId then f (s.handles other) else s.handles other }

/-! ## Clients -/

/-- `submit`: a new handle, queued or refused. -/
def submit (chainId : Option Nat) (s : DispatcherState) : DispatcherState :=
  if s.locked then s
  else
    let requestId := s.nextRequest
    let s := { s with
      nextRequest := requestId + 1
      handles := fun other => if other = requestId then {} else s.handles other
      wantedChain := fun other => if other = requestId then chainId else s.wantedChain other }
    if s.refuses then s.onHandle requestId .refuse
    else { s with pending := s.pending ++ [.request requestId] }

/-- The abort of a request whose `seq_id` is set. -/
def abortOf (requestId : RequestId) (seqId : SeqId) (force : Bool) (s : DispatcherState) :
    AbortRequest where
  seqId := seqId
  chainId := (s.handles requestId).chainId
  requestId := requestId
  force := force

/-- One step of a client call: the state, and what the call does next. -/
def clientStep : ClientTask → DispatcherState → DispatcherState × ClientTask
  | .cancel requestId, s =>
    if (s.handles requestId).terminal then (s, .returned) else (s, .cancelMark requestId)
  | .cancelMark requestId, s =>
    (s.onHandle requestId fun handle => { handle with cancelled := true }, .cancelRead requestId)
  | .cancelRead requestId, s =>
    match (s.handles requestId).seqId with
    | none => (s, .returned)
    | some seqId => (s, .cancelPut (s.abortOf requestId seqId false))
  | .cancelPut abort, s => ({ s with aborts := s.aborts ++ [abort] }, .wake)
  | .wake, s => ({ s with pending := s.pending ++ [.wakeup] }, .returned)
  | .discard requestId, s =>
    (s.onHandle requestId fun handle => { handle with cancelled := true }, .discardRead requestId)
  | .discardRead requestId, s =>
    match (s.handles requestId).seqId with
    | none => (s, .returned)
    | some seqId => (s, .discardPut (s.abortOf requestId seqId true))
  | .discardPut abort, s =>
    if s.locked then (s, .discardPut abort)
    else if s.refuses then (s, .returned)
    else ({ s with aborts := s.aborts ++ [abort], locked := true }, .wakeLocked)
  | .control, s =>
    if s.locked then (s, .control)
    else if s.refuses then (s, .returned)
    else ({ s with controls := s.controls + 1, locked := true }, .wakeLocked)
  | .wakeLocked, s => ({ s with pending := s.pending ++ [.wakeup], locked := false }, .returned)
  | .close, s =>
    if s.locked then (s, .close)
    else if s.closing then (s, .closeExit)
    else ({ s with closing := true, locked := true }, .closePut)
  | .closePut, s => ({ s with pending := s.pending ++ [.stop], locked := false }, .closeExit)
  | .closeExit, s =>
    ({ s with engine := { s.engine with scheduled := [], records := fun _ => none } }, .returned)
  | .returned, s => (s, .returned)

/-- The calls a client can start; a handle is known once `submit` has returned it. -/
def starts (s : DispatcherState) : ClientTask → Bool
  | .cancel requestId | .discard requestId => requestId < s.nextRequest
  | .control | .close => true
  | _ => false

/-! ## The thread -/

/-- The engine call `abort_request` for a request, and its retry after a `TypeError`. A raising call
may have done its work or not: `applied` says. -/
def abortEngine (requestId : RequestId) (seqId : SeqId) (reply : Reply) (s : DispatcherState) :
    DispatcherState :=
  { s with
    engine := if reply.abortRaises && !reply.applied then s.engine
      else s.engine.abortRequest seqId
    released := s.released ++ [(requestId, s.engine.owner seqId)] }

/-- `_mark_request_terminal`. -/
def markRequestTerminal (requestId : RequestId) (seqId : SeqId) (s : DispatcherState) :
    DispatcherState :=
  let s := s.onHandle requestId .setTerminal
  if s.latest.get? seqId = some requestId then { s with latest := s.latest.pop seqId } else s

def goto (phase : Phase) (s : DispatcherState) : DispatcherState :=
  { s with phase := phase }

/-- `while not stopping`. -/
def nextIteration (s : DispatcherState) : DispatcherState :=
  s.goto (if s.stopping then .stopped else .drainControls false)

/-- One control call of `_drain_controls`. -/
def drainControl (admitted : Bool) (reply : Reply) (s : DispatcherState) : DispatcherState :=
  if s.controls = 0 then s.goto (if admitted then .drainAborts true false else .prune)
  else
    let s := { s with controls := s.controls - 1 }
    if s.closing || s.failed then s
    else
      let s := { s with engine := s.engine.lose reply }
      if reply.call = .returned && reply.refreshRaises then s.goto .failing else s

/-- `run_pending_prefix_prune`. -/
def prune (reply : Reply) (s : DispatcherState) : DispatcherState :=
  let s := { s with engine := s.engine.lose reply }
  if reply.call = .returned then s.goto (.drainAborts false false) else s.goto .failing

/-- What follows `_drain_aborts`. -/
def abortsDrained (admitted changed : Bool) (reply : Reply) (s : DispatcherState) :
    DispatcherState :=
  if changed && reply.refreshRaises then s.goto .failing
  else
    match admitted, s.active.values with
    | false, [] => s.goto .waitPending
    | false, _ :: _ => s.goto .drainPending
    | true, [] => if reply.refreshRaises then s.goto .failing else s.nextIteration
    | true, _ :: _ => if reply.refreshRaises then s.goto .failing else s.goto .engineStep

/-- The abort is of a request that ended, and not forced. -/
def stale (abort : AbortRequest) (s : DispatcherState) : Bool :=
  (s.handles abort.requestId).terminal && !abort.force

/-- A later request has the sequence id. -/
def overtaken (abort : AbortRequest) (s : DispatcherState) : Bool :=
  match s.latest.get? abort.seqId with
  | some latest => latest != abort.requestId
  | none => false

/-- One abort of `_drain_aborts`. -/
def drainAbort (admitted changed : Bool) (reply : Reply) (s : DispatcherState) : DispatcherState :=
  match s.aborts with
  | [] => s.abortsDrained admitted changed reply
  | abort :: aborts =>
    let s := { s with aborts := aborts }
    if s.stale abort then s
    else if s.overtaken abort then s.onHandle abort.requestId .setTerminal
    else
      match s.active.get? abort.seqId with
      | some requestId =>
        if requestId ≠ abort.requestId then s.onHandle abort.requestId .setTerminal
        else
          let s := s.abortEngine abort.requestId abort.seqId reply
          if reply.abortRaises then s.goto .failing
          else
            ({ s with active := s.active.pop abort.seqId }.markRequestTerminal requestId
              abort.seqId).goto (.drainAborts admitted true)
      | none =>
        if abort.force then
          match abort.chainId with
          | none => s
          | some chainId =>
            if reply.call = .returned then
              if s.engine.discards chainId abort.seqId then
                { s with
                  engine := s.engine.discardChain chainId abort.seqId
                  released := s.released ++ [(abort.requestId, s.engine.owner abort.seqId)]
                  phase := .drainAborts admitted true }
              else s
            else s
        else
          let s := s.abortEngine abort.requestId abort.seqId reply
          if reply.abortRaises then s.goto .failing
          else (s.markRequestTerminal abort.requestId abort.seqId).goto (.drainAborts admitted true)

/-- The blocking `get`. -/
def waitPending (s : DispatcherState) : DispatcherState :=
  match s.pending with
  | [] => s
  | .stop :: pending => { s with pending := pending, phase := .stopped }
  | .wakeup :: pending => { s with pending := pending }.nextIteration
  | .request requestId :: pending =>
    { s with pending := pending, phase := .admitRequest requestId .readCancelled }

/-- The loop of `get_nowait`. -/
def drainPending (s : DispatcherState) : DispatcherState :=
  match s.pending with
  | [] => s.goto (.drainControls true)
  | .stop :: pending => { s with pending := pending, stopping := true }
  | .wakeup :: pending => { s with pending := pending }
  | .request requestId :: pending =>
    { s with pending := pending, phase := .admitRequest requestId .readCancelled }

/-- The end of `_admit` for a cancelled request. -/
def admitCancelled (requestId : RequestId) (s : DispatcherState) : DispatcherState :=
  (s.onHandle requestId fun handle => handle.setTerminal.resolveAdmission).goto .drainPending

/-- The `except` branch of `_admit`: an exception of the second `abort_request` leaves it. -/
def admitFailed (requestId : RequestId) (reply : Reply) (s : DispatcherState) : DispatcherState :=
  match (s.handles requestId).seqId with
  | none => (s.onHandle requestId .refuse).goto .drainPending
  | some seqId =>
    let s := s.abortEngine requestId seqId reply
    if reply.call = .typeError && reply.retry != .returned then s.goto .failing
    else
      ((s.markRequestTerminal requestId seqId).onHandle requestId .refuse).goto .drainPending

/-- One step of `_admit`. -/
def admitRequest (requestId : RequestId) (reply : Reply) (s : DispatcherState) :
    AdmitStage → DispatcherState
  | .readCancelled =>
    if (s.handles requestId).cancelled then s.admitCancelled requestId
    else s.goto (.admitRequest requestId .readClosing)
  | .readClosing =>
    if s.closing || s.failed then (s.onHandle requestId .refuse).goto .drainPending
    else s.goto (.admitRequest requestId .callEngine)
  | .callEngine =>
    match s.engine.admitRequest requestId (s.wantedChain requestId) reply with
    | (engine, none) => { s with engine := engine, phase := .admitRequest requestId .failed }
    | (engine, some (seqId, chainId)) =>
      { s with engine := engine, phase := .admitRequest requestId (.writeSeqId seqId) }.onHandle requestId
        fun handle => { handle with chainId := chainId }
  | .writeSeqId seqId =>
    (s.onHandle requestId fun handle => { handle with seqId := some seqId }).goto
      (.admitRequest requestId (.readCancelledAgain seqId))
  | .readCancelledAgain seqId =>
    if (s.handles requestId).cancelled then
      let s := s.abortEngine requestId seqId reply
      if reply.call = .returned then s.admitCancelled requestId
      else s.goto (.admitRequest requestId .failed)
    else if reply.textRaises then s.goto (.admitRequest requestId .failed)
    else
      ({ s with
        active := s.active.set seqId requestId
        latest := s.latest.set seqId requestId }.onHandle requestId .resolveAdmission).goto
          .drainPending
  | .failed => s.admitFailed requestId reply

/-- The refresh, the step of the engine and the refresh after it. -/
def engineStep (reply : Reply) (s : DispatcherState) : DispatcherState :=
  let t := { s with engine := s.engine.step reply }
  if reply.call = .returned && !reply.refreshRaises then
    t.goto (.publishTokens reply.tokenOutputs ((s.engine.lose reply).finished reply))
  else t.goto .failing

/-- The tokens of one sequence in `_publish_token_deltas`. A stop string aborts the sequence in the
engine, before the last exceptions and before the request leaves the table. -/
def publishTokenDelta (seqId : SeqId) (outputs finished : List SeqId) (reply : Reply)
    (s : DispatcherState) : DispatcherState :=
  let s := s.goto (.publishTokens outputs finished)
  match s.active.get? seqId with
  | none => s
  | some requestId =>
    if reply.finishRaises then s.goto .failing
    else if reply.stops then
      let s := s.abortEngine requestId seqId reply
      if reply.abortRaises || reply.refreshRaises then s.goto .failing
      else
        let s := s.onHandle requestId (.putToken reply.emits)
        if reply.textRaises then s.goto .failing
        else
          ({ s with active := s.active.pop seqId }.markRequestTerminal requestId seqId).onHandle
            requestId (.put .final)
    else s.onHandle requestId (.putToken reply.emits)

/-- One request of `_publish_finished`: it leaves the table, and then its text, the abort of its chain
at a stop string and the refresh may raise. -/
def publishFinish (seqId : SeqId) (finished : List SeqId) (reply : Reply) (s : DispatcherState) :
    DispatcherState :=
  let s := s.goto (.publishFinished finished)
  match s.active.get? seqId with
  | none => s
  | some requestId =>
    if reply.finishRaises then s.goto .failing
    else
      let s := { s with active := s.active.pop seqId }
      if reply.textRaises then s.goto .failing
      else
        let aborts := reply.stops && (s.handles requestId).chainId.isSome
        let s := if aborts then s.abortEngine requestId seqId reply else s
        if aborts && (reply.abortRaises || reply.refreshRaises) then s.goto .failing
        else
          ((s.onHandle requestId (.putToken reply.emits)).markRequestTerminal requestId
            seqId).onHandle requestId (.put .final)

/-- One request of `_fail_active_requests`, oldest first; an exception of the engine is logged. -/
def failActive (reply : Reply) (s : DispatcherState) : DispatcherState :=
  match s.active.entries.getLast? with
  | none => s.goto .drainQueued
  | some ⟨seqId, requestId⟩ =>
    (({ s with active := s.active.pop seqId }.markRequestTerminal requestId seqId).onHandle requestId
      (.put .error)).abortEngine requestId seqId reply

/-- One item of `_drain_queued_requests`. -/
def drainQueued (s : DispatcherState) : DispatcherState :=
  match s.pending with
  | [] => s.goto .drainQueuedControls
  | .request requestId :: pending => { s with pending := pending }.onHandle requestId .refuse
  | _ :: pending => { s with pending := pending }

/-- One abort of `_fail_pending_aborts`. -/
def failAbort (s : DispatcherState) : DispatcherState :=
  match s.aborts with
  | [] => s.goto .ended
  | abort :: aborts => { s with aborts := aborts }.onHandle abort.requestId .setTerminal

/-- One step of the thread. -/
def threadStep (reply : Reply) (s : DispatcherState) : DispatcherState :=
  match s.phase with
  | .drainControls admitted => s.drainControl admitted reply
  | .prune => s.prune reply
  | .drainAborts admitted changed => s.drainAbort admitted changed reply
  | .waitPending => s.waitPending
  | .drainPending => s.drainPending
  | .admitRequest requestId stage => s.admitRequest requestId reply stage
  | .engineStep => s.engineStep reply
  | .publishTokens [] finished => s.goto (.publishFinished finished)
  | .publishTokens (seqId :: outputs) finished =>
    s.publishTokenDelta seqId outputs finished reply
  | .publishFinished [] => s.nextIteration
  | .publishFinished (seqId :: finished) => s.publishFinish seqId finished reply
  -- `_mark_failed` and `failure_message` take the lock
  | .failing => if s.locked then s else { s with failed := true, phase := .stopped }
  | .stopped => if s.locked then s else s.goto .failActive
  | .failActive => s.failActive reply
  | .drainQueued => s.drainQueued
  | .drainQueuedControls =>
    if s.controls = 0 then s.goto .failAborts else { s with controls := s.controls - 1 }
  | .failAborts => s.failAbort
  | .ended => s

/-- A step of the system. -/
inductive Op where
  | submit (chainId : Option Nat)
  /-- A client calls. -/
  | start (task : ClientTask)
  /-- A client call takes its next step. -/
  | client (index : Nat)
  | thread (reply : Reply)
  deriving DecidableEq, Repr

def exec : Op → DispatcherState → DispatcherState
  | .submit chainId, s => s.submit chainId
  | .start task, s => if s.starts task then { s with clients := s.clients ++ [task] } else s
  | .client index, s =>
    match s.clients[index]? with
    | none => s
    | some task =>
      let (t, task) := s.clientStep task
      { t with clients := t.clients.set index task }
  | .thread reply, s => s.threadStep reply

/-- The dispatcher as its constructor leaves it. -/
def initial (chainMode : Bool) : DispatcherState where
  engine := { chainMode := chainMode }

end DispatcherState

end SparseVllm.Dispatcher
