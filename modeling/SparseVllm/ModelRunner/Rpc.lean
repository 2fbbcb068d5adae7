import SparseVllm.Lib.Run

/-!
# Tensor-parallel RPCs (`engine/model_runner.py`)

Rank 0 and its workers as processes over the shared command buffer, the command and completion events
and status bytes of each worker, and the collectives of the world group. A process makes one atomic
step at a time (`TpState.step`): its effect on the shared state, and its next phase. A process group
pairs collectives in the order in which each rank enters them: a rank waits in its last one until every
rank has entered as many. Where the ranks enter the same collectives, that is until all are in it.

The body of a method is the number of collectives it enters and, for every rank, whether and after how
many of them it raises. Left out: the timeouts, the single-process case of an uninitialised process
group, and a command that is larger than the buffer, which raises before anything is written.
-/

namespace SparseVllm

/-- The methods of the RPC method sets, and the others. -/
inductive RpcMethod where
  | prefixCacheInspect
  | prefixCacheMatch
  | prefixCacheDeleteSubtree
  | prefixCacheSetEvictionPriority
  | prefixCachePrune
  | beginDecodeCudaGraphCapture
  | captureDecodeCudaGraphWarmup
  | collectDecodeCudaGraphMetadata
  | exchangeDecodeCudaGraphMetadata
  | registerDecodeCudaGraphBuffers
  | sealDecodeCudaGraphStartupPlan
  | beginStartupMemoryProfile
  | buildProductionCacheRuntime
  | captureStartupMemorySnapshot
  | finishStartupMemoryProfile
  | releaseProfilingCacheRuntime
  | resolveStartupDecodeGraphPlan
  | chainAdmissionPlan
  | chainApplyAdmission
  | chainFinish
  | chainInvalidate
  | chainValidateAdmissionPlan
  | finishSlotsBatch
  | freeMultimodal
  | freeSlots
  | freeSlotsBatch
  | registerMultimodalShared
  | debugHiddenStatesCpu
  | debugMoeStatesCpu
  | logOperatorImplementations
  | refreshPrefixCacheHit
  | resetAfterWarmup
  | run
  | warmupMoeWorkspace
  | exit
  | other
  deriving DecidableEq, Repr

namespace RpcMethod

/-- `PREFIX_CACHE_CONTROL_RPC_METHODS`. -/
def prefixCacheControl : List RpcMethod :=
  [.prefixCacheInspect, .prefixCacheMatch, .prefixCacheDeleteSubtree,
    .prefixCacheSetEvictionPriority, .prefixCachePrune]

/-- `DECODE_GRAPH_HOST_STATUS_SYNC_METHODS`. -/
def decodeGraphHostStatusSync : List RpcMethod :=
  [.beginDecodeCudaGraphCapture, .captureDecodeCudaGraphWarmup, .collectDecodeCudaGraphMetadata,
    .exchangeDecodeCudaGraphMetadata, .registerDecodeCudaGraphBuffers,
    .sealDecodeCudaGraphStartupPlan]

/-- `STARTUP_HOST_STATUS_SYNC_METHODS`. -/
def startupHostStatusSync : List RpcMethod :=
  [.beginStartupMemoryProfile, .buildProductionCacheRuntime, .captureStartupMemorySnapshot,
    .finishStartupMemoryProfile, .releaseProfilingCacheRuntime, .resolveStartupDecodeGraphPlan]

/-- `RECOVERABLE_TP_CONTROL_RPC_METHODS`. -/
def recoverableTpControl : List RpcMethod :=
  prefixCacheControl ++ [.chainValidateAdmissionPlan, .finishSlotsBatch, .freeMultimodal, .freeSlots,
    .freeSlotsBatch, .registerMultimodalShared] ++ decodeGraphHostStatusSync ++ startupHostStatusSync

/-- `TP_RPC_STATUS_SYNC_METHODS`. -/
def tpRpcStatusSync : List RpcMethod :=
  prefixCacheControl ++ [.chainAdmissionPlan, .chainApplyAdmission, .chainFinish, .chainInvalidate,
    .chainValidateAdmissionPlan, .debugHiddenStatesCpu, .debugMoeStatesCpu, .freeSlots,
    .freeSlotsBatch, .finishSlotsBatch, .freeMultimodal, .logOperatorImplementations,
    .refreshPrefixCacheHit, .resetAfterWarmup, .run, .registerMultimodalShared,
    .warmupMoeWorkspace] ++ decodeGraphHostStatusSync ++ startupHostStatusSync

/-- The methods whose results are compared: `refresh_prefix_cache_hit` and the names that start with
`chain_`. -/
def resultSync : List RpcMethod :=
  [.refreshPrefixCacheHit, .chainAdmissionPlan, .chainApplyAdmission, .chainFinish, .chainInvalidate,
    .chainValidateAdmissionPlan]

end RpcMethod

/-- How `call` learns the status of the other ranks. -/
inductive StatusSync where
  | unsynchronized
  /-- `_sync_tp_host_status`. -/
  | host
  /-- `_sync_tp_rpc_status`. -/
  | rpc
  deriving DecidableEq, Repr

structure TpConfig where
  worldSize : Nat
  decodeGraph : Bool
  world_pos : 0 < worldSize

/-- The choice `call` makes by the name of the method. -/
def statusSync (cfg : TpConfig) (method : RpcMethod) : StatusSync :=
  if method ∉ RpcMethod.tpRpcStatusSync then .unsynchronized
  else if method = .run ∧ cfg.decodeGraph = true then .host
  else if method ∈ RpcMethod.decodeGraphHostStatusSync ++ RpcMethod.startupHostStatusSync then .host
  else .rpc

/-- A call of rank 0, and what becomes of it on every rank. -/
structure RpcCall where
  method : RpcMethod
  /-- The collectives that the body enters when it does not raise. -/
  collectives : Nat
  /-- Where the body raises on a rank: after how many collectives. -/
  raisesAfter : Nat → Option Nat
  /-- `_synchronize_tp_run_stream` raises on a rank. -/
  streamFails : Nat → Bool
  /-- What the body or the stream raises on a rank is no `Exception` (`KeyboardInterrupt`). -/
  interrupts : Nat → Bool
  /-- What the body returns on a rank. -/
  result : Nat → Nat

namespace RpcCall

/-- `local_error is not None`. -/
def localError (call : RpcCall) (rank : Nat) : Bool :=
  (call.raisesAfter rank).isSome

/-- The collectives that the body enters on a rank. -/
def bodyEnters (call : RpcCall) (rank : Nat) : Nat :=
  match call.raisesAfter rank with
  | none => call.collectives
  | some entered => min entered call.collectives

/-- `local_error is not None or sync_error is not None`, in `_sync_tp_host_status`. -/
def hostError (call : RpcCall) (rank : Nat) : Bool :=
  call.localError rank || call.streamFails rank

/-- A rank fails by itself: its body raises, or the stream that the host status waits for. -/
def fails (cfg : TpConfig) (call : RpcCall) (rank : Nat) : Bool :=
  if statusSync cfg call.method = .host ∧ 1 < cfg.worldSize then call.hostError rank
  else call.localError rank

/-- What the rank raises of its own is not caught as an `Exception`. -/
def escapes (cfg : TpConfig) (call : RpcCall) (rank : Nat) : Bool :=
  call.fails cfg rank && call.interrupts rank

end RpcCall

/-- The calls of rank 0; the engine drops the runner after `exit`. -/
structure RpcCalls where
  calls : List RpcCall
  exit_last : ∀ n call, calls[n]? = some call → call.method = .exit → n + 1 = calls.length

/-- The collectives of the world group, by the call that enters them. -/
inductive Collective where
  | body (call index : Nat)
  | status (call : Nat)
  | result (call : Nat)
  deriving DecidableEq, Repr

/-- A status byte: `TP_RUN_STATUS_*`. -/
inductive RunStatus where
  | pending
  | success
  | failed
  deriving DecidableEq, Repr

/-- A status byte with the call a worker wrote it for, which no process reads. -/
structure StatusByte where
  value : RunStatus := .pending
  writtenFor : Option Nat := none
  deriving DecidableEq, Repr

/-- Where a process stands: in the call of that number, or before it. -/
inductive TpPhase where
  /-- Rank 0, before `call`. -/
  | ready (n : Nat)
  /-- The loop of `write_shm` over the workers. -/
  | clearing (n worker : Nat)
  | pending (n worker : Nat)
  | commanding (n worker : Nat)
  /-- The wait for the workers to read. -/
  | acking (n worker : Nat)
  /-- A worker in `command_event.wait`; it has read `n` commands. -/
  | idle (n : Nat)
  | woken (n : Nat)
  /-- The command is loaded, and not cleared. -/
  | loaded (n : Nat)
  /-- The body has left `entered` collectives. -/
  | body (n entered : Nat)
  | inBody (n index : Nat)
  /-- The body is over. -/
  | syncing (n : Nat)
  /-- A worker has written its status byte. -/
  | flagged (n : Nat)
  /-- The loop of `_sync_tp_host_status` over the workers. -/
  | collecting (n worker : Nat) (failedRanks : Bool)
  | reading (n worker : Nat) (failedRanks : Bool)
  | taken (n worker : Nat) (failedRanks : Bool) (status : RunStatus)
  | inStatus (n : Nat)
  | gathering (n : Nat)
  | inResult (n : Nat)
  | returned (n : Nat) (raised : Bool)
  /-- The process of a worker has ended, after `n` commands. -/
  | gone (n : Nat)
  deriving DecidableEq, Repr

/-- What a step does to the shared state. -/
inductive TpEffect where
  | quiet
  | writeCommand (n : Nat)
  | clearCompletion (worker : Nat)
  | setPending (worker : Nat)
  | setCommand (worker : Nat)
  | clearCommand (worker : Nat)
  | setStatus (worker : Nat) (byte : StatusByte)
  | setCompletion (worker : Nat)
  | enter (collective : Collective) (value : Nat)
  | finish (raised : Bool)

/-- The shared state and the processes. `entered` and `outcomes` are histories: the collectives each
rank has entered, with what it brought, and for every call whether it raised. -/
structure TpState where
  buffer : Option Nat := none
  commandEvent : Nat → Bool := fun _ => false
  completionEvent : Nat → Bool := fun _ => false
  runStatus : Nat → StatusByte := fun _ => {}
  phase : Nat → TpPhase := fun rank => if rank = 0 then .ready 0 else .idle 0
  entered : Nat → List (Collective × Nat) := fun _ => []
  outcomes : Nat → List Bool := fun _ => []

section Steps

variable (cfg : TpConfig) (s : TpState)

/-! ## Collectives -/

/-- What the ranks brought to the collective a rank has entered last, once every rank has entered as
many. -/
def gathered (rank : Nat) : Option (List Nat) :=
  let index := (s.entered rank).length - 1
  if (List.range cfg.worldSize).all fun other => index < (s.entered other).length then
    some ((List.range cfg.worldSize).map fun other => (s.entered other)[index]?.elim 0 Prod.snd)
  else none

/-- `world_all_reduce` with `ReduceOp.MAX`. -/
def worldAllReduceMax (rank : Nat) : Option Nat :=
  (gathered cfg s rank).map fun values => values.foldr max 0

/-! ## One step of a process -/

/-- `write_shm`. -/
def writeShm (call : RpcCall) : TpPhase → Option (TpEffect × TpPhase)
  | .clearing n worker =>
    if worker < cfg.worldSize then some (.clearCompletion worker, .pending n worker)
    else if statusSync cfg call.method = .unsynchronized then some (.quiet, .acking n 1)
    else some (.quiet, .body n 0)
  | .pending n worker => some (.setPending worker, .commanding n worker)
  | .commanding n worker => some (.setCommand worker, .clearing n (worker + 1))
  | .acking n worker =>
    if worker < cfg.worldSize then
      if s.commandEvent worker then none else some (.quiet, .acking n (worker + 1))
    else some (.quiet, .body n 0)
  | _ => none

/-- `read_shm`. -/
def readShm (rank : Nat) : TpPhase → Option (TpEffect × TpPhase)
  | .idle n => if s.commandEvent rank then some (.quiet, .woken n) else none
  | .woken _ => s.buffer.map fun n => (.quiet, .loaded n)
  | .loaded n => some (.clearCommand rank, .body n 0)
  | _ => none

/-- The body of the method. -/
def runBody (call : RpcCall) (rank : Nat) : TpPhase → Option (TpEffect × TpPhase)
  | .body n entered =>
    if entered < call.bodyEnters rank then some (.enter (.body n entered) 0, .inBody n entered)
    else if statusSync cfg call.method = .unsynchronized then
      some (.quiet, .returned n (call.localError rank))
    else some (.quiet, .syncing n)
  | .inBody n index =>
    (gathered cfg s rank).map fun _ => (.quiet, .body n (index + 1))
  | _ => none

/-- `call` past the status synchronization. -/
def afterStatus (call : RpcCall) (rank n : Nat) : TpPhase :=
  if call.localError rank then .returned n true
  else if call.method ∈ RpcMethod.resultSync then .gathering n
  else .returned n false

/-- `_sync_tp_host_status`. -/
def syncTpHostStatus (call : RpcCall) (rank : Nat) : TpPhase → Option (TpEffect × TpPhase)
  | .syncing n =>
    if cfg.worldSize ≤ 1 then some (.quiet, afterStatus call rank n)
    else if 0 < rank then
      some (.setStatus rank ⟨if call.hostError rank then .failed else .success, some n⟩, .flagged n)
    else some (.quiet, .collecting n 1 false)
  | .flagged n => some (.setCompletion rank, .returned n (call.hostError rank))
  | .collecting n worker failedRanks =>
    if worker < cfg.worldSize then
      if s.completionEvent worker then some (.quiet, .reading n worker failedRanks) else none
    else some (.quiet, .returned n (call.hostError rank || failedRanks))
  | .reading n worker failedRanks =>
    some (.quiet, .taken n worker failedRanks (s.runStatus worker).value)
  | .taken n worker failedRanks status =>
    some (.clearCompletion worker, match status with
      | .failed => .collecting n (worker + 1) true
      | .success => .collecting n (worker + 1) failedRanks
      | .pending => .returned n true)
  | _ => none

/-- `_sync_tp_rpc_status`. -/
def syncTpRpcStatus (call : RpcCall) (rank : Nat) : TpPhase → Option (TpEffect × TpPhase)
  | .syncing n =>
    if cfg.worldSize ≤ 1 then some (.quiet, afterStatus call rank n)
    else some (.enter (.status n) (if call.localError rank then 1 else 0), .inStatus n)
  | .inStatus n => (worldAllReduceMax cfg s rank).map fun failed =>
    (.quiet, if failed ≠ 0 then .returned n true else afterStatus call rank n)
  | _ => none

/-- `_sync_prefix_cache_lookup_result` and `_sync_chain_cache_result`. -/
def syncResult (call : RpcCall) (rank : Nat) : TpPhase → Option (TpEffect × TpPhase)
  | .gathering n =>
    if cfg.worldSize ≤ 1 then some (.quiet, .returned n false)
    else some (.enter (.result n) (call.result rank), .inResult n)
  | .inResult n => (gathered cfg s rank).map fun results =>
    (.quiet, .returned n (results.tail.any fun result => some result != results.head?))
  | _ => none

/-- The end of a call: rank 0 goes on, a worker is back in `loop`, which catches an `Exception` of a
recoverable method. -/
def endCall (call : RpcCall) (rank n : Nat) (raised : Bool) : TpEffect × TpPhase :=
  (.finish raised,
    if rank = 0 then .ready (n + 1)
    else if raised = true ∧ (call.method ∉ RpcMethod.recoverableTpControl ∨
      call.escapes cfg rank = true) then .gone (n + 1)
    else if call.method = .exit then .gone (n + 1)
    else .idle (n + 1))

/-- What a process does next in the call of its phase, if it can move. -/
def stepInCall (call : RpcCall) (rank : Nat) (phase : TpPhase) : Option (TpEffect × TpPhase) :=
  match phase with
  | .ready n =>
    if cfg.worldSize ≤ 1 then some (.quiet, .body n 0) else some (.writeCommand n, .clearing n 1)
  | .clearing .. | .pending .. | .commanding .. | .acking .. => writeShm cfg s call phase
  | .body .. | .inBody .. => runBody cfg s call rank phase
  | .syncing .. =>
    if statusSync cfg call.method = .host then syncTpHostStatus cfg s call rank phase
    else syncTpRpcStatus cfg s call rank phase
  | .flagged .. | .collecting .. | .reading .. | .taken .. => syncTpHostStatus cfg s call rank phase
  | .inStatus .. => syncTpRpcStatus cfg s call rank phase
  | .gathering .. | .inResult .. => syncResult cfg s call rank phase
  | .returned n raised => some (endCall cfg call rank n raised)
  | _ => none

end Steps

namespace TpPhase

/-- The number of the call. -/
def call : TpPhase → Nat
  | .ready n | .clearing n _ | .pending n _ | .commanding n _ | .acking n _ | .idle n | .woken n
  | .loaded n | .body n _ | .inBody n _ | .syncing n | .flagged n | .collecting n _ _
  | .reading n _ _ | .taken n _ _ _ | .inStatus n | .gathering n | .inResult n | .returned n _
  | .gone n => n

end TpPhase

namespace TpState

/-- What a process does next, if it can move. -/
def next (cfg : TpConfig) (calls : List RpcCall) (s : TpState) (rank : Nat) :
    Option (TpEffect × TpPhase) :=
  match s.phase rank with
  | .idle n => readShm s rank (.idle n)
  | .woken n => readShm s rank (.woken n)
  | .loaded n => readShm s rank (.loaded n)
  | phase => calls[phase.call]?.bind fun call => stepInCall cfg s call rank phase

/-- The step of a process. -/
def apply (s : TpState) (rank : Nat) (effect : TpEffect) (phase : TpPhase) : TpState :=
  let s := { s with phase := Function.update s.phase rank phase }
  match effect with
  | .quiet => s
  | .writeCommand n => { s with buffer := some n }
  | .clearCompletion w => { s with completionEvent := Function.update s.completionEvent w false }
  | .setPending w => { s with runStatus := Function.update s.runStatus w {} }
  | .setCommand w => { s with commandEvent := Function.update s.commandEvent w true }
  | .clearCommand w => { s with commandEvent := Function.update s.commandEvent w false }
  | .setStatus w byte => { s with runStatus := Function.update s.runStatus w byte }
  | .setCompletion w => { s with completionEvent := Function.update s.completionEvent w true }
  | .enter c value =>
    { s with entered := Function.update s.entered rank (s.entered rank ++ [(c, value)]) }
  | .finish raised =>
    { s with outcomes := Function.update s.outcomes rank (s.outcomes rank ++ [raised]) }

/-- One step of one process. -/
def step (cfg : TpConfig) (calls : List RpcCall) (s : TpState) (rank : Nat) : Option TpState :=
  (s.next cfg calls rank).map fun out => s.apply rank out.1 out.2

/-- The processes that can take a step. -/
def Steps (cfg : TpConfig) (calls : RpcCalls) (s : TpState) (rank : Nat) (t : TpState) : Prop :=
  rank < cfg.worldSize ∧ s.step cfg calls.calls rank = some t

/-- The states of the runs: any interleaving of the processes. -/
def Reachable (cfg : TpConfig) (calls : RpcCalls) (s : TpState) : Prop :=
  ∃ ranks, Lib.Trace (Steps cfg calls) {} ranks s

/-- No process can move. -/
def Stuck (cfg : TpConfig) (calls : RpcCalls) (s : TpState) : Prop :=
  ∀ rank < cfg.worldSize, s.step cfg calls.calls rank = none

end TpState

end SparseVllm
