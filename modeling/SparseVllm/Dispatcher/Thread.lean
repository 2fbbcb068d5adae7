import SparseVllm.Dispatcher.Requests

/-!
# What a step of the dispatcher leaves alone

The clients and the thread share queues, flags and handles. `Frame` says what a step of the thread does
to those: the flags and marks of the clients stay, queues only get shorter, and the thread stops after a
`None` only. `Quiet` is for the steps that admit nothing: the engine only loses chains, and requests only
leave the table of active ones.
-/

namespace SparseVllm.Dispatcher

open SparseVllm.Lib

/-- The finished sequences whose requests have not left the table yet. -/
def Phase.unpublished : Phase → List SeqId
  | .publishTokens _ finished => finished
  | .publishFinished finished => finished
  | _ => []

/-- The thread is in its loop. -/
def Phase.running : Phase → Bool
  | .failing | .stopped | .failActive | .drainQueued | .drainQueuedControls | .failAborts | .ended => false
  | _ => true

/-- The sequence id of a request that the engine has admitted and that is not active yet. -/
def Phase.entering : Phase → Option SeqId
  | .admitRequest _ (.writeSeqId seqId) => some seqId
  | .admitRequest _ (.readCancelledAgain seqId) => some seqId
  | _ => none

/-- How far the thread is on its way to its end. -/
def Phase.late : Phase → Nat
  | .stopped | .failActive => 1
  | .drainQueued => 2
  | .drainQueuedControls | .failAborts | .ended => 3
  | _ => 0

/-- The request in `_admit`. -/
def Phase.admitting : Phase → List RequestId
  | .admitRequest requestId _ => [requestId]
  | _ => []

namespace RequestHandle

/-- What no step but `writeSeqId` and those of the clients changes. -/
structure Kept (handle handle' : RequestHandle) : Prop where
  cancelled : handle'.cancelled = handle.cancelled
  seqId : handle'.seqId = handle.seqId
  terminal : handle.terminal = true → handle'.terminal = true

theorem kept_put (event : OutputEvent) (handle : RequestHandle) : Kept handle (handle.put event) :=
  ⟨rfl, rfl, fun h => h⟩

theorem kept_putToken (emits : Bool) (handle : RequestHandle) :
    Kept handle (handle.putToken emits) := by
  unfold putToken
  split <;> exact ⟨rfl, rfl, fun h => h⟩

theorem Kept.trans {handle handle' handle'' : RequestHandle} (h : Kept handle handle')
    (h' : Kept handle' handle'') : Kept handle handle'' :=
  ⟨h'.cancelled.trans h.cancelled, h'.seqId.trans h.seqId, fun ht => h'.terminal (h.terminal ht)⟩

theorem kept_setTerminal (handle : RequestHandle) : Kept handle handle.setTerminal :=
  ⟨rfl, rfl, fun _ => rfl⟩

theorem kept_resolveAdmission (handle : RequestHandle) : Kept handle handle.resolveAdmission := by
  unfold resolveAdmission
  split <;> exact ⟨rfl, rfl, fun h => h⟩

theorem kept_refuse (handle : RequestHandle) : Kept handle handle.refuse :=
  ((kept_setTerminal handle).trans (kept_put .error _)).trans (kept_resolveAdmission _)

end RequestHandle

namespace EngineState

variable {engine engine' : EngineState}

/-- Chains are lost, and sequence ids used up; nothing is admitted. -/
structure Shrinks (engine engine' : EngineState) : Prop where
  counter : engine.counter ≤ engine'.counter
  owner : engine'.owner = engine.owner
  records : ∀ {chainId record}, engine'.records chainId = some record →
    engine.records chainId = some record

theorem Shrinks.refl (engine : EngineState) : Shrinks engine engine := ⟨Nat.le_refl _, rfl, fun h => h⟩

theorem Shrinks.trans {engine'' : EngineState} (h : Shrinks engine engine')
    (h' : Shrinks engine' engine'') : Shrinks engine engine'' :=
  ⟨Nat.le_trans h.counter h'.counter, h'.owner.trans h.owner, fun hc => h.records (h'.records hc)⟩

theorem shrinks_lose (reply : Reply) (engine : EngineState) : Shrinks engine (engine.lose reply) := by
  refine ⟨Nat.le_refl _, rfl, fun {chainId record} h => ?_⟩
  unfold lose at h
  dsimp only at h
  split at h
  · cases h
  · exact h

/-- What `admit_request` leaves before it enters the request. -/
def kept (chainId : Option Nat) (reply : Reply) (engine : EngineState) : EngineState :=
  let kept := { engine.lose { reply with lostSeqs := [] } with
    counter := engine.counter + 1
    nextChainId := engine.nextChainId + 1 }
  { kept with
    records := fun other => if engine.replaced chainId reply other then none else kept.records other }

theorem admitRequest_eq (requestId : RequestId) (chainId : Option Nat) (reply : Reply)
    (engine : EngineState) :
    engine.admitRequest requestId chainId reply =
      match engine.placement chainId reply with
      | none => (engine.kept chainId reply, none)
      | some (seqId, chain) =>
        if reply.call = .returned then
          ((engine.kept chainId reply).enter requestId seqId chain, some (seqId, chain))
        else if reply.applied then ((engine.kept chainId reply).enter requestId seqId chain, none)
        else (engine.kept chainId reply, none) :=
  rfl

theorem shrinks_kept (chainId : Option Nat) (reply : Reply) (engine : EngineState) :
    Shrinks engine (engine.kept chainId reply) := by
  refine ⟨Nat.le_succ _, rfl, fun {other record} h => ?_⟩
  unfold kept at h
  dsimp only at h
  split at h
  · cases h
  · exact (shrinks_lose _ engine).records h

theorem shrinks_abortRequest (seqId : SeqId) (engine : EngineState) :
    Shrinks engine (engine.abortRequest seqId) :=
  ⟨Nat.le_refl _, rfl, fun h => (Option.filter_eq_some_iff.mp h).1⟩

theorem shrinks_discardChain (chainId : Nat) (seqId : SeqId) (engine : EngineState) :
    Shrinks engine (engine.discardChain chainId seqId) := by
  unfold discardChain
  split
  · refine ⟨Nat.le_refl _, rfl, fun {other record} h => ?_⟩
    dsimp only at h
    split at h
    · cases h
    · exact h
  · exact Shrinks.refl engine

end EngineState

namespace DispatcherState

variable {s t : DispatcherState}

@[simp] theorem goto_phase (phase : Phase) (s : DispatcherState) : (s.goto phase).phase = phase := rfl

@[simp] theorem onHandle_phase (requestId : RequestId) (f : RequestHandle → RequestHandle)
    (s : DispatcherState) : (s.onHandle requestId f).phase = s.phase := rfl

@[simp] theorem onHandle_active (requestId : RequestId) (f : RequestHandle → RequestHandle)
    (s : DispatcherState) : (s.onHandle requestId f).active = s.active := rfl

@[simp] theorem abortEngine_phase (requestId : RequestId) (seqId : SeqId) (reply : Reply)
    (s : DispatcherState) : (s.abortEngine requestId seqId reply).phase = s.phase := rfl

@[simp] theorem abortEngine_active (requestId : RequestId) (seqId : SeqId) (reply : Reply)
    (s : DispatcherState) : (s.abortEngine requestId seqId reply).active = s.active := rfl

@[simp] theorem markRequestTerminal_phase (requestId : RequestId) (seqId : SeqId)
    (s : DispatcherState) : (s.markRequestTerminal requestId seqId).phase = s.phase := by
  unfold markRequestTerminal
  dsimp only
  split <;> rfl

@[simp] theorem markRequestTerminal_active (requestId : RequestId) (seqId : SeqId)
    (s : DispatcherState) : (s.markRequestTerminal requestId seqId).active = s.active := by
  unfold markRequestTerminal
  dsimp only
  split <;> rfl

@[simp] theorem goto_handles (phase : Phase) (s : DispatcherState) :
    (s.goto phase).handles = s.handles := rfl

@[simp] theorem abortEngine_handles (requestId : RequestId) (seqId : SeqId) (reply : Reply)
    (s : DispatcherState) : (s.abortEngine requestId seqId reply).handles = s.handles := rfl

theorem onHandle_handles (requestId : RequestId) (f : RequestHandle → RequestHandle)
    (s : DispatcherState) (q : RequestId) :
    (s.onHandle requestId f).handles q = if q = requestId then f (s.handles q) else s.handles q := rfl

@[simp] theorem onHandle_handles_self (requestId : RequestId) (f : RequestHandle → RequestHandle)
    (s : DispatcherState) : (s.onHandle requestId f).handles requestId = f (s.handles requestId) := by
  rw [onHandle_handles, if_pos rfl]

theorem onHandle_handles_of_ne {requestId q : RequestId} (hne : q ≠ requestId)
    (f : RequestHandle → RequestHandle) (s : DispatcherState) :
    (s.onHandle requestId f).handles q = s.handles q := by
  rw [onHandle_handles, if_neg hne]

@[simp] theorem markRequestTerminal_handles (requestId : RequestId) (seqId : SeqId)
    (s : DispatcherState) :
    (s.markRequestTerminal requestId seqId).handles = (s.onHandle requestId .setTerminal).handles := by
  unfold markRequestTerminal
  dsimp only
  split <;> rfl

@[simp] theorem goto_active (phase : Phase) (s : DispatcherState) :
    (s.goto phase).active = s.active := rfl

@[simp] theorem goto_pending (phase : Phase) (s : DispatcherState) :
    (s.goto phase).pending = s.pending := rfl

@[simp] theorem onHandle_pending (requestId : RequestId) (f : RequestHandle → RequestHandle)
    (s : DispatcherState) : (s.onHandle requestId f).pending = s.pending := rfl

@[simp] theorem abortEngine_pending (requestId : RequestId) (seqId : SeqId) (reply : Reply)
    (s : DispatcherState) : (s.abortEngine requestId seqId reply).pending = s.pending := rfl

@[simp] theorem markRequestTerminal_pending (requestId : RequestId) (seqId : SeqId)
    (s : DispatcherState) : (s.markRequestTerminal requestId seqId).pending = s.pending := by
  unfold markRequestTerminal
  dsimp only
  split <;> rfl

/-- The thread has met or will meet the `None` of `close`. -/
def Told (s : DispatcherState) : Prop :=
  s.stopping = true ∨ .stop ∈ s.pending

/-- What the thread does to what the clients read and write. -/
structure Frame (s t : DispatcherState) : Prop where
  nextRequest : t.nextRequest = s.nextRequest
  clients : t.clients = s.clients
  closing : t.closing = s.closing
  locked : t.locked = s.locked
  failed : s.failed = true → t.failed = true
  cancelled : ∀ requestId, (t.handles requestId).cancelled = (s.handles requestId).cancelled
  terminal : ∀ requestId, (s.handles requestId).terminal = true →
    (t.handles requestId).terminal = true
  aborts : t.aborts ⊆ s.aborts
  pending : t.pending ⊆ s.pending
  stopping : t.stopping = true → s.Told

theorem Frame.refl (s : DispatcherState) : Frame s s :=
  ⟨rfl, rfl, rfl, rfl, fun h => h, fun _ => rfl, fun _ h => h, fun _ h => h, fun _ h => h, Or.inl⟩

theorem Frame.told (h : Frame s t) (ht : t.Told) : s.Told := by
  rcases ht with hs | hp
  · exact h.stopping hs
  · exact Or.inr (h.pending hp)

theorem Frame.trans {u : DispatcherState} (h : Frame s t) (h' : Frame t u) : Frame s u where
  nextRequest := h'.nextRequest.trans h.nextRequest
  clients := h'.clients.trans h.clients
  closing := h'.closing.trans h.closing
  locked := h'.locked.trans h.locked
  failed hf := h'.failed (h.failed hf)
  cancelled requestId := (h'.cancelled requestId).trans (h.cancelled requestId)
  terminal requestId ht := h'.terminal requestId (h.terminal requestId ht)
  aborts _ ha := h.aborts (h'.aborts ha)
  pending _ hi := h.pending (h'.pending hi)
  stopping hs := h.told (h'.stopping hs)

/-- A step of the loop: the thread stops when it is told to. -/
structure Loops (s t : DispatcherState) : Prop extends Frame s t where
  phase : t.phase.late = 0 ∨ t.phase = s.phase ∨ t.phase = .stopped ∧ s.Told

theorem Loops.refl (s : DispatcherState) : Loops s s :=
  { Frame.refl s with phase := Or.inr (Or.inl rfl) }

theorem Loops.trans {u : DispatcherState} (h : Loops s t) (h' : Loops t u) : Loops s u := by
  refine { h.toFrame.trans h'.toFrame with phase := ?_ }
  rcases h'.phase with hlate | hsame | ⟨hstopped, ht⟩
  · exact Or.inl hlate
  · rw [hsame]
    exact h.phase
  · exact Or.inr (Or.inr ⟨hstopped, h.told ht⟩)

/-- A step of the loop that admits nothing: chains are lost, and requests leave the table. -/
structure Quiet (s t : DispatcherState) : Prop extends Loops s t where
  engine : s.engine.Shrinks t.engine
  active : ∀ {seqId requestId}, t.active.get? seqId = some requestId →
    s.active.get? seqId = some requestId
  entering : s.phase.entering = none → t.phase.entering = none
  seqIds : ∀ requestId, (t.handles requestId).seqId = (s.handles requestId).seqId
  admits : ∀ requestId stage, t.phase = .admitRequest requestId stage →
    t.phase = s.phase ∨ stage = .readCancelled ∧ .request requestId ∈ s.pending

theorem Quiet.refl (s : DispatcherState) : Quiet s s :=
  { Loops.refl s with
    engine := EngineState.Shrinks.refl _, active := fun h => h, entering := fun h => h
    seqIds := fun _ => rfl, admits := fun _ _ _ => Or.inl rfl }

theorem Quiet.trans {u : DispatcherState} (h : Quiet s t) (h' : Quiet t u) : Quiet s u :=
  { h.toLoops.trans h'.toLoops with
    engine := h.engine.trans h'.engine
    active := fun hq => h.active (h'.active hq)
    entering := fun he => h'.entering (h.entering he)
    seqIds := fun r => (h'.seqIds r).trans (h.seqIds r)
    admits := fun r stage heq => by
      rcases h'.admits r stage heq with hsame | ⟨hstage, hin⟩
      · rw [hsame] at heq ⊢
        exact h.admits r stage heq
      · exact Or.inr ⟨hstage, h.pending hin⟩ }

theorem admits_of_nil {phase : Phase} (h : phase.admitting = []) (requestId : RequestId)
    (stage : AdmitStage) : phase ≠ .admitRequest requestId stage := by
  rintro rfl
  cases h

theorem quiet_goto {phase : Phase} (h : phase.entering = none ∧ phase.late = 0 ∧ phase.admitting = [])
    (s : DispatcherState) : Quiet s (s.goto phase) :=
  { Quiet.refl s with
    phase := Or.inl h.2.1, entering := fun _ => h.1
    admits := fun r stage heq => absurd heq (admits_of_nil h.2.2 r stage) }

theorem quiet_onHandle (requestId : RequestId) {f : RequestHandle → RequestHandle}
    (hf : ∀ handle, RequestHandle.Kept handle (f handle)) (s : DispatcherState) :
    Quiet s (s.onHandle requestId f) := by
  have hkept : ∀ other,
      RequestHandle.Kept (s.handles other) ((s.onHandle requestId f).handles other) := by
    intro other
    show RequestHandle.Kept _ (if other = requestId then f (s.handles other) else s.handles other)
    split
    · exact hf _
    · exact ⟨rfl, rfl, fun h => h⟩
  exact { Quiet.refl s with
    cancelled := fun other => (hkept other).cancelled
    terminal := fun other => (hkept other).terminal
    seqIds := fun other => (hkept other).seqId }

theorem quiet_engine {engine : EngineState} (s : DispatcherState) (h : s.engine.Shrinks engine) :
    Quiet s { s with engine := engine } :=
  { Quiet.refl s with engine := h }

theorem quiet_aborts {aborts : List AbortRequest} (s : DispatcherState) (h : aborts ⊆ s.aborts) :
    Quiet s { s with aborts := aborts } :=
  { Quiet.refl s with aborts := h }

theorem quiet_pending {pending : List PendingItem} (s : DispatcherState)
    (h : pending ⊆ s.pending) : Quiet s { s with pending := pending } :=
  { Quiet.refl s with pending := h }

theorem quiet_abortEngine (requestId : RequestId) (seqId : SeqId) (reply : Reply)
    (s : DispatcherState) : Quiet s (s.abortEngine requestId seqId reply) := by
  refine { Quiet.refl s with engine := ?_ }
  show s.engine.Shrinks (if _ then s.engine else s.engine.abortRequest seqId)
  split
  · exact EngineState.Shrinks.refl _
  · exact EngineState.shrinks_abortRequest seqId s.engine

theorem quiet_markRequestTerminal (requestId : RequestId) (seqId : SeqId) (s : DispatcherState) :
    Quiet s (s.markRequestTerminal requestId seqId) := by
  unfold markRequestTerminal
  dsimp only
  split
  · exact { quiet_onHandle requestId RequestHandle.kept_setTerminal s with }
  · exact quiet_onHandle requestId RequestHandle.kept_setTerminal s

theorem quiet_pop (seqId : SeqId) (s : DispatcherState) :
    Quiet s { s with active := s.active.pop seqId } :=
  { Quiet.refl s with active := Dict.get?_of_pop }

theorem quiet_nextIteration (s : DispatcherState) : Quiet s s.nextIteration := by
  unfold nextIteration
  split
  · exact { Quiet.refl s with
      phase := Or.inr (Or.inr ⟨rfl, Or.inl ‹_›⟩), entering := fun _ => rfl
      admits := fun r stage heq => absurd heq (admits_of_nil rfl r stage) }
  · exact quiet_goto ⟨rfl, rfl, rfl⟩ s

theorem quiet_drainControl (admitted : Bool) (reply : Reply) (s : DispatcherState) :
    Quiet s (s.drainControl admitted reply) := by
  unfold drainControl
  dsimp only
  split
  · refine quiet_goto ?_ s
    split <;> exact ⟨rfl, rfl, rfl⟩
  · have htaken : Quiet s { s with controls := s.controls - 1 } := { Quiet.refl s with }
    split
    · exact htaken
    · have hlost := htaken.trans (quiet_engine _ (EngineState.shrinks_lose reply s.engine))
      split
      · exact hlost.trans (quiet_goto ⟨rfl, rfl, rfl⟩ _)
      · exact hlost

theorem quiet_prune (reply : Reply) (s : DispatcherState) : Quiet s (s.prune reply) := by
  unfold prune
  have hlost := quiet_engine s (EngineState.shrinks_lose reply s.engine)
  dsimp only
  split
  · exact hlost.trans (quiet_goto ⟨rfl, rfl, rfl⟩ _)
  · exact hlost.trans (quiet_goto ⟨rfl, rfl, rfl⟩ _)

theorem quiet_abortsDrained (admitted changed : Bool) (reply : Reply) (s : DispatcherState) :
    Quiet s (s.abortsDrained admitted changed reply) := by
  unfold abortsDrained
  split
  · exact quiet_goto ⟨rfl, rfl, rfl⟩ s
  · split
    · exact quiet_goto ⟨rfl, rfl, rfl⟩ s
    · exact quiet_goto ⟨rfl, rfl, rfl⟩ s
    · split
      · exact quiet_goto ⟨rfl, rfl, rfl⟩ s
      · exact quiet_nextIteration s
    · split
      · exact quiet_goto ⟨rfl, rfl, rfl⟩ s
      · exact quiet_goto ⟨rfl, rfl, rfl⟩ s

theorem quiet_drainAbort (admitted changed : Bool) (reply : Reply) (s : DispatcherState) :
    Quiet s (s.drainAbort admitted changed reply) := by
  unfold drainAbort
  split
  · exact quiet_abortsDrained admitted changed reply s
  rename_i abort aborts _
  have htaken := quiet_aborts s (by rw [‹s.aborts = _›]; exact List.subset_cons_self abort aborts)
  have habort := htaken.trans (quiet_abortEngine abort.requestId abort.seqId reply _)
  dsimp only
  split
  · exact htaken
  · split
    · exact htaken.trans (quiet_onHandle _ RequestHandle.kept_setTerminal _)
    · split
      · rename_i requestId _
        split
        · exact htaken.trans (quiet_onHandle _ RequestHandle.kept_setTerminal _)
        · split
          · exact habort.trans (quiet_goto ⟨rfl, rfl, rfl⟩ _)
          · exact ((habort.trans (quiet_pop abort.seqId _)).trans
              (quiet_markRequestTerminal requestId abort.seqId _)).trans (quiet_goto ⟨rfl, rfl, rfl⟩ _)
      · split
        · split
          · exact htaken
          · rename_i chainId _
            split
            · split
              · have hdiscard := quiet_engine { s with aborts := aborts }
                  (EngineState.shrinks_discardChain chainId abort.seqId s.engine)
                exact { (htaken.trans hdiscard).trans
                  (quiet_goto ⟨rfl, rfl, rfl⟩ _ : Quiet _ (goto (.drainAborts admitted true) _)) with }
              · exact htaken
            · exact htaken
        · split
          · exact habort.trans (quiet_goto ⟨rfl, rfl, rfl⟩ _)
          · exact (habort.trans (quiet_markRequestTerminal abort.requestId abort.seqId _)).trans
              (quiet_goto ⟨rfl, rfl, rfl⟩ _)

/-- `_admit` begins. -/
theorem quiet_take {requestId : RequestId} {pending : List PendingItem}
    (hpending : s.pending = .request requestId :: pending) :
    Quiet s { s with pending := pending, phase := .admitRequest requestId .readCancelled } := by
  have htaken := quiet_pending s (by rw [hpending]; exact List.subset_cons_self _ pending)
  refine { htaken with
    phase := Or.inl rfl, entering := fun _ => rfl, admits := fun r stage heq => ?_ }
  cases heq
  exact Or.inr ⟨rfl, by rw [hpending]; exact List.mem_cons_self⟩

theorem quiet_waitPending (s : DispatcherState) : Quiet s s.waitPending := by
  unfold waitPending
  split
  · exact Quiet.refl s
  · rename_i pending hpending
    have htaken := quiet_pending s (by rw [hpending]; exact List.subset_cons_self _ pending)
    exact { htaken with
      phase := Or.inr (Or.inr ⟨rfl, Or.inr (by rw [hpending]; exact List.mem_cons_self)⟩)
      entering := fun _ => rfl
      admits := fun r stage heq => absurd heq (admits_of_nil rfl r stage) }
  · rename_i pending hpending
    have htaken := quiet_pending s (by rw [hpending]; exact List.subset_cons_self _ pending)
    exact htaken.trans (quiet_nextIteration _)
  · exact quiet_take ‹_›

theorem quiet_drainPending (s : DispatcherState) : Quiet s s.drainPending := by
  unfold drainPending
  split
  · exact quiet_goto ⟨rfl, rfl, rfl⟩ s
  · rename_i pending hpending
    have htaken := quiet_pending s (by rw [hpending]; exact List.subset_cons_self _ pending)
    exact { htaken with stopping := fun _ => Or.inr (by rw [hpending]; exact List.mem_cons_self) }
  · rename_i pending hpending
    exact quiet_pending s (by rw [hpending]; exact List.subset_cons_self _ pending)
  · exact quiet_take ‹_›

theorem quiet_admitCancelled (requestId : RequestId) (s : DispatcherState) :
    Quiet s (s.admitCancelled requestId) :=
  (quiet_onHandle requestId (fun handle =>
    (RequestHandle.kept_setTerminal handle).trans (RequestHandle.kept_resolveAdmission _)) s).trans
      (quiet_goto ⟨rfl, rfl, rfl⟩ _)

theorem quiet_admitFailed (requestId : RequestId) (reply : Reply) (s : DispatcherState) :
    Quiet s (s.admitFailed requestId reply) := by
  unfold admitFailed
  split
  · exact (quiet_onHandle requestId RequestHandle.kept_refuse s).trans
      (quiet_goto ⟨rfl, rfl, rfl⟩ _)
  · rename_i seqId _
    have habort := quiet_abortEngine requestId seqId reply s
    dsimp only
    split
    · exact habort.trans (quiet_goto ⟨rfl, rfl, rfl⟩ _)
    · exact ((habort.trans (quiet_markRequestTerminal requestId seqId _)).trans
        (quiet_onHandle requestId RequestHandle.kept_refuse _)).trans
          (quiet_goto ⟨rfl, rfl, rfl⟩ _)

theorem quiet_publishTokenDelta (seqId : SeqId) (outputs finished : List SeqId) (reply : Reply)
    (s : DispatcherState) : Quiet s (s.publishTokenDelta seqId outputs finished reply) := by
  unfold publishTokenDelta
  have hnext : Quiet s (s.goto (.publishTokens outputs finished)) := quiet_goto ⟨rfl, rfl, rfl⟩ s
  dsimp only
  split
  · exact hnext
  · rename_i requestId _
    have habort := hnext.trans (quiet_abortEngine requestId seqId reply _)
    split
    · exact hnext.trans (quiet_goto ⟨rfl, rfl, rfl⟩ _)
    · split
      · split
        · exact habort.trans (quiet_goto ⟨rfl, rfl, rfl⟩ _)
        · have htoken := habort.trans
            (quiet_onHandle requestId (RequestHandle.kept_putToken reply.emits) _)
          split
          · exact htoken.trans (quiet_goto ⟨rfl, rfl, rfl⟩ _)
          · exact ((htoken.trans (quiet_pop seqId _)).trans
              (quiet_markRequestTerminal requestId seqId _)).trans
                (quiet_onHandle requestId (RequestHandle.kept_put .final) _)
      · exact hnext.trans
          (quiet_onHandle requestId (RequestHandle.kept_putToken reply.emits) _)

theorem quiet_publishFinish (seqId : SeqId) (finished : List SeqId) (reply : Reply)
    (s : DispatcherState) : Quiet s (s.publishFinish seqId finished reply) := by
  unfold publishFinish
  have hnext : Quiet s (s.goto (.publishFinished finished)) := quiet_goto ⟨rfl, rfl, rfl⟩ s
  dsimp only
  split
  · exact hnext
  · rename_i requestId _
    have hpop := hnext.trans (quiet_pop seqId _)
    split
    · exact hnext.trans (quiet_goto ⟨rfl, rfl, rfl⟩ _)
    · split
      · exact hpop.trans (quiet_goto ⟨rfl, rfl, rfl⟩ _)
      · have habort := hpop.trans (quiet_abortEngine requestId seqId reply _)
        split <;> split
        · exact habort.trans (quiet_goto ⟨rfl, rfl, rfl⟩ _)
        · exact hpop.trans (quiet_goto ⟨rfl, rfl, rfl⟩ _)
        · exact ((habort.trans
            (quiet_onHandle requestId (RequestHandle.kept_putToken reply.emits) _)).trans
              (quiet_markRequestTerminal requestId seqId _)).trans
                (quiet_onHandle requestId (RequestHandle.kept_put .final) _)
        · exact ((hpop.trans
            (quiet_onHandle requestId (RequestHandle.kept_putToken reply.emits) _)).trans
              (quiet_markRequestTerminal requestId seqId _)).trans
                (quiet_onHandle requestId (RequestHandle.kept_put .final) _)

theorem publishTokenDelta_phase (seqId : SeqId) (outputs finished : List SeqId) (reply : Reply)
    (s : DispatcherState) :
    (s.publishTokenDelta seqId outputs finished reply).phase = .failing ∨
      (s.publishTokenDelta seqId outputs finished reply).phase = .publishTokens outputs finished := by
  unfold publishTokenDelta
  dsimp only
  split
  · exact Or.inr rfl
  · split
    · exact Or.inl rfl
    · split
      · split
        · exact Or.inl rfl
        · split
          · exact Or.inl rfl
          · refine Or.inr ?_
            simp
      · exact Or.inr rfl

/-- A published request is not in the table any more. -/
theorem publishFinish_phase (seqId : SeqId) (finished : List SeqId) (reply : Reply)
    (s : DispatcherState) :
    (s.publishFinish seqId finished reply).phase = .failing ∨
      (s.publishFinish seqId finished reply).phase = .publishFinished finished ∧
        (s.publishFinish seqId finished reply).active.get? seqId = none := by
  have hgone : ∀ (d : Dict SeqId RequestId), (d.pop seqId).get? seqId = none := by
    intro d
    rw [Dict.get?_pop, if_pos rfl]
  unfold publishFinish
  dsimp only
  split
  · exact Or.inr ⟨rfl, ‹_›⟩
  · split
    · exact Or.inl rfl
    · split
      · exact Or.inl rfl
      · split
        · exact Or.inl rfl
        · split <;> refine Or.inr ⟨?_, ?_⟩ <;> simp [hgone]

/-- The thread does not come back to its loop. -/
theorem threadStep_stopped (reply : Reply) (h : s.phase.running = false) :
    (s.threadStep reply).phase.running = false := by
  unfold threadStep
  split <;> rename_i hphase <;> rw [hphase] at h <;> try cases h
  · split
    · rw [hphase]
      rfl
    · rfl
  · split
    · rw [hphase]
      rfl
    · rfl
  · unfold failActive
    split
    · rfl
    · simp [hphase, Phase.running]
  · unfold drainQueued
    split
    · rfl
    · simp [hphase, Phase.running]
    · simp [hphase, Phase.running]
  · split
    · rfl
    · simp [hphase, Phase.running]
  · unfold failAbort
    split
    · rfl
    · simp [hphase, Phase.running]
  · rw [hphase]
    rfl

theorem loops_engineStep (reply : Reply) (s : DispatcherState) : Loops s (s.engineStep reply) := by
  unfold engineStep
  dsimp only
  split <;> exact { Loops.refl s with phase := Or.inl rfl }

theorem loops_admitRequest (requestId : RequestId) (reply : Reply) (stage : AdmitStage)
    (s : DispatcherState) : Loops s (s.admitRequest requestId reply stage) := by
  have hgoto : ∀ (stage : AdmitStage), Loops s (s.goto (.admitRequest requestId stage)) := fun _ =>
    { Loops.refl s with phase := Or.inl rfl }
  cases stage with
  | readCancelled =>
    simp only [admitRequest]
    split
    · exact (quiet_admitCancelled requestId s).toLoops
    · exact hgoto _
  | readClosing =>
    simp only [admitRequest]
    split
    · exact ((quiet_onHandle requestId RequestHandle.kept_refuse s).trans
        (quiet_goto ⟨rfl, rfl, rfl⟩ _)).toLoops
    · exact hgoto _
  | callEngine =>
    simp only [admitRequest]
    split
    · exact { Loops.refl s with phase := Or.inl rfl }
    · rename_i engine seqId chainId _
      have hchain := quiet_onHandle requestId
        (f := fun handle => { handle with chainId := chainId }) (fun _ => ⟨rfl, rfl, fun h => h⟩) s
      exact { hchain.toLoops with phase := Or.inl rfl }
  | writeSeqId seqId =>
    have hsame : ∀ other, ((s.admitRequest requestId reply (.writeSeqId seqId)).handles
        other).cancelled = (s.handles other).cancelled ∧
          ((s.admitRequest requestId reply (.writeSeqId seqId)).handles other).terminal =
            (s.handles other).terminal := by
      intro other
      rw [admitRequest, goto_handles, onHandle_handles]
      split <;> exact ⟨rfl, rfl⟩
    exact { Loops.refl s with
      phase := Or.inl rfl
      cancelled := fun other => (hsame other).1
      terminal := fun other ht => (hsame other).2.trans ht }
  | readCancelledAgain seqId =>
    simp only [admitRequest]
    have habort := quiet_abortEngine requestId seqId reply s
    split
    · split
      · exact (habort.trans (quiet_admitCancelled requestId _)).toLoops
      · exact { habort.toLoops with phase := Or.inl rfl }
    · split
      · exact hgoto _
      · have hresolve := quiet_onHandle requestId RequestHandle.kept_resolveAdmission s
        exact { hresolve.toLoops with phase := Or.inl rfl }
  | failed => exact (quiet_admitFailed requestId reply s).toLoops

theorem loops_threadStep (reply : Reply) (h : s.phase.running = true) :
    Loops s (s.threadStep reply) := by
  unfold threadStep
  split <;> rename_i hphase <;> rw [hphase] at h <;> try cases h
  · exact (quiet_drainControl _ reply s).toLoops
  · exact (quiet_prune reply s).toLoops
  · exact (quiet_drainAbort _ _ reply s).toLoops
  · exact (quiet_waitPending s).toLoops
  · exact (quiet_drainPending s).toLoops
  · exact loops_admitRequest _ reply _ s
  · exact loops_engineStep reply s
  · exact (quiet_goto ⟨rfl, rfl, rfl⟩ s).toLoops
  · exact (quiet_publishTokenDelta _ _ _ reply s).toLoops
  · exact (quiet_nextIteration s).toLoops
  · exact (quiet_publishFinish _ _ reply s).toLoops

/-- The thread on its way to its end. -/
theorem frame_threadStep (reply : Reply) (s : DispatcherState) : Frame s (s.threadStep reply) := by
  cases hrun : s.phase.running with
  | true => exact (loops_threadStep reply hrun).toFrame
  | false =>
    unfold threadStep
    split <;> rename_i hphase <;> rw [hphase] at hrun <;> try cases hrun
    · split
      · exact Frame.refl s
      · exact { Frame.refl s with failed := fun _ => rfl }
    · split
      · exact Frame.refl s
      · exact { Frame.refl s with }
    · unfold failActive
      split
      · exact { Frame.refl s with }
      · rename_i seqId requestId _
        exact ((((quiet_pop seqId s).trans (quiet_markRequestTerminal requestId seqId _)).trans
          (quiet_onHandle requestId (RequestHandle.kept_put .error) _)).trans
            (quiet_abortEngine requestId seqId reply _)).toFrame
    · unfold drainQueued
      split
      · exact { Frame.refl s with }
      · rename_i requestId pending hpending
        have htaken := quiet_pending s (by rw [hpending]; exact List.subset_cons_self _ pending)
        exact (htaken.trans (quiet_onHandle requestId RequestHandle.kept_refuse _)).toFrame
      · rename_i pending _ hpending
        exact (quiet_pending s (by rw [hpending]; exact List.subset_cons_self _ pending)).toFrame
    · split
      · exact { Frame.refl s with }
      · exact { Frame.refl s with }
    · unfold failAbort
      split
      · exact { Frame.refl s with }
      · rename_i abort aborts haborts
        have htaken := quiet_aborts s (by rw [haborts]; exact List.subset_cons_self abort aborts)
        exact (htaken.trans (quiet_onHandle _ RequestHandle.kept_setTerminal _)).toFrame
    · exact Frame.refl s

/-- A client call may close the engine; the table and the phase stay. -/
theorem clientStep_quiet (task : ClientTask) (s : DispatcherState) :
    (s.clientStep task).1.phase = s.phase ∧ s.engine.Shrinks (s.clientStep task).1.engine ∧
      (s.clientStep task).1.active = s.active := by
  have hsame := EngineState.Shrinks.refl s.engine
  cases task with
  | cancel | cancelRead | discardRead | discardPut | control | close =>
    simp only [clientStep]
    repeat' split
    all_goals exact ⟨rfl, hsame, rfl⟩
  | closeExit =>
    refine ⟨rfl, ⟨Nat.le_refl _, rfl, fun hc => ?_⟩, rfl⟩
    cases hc
  | _ => exact ⟨rfl, hsame, rfl⟩

end DispatcherState

end SparseVllm.Dispatcher
