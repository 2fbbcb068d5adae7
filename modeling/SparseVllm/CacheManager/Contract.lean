import SparseVllm.CacheManager.Admission
import SparseVllm.Scheduler.Replay

/-!
# The runtime state meets what the scheduler relies on

`RuntimeState.oracle` writes nothing of the requests but their prefix hits (`writesHitsOnly`), and
what it says remains of a prompt ends inside it (`remainsInPrompt`). So the results about every
memory oracle hold of the one the engine uses.
-/

namespace SparseVllm

open SparseVllm.Lib

namespace RuntimeState

variable {B P α : Type}

theorem onRuntime_reads (p : RuntimeStateM B P α) : ReadsRequests (onRuntime p) :=
  fun _ _ _ h => (onRuntime_inv h).2

theorem withSeq_reads (seqId : SeqId) (p : Sequence B → RuntimeStateM B P α) :
    ReadsRequests (withSeq seqId p) :=
  fun _ _ _ h => (onRuntime_inv h).2

theorem pure_reads (a : α) :
    ReadsRequests (pure a : EStateM (RuntimeStateError B) (World (RuntimeState B P) B) α) := by
  intro w w' b h
  cases h
  rfl

/-- An answer computed from the state. -/
theorem get_reads (g : World (RuntimeState B P) B → α) :
    ReadsRequests (do return g (← get) : OracleM B P α) := by
  intro w w' b h
  cases h
  rfl

theorem withPrefixCacheHit_eq (seq : Sequence B) (hit : Option (Nat × B × Nat)) :
    ∃ len count last, seq.clearPrefixCacheHit.withPrefixCacheHit hit = seq.withHit len count last := by
  cases hit with
  | none => exact ⟨0, 0, none, rfl⟩
  | some hit =>
    obtain ⟨len, last, count⟩ := hit
    exact ⟨len, count, some last, rfl⟩

variable [LinearOrder B]

theorem refreshTextHit_writes {seqId : SeqId} {w w' : World (RuntimeState B P) B}
    (h : refreshTextHit seqId w = .ok () w') : ∃ len count last,
      w'.seqs = (w.modifySeq seqId fun request => request.withHit len count last).seqs := by
  unfold refreshTextHit at h
  rw [bind_apply] at h
  cases hpoll : onRuntime pollOffload w with
  | error e u => rw [hpoll] at h; cases h
  | ok a u =>
    rw [hpoll] at h
    simp only [RuntimeState.clearPrefixCacheHit, modify_bind] at h
    rw [bind_apply] at h
    cases hlookup : withSeq seqId (lookupHit seqId)
        (u.modifySeq seqId Sequence.clearPrefixCacheHit) with
    | error e v => rw [hlookup] at h; cases h
    | ok hit v =>
      rw [hlookup] at h
      simp only [modify_apply, EStateM.Result.ok.injEq, true_and] at h
      obtain ⟨len, count, last, hwrite⟩ := withPrefixCacheHit_eq (w.seqs seqId) hit
      refine ⟨len, count, last, ?_⟩
      rw [← h]
      funext q
      rw [World.seqs_modifySeq, withSeq_reads _ _ hlookup, World.seqs_modifySeq,
        World.seqs_modifySeq, onRuntime_reads _ hpoll]
      by_cases hq : q = seqId
      · subst hq
        rw [if_pos rfl, if_pos rfl, if_pos rfl, hwrite]
      · rw [if_neg hq, if_neg hq, if_neg hq]

theorem writesHitsOnly : WritesHitsOnly (oracle B P) where
  numFreeSlots := get_reads _
  prefillBatchedTokensMargin := pure_reads _
  remainingPrefillTokens _ := get_reads _
  prefillExecutionMode _ := get_reads _
  prefillBatchCompatibilityKey _ := pure_reads _
  resetPrefillExecutionState _ := pure_reads _
  completePrefillExecution _ := pure_reads _
  reservedPrefillSlots _ _ := get_reads _
  shouldScheduleFullPrefill _ := pure_reads _
  prefillStepFreeSlots := onRuntime_reads _
  prefillStepFreeSlotsFor _ := withSeq_reads _ _
  minFinalPrefillChunkSize _ := pure_reads _
  prefillStepReservationCost _ _ := pure_reads _
  decodeStepFreeSlots := onRuntime_reads _
  decodeStepFreeSlotsFor _ := onRuntime_reads _
  decodeStepReservationCost _ := pure_reads _
  promptAdmissionFreeSlots := onRuntime_reads _
  promptAdmissionBudgets _ _ := fun _ _ _ h => (onRuntime_inv h).2
  promptAdmissionCosts _ := withSeq_reads _ _
  promptLogicalReservationCost _ := withSeq_reads _ _
  promptAdmissionFailureAction := pure_reads _
  onPromptAdmitted seqId costs := onRuntime_reads (onPromptAdmitted seqId costs)
  freeSlotStats := onRuntime_reads _
  enterCapacitySnapshot := by
    unfold oracle
    dsimp only
    exact onRuntime_reads _
  exitCapacitySnapshot := by
    unfold oracle
    dsimp only
    exact onRuntime_reads _
  prefixCacheHitRefresher {seq w w'} h := by
    have h : refreshPrefixCacheHit seq w = .ok () w' := h
    unfold refreshPrefixCacheHit at h
    rw [get_bind] at h
    split at h
    · simp only [RuntimeState.clearPrefixCacheHit, modify_apply, EStateM.Result.ok.injEq,
        true_and] at h
      rw [← h]
      exact ⟨0, 0, none, rfl⟩
    · exact refreshTextHit_writes h
  clearPrefixCacheHit {seq w w'} h := by
    have h : RuntimeState.clearPrefixCacheHit seq w = .ok () w' := h
    simp only [RuntimeState.clearPrefixCacheHit, modify_apply, EStateM.Result.ok.injEq,
      true_and] at h
    rw [h]

theorem remainsInPrompt : RemainsInPrompt (oracle B P) := by
  rintro request tokens ⟨seq, w, w', h, rfl⟩ -
  have h : (do return remainingPrefillTokens ((← get).seqs seq) : OracleM B P Int) w =
      .ok tokens w' := h
  cases h
  unfold remainingPrefillTokens
  omega

end RuntimeState

end SparseVllm
