import SparseVllm.Scheduler.Landing

/-!
# A decode batch is all long or all short

The decode loop takes the requests on one side of the long-text threshold, so the model runner's
batch check (`_is_long_text_batch`) never sees a mixed batch.
-/

namespace SparseVllm

open SparseVllm.Lib

variable {ε σ B κ ν : Type}

/-- `_is_long_text_batch` of the model runner for a decode batch: `none` is its `ValueError` for a
mixed batch. -/
def isLongTextBatch (cfg : SchedulerConfig) (requests : SeqId → Sequence B) (seqs : List SeqId) :
    Option Bool :=
  match seqs with
  | [] => some false
  | first :: _ =>
    let isLong := isLongText cfg (requests first)
    if seqs.any fun seq => isLongText cfg (requests seq) != isLong then none else some isLong

theorem isLongTextBatch_of_uniform {cfg : SchedulerConfig} {requests : SeqId → Sequence B}
    {seqs : List SeqId} {isLong : Bool} (some : seqs ≠ [])
    (uniform : ∀ seq ∈ seqs, isLongText cfg (requests seq) = isLong) :
    isLongTextBatch cfg requests seqs = .some isLong := by
  cases seqs with
  | nil => exact absurd rfl some
  | cons first rest =>
    simp only [isLongTextBatch, uniform first List.mem_cons_self]
    refine if_neg fun hmixed => ?_
    obtain ⟨seq, hseq, hne⟩ := List.any_eq_true.mp hmixed
    rw [uniform seq hseq] at hne
    simp at hne

/-- The element popped is the one at the index. -/
theorem popAt_getElem {queue rest : List SeqId} {idx : Nat} {seq : SeqId}
    (h : popAt queue idx = some (seq, rest)) (hidx : idx < queue.length) : queue[idx] = seq := by
  unfold popAt at h
  split at h
  · rename_i hzero
    subst hzero
    cases queue with
    | nil => cases h
    | cons x xs =>
      simp only [Option.some.injEq, Prod.mk.injEq] at h
      exact h.1
  · have hrotate := List.rotate_eq_drop_append_take hidx.le
    rw [List.drop_eq_getElem_cons hidx, List.cons_append] at hrotate
    rw [hrotate] at h
    simp only [Option.some.injEq, Prod.mk.injEq] at h
    exact h.1

section Pass

variable {memory : MemoryOracle ε σ B κ ν} (hits : WritesHitsOnly memory)
variable (cfg : SchedulerConfig) {f : SeqId → Sequence B}

/-- The request popped for a decode batch is on the side asked for. -/
theorem popNextDecodingSeq_isLong (targetIsLong : Bool) :
    Returns (Has f) (popNextDecodingSeq (ε := ε) (ν := ν) (σ := σ) cfg targetIsLong)
      fun popped s => Has f s ∧ ∀ seq, popped = some seq →
        isLongText cfg (f seq) = targetIsLong := by
  refine Spec.get_bind fun s hs => ?_
  cases hfound : s.decoding.findIdx? fun seq =>
      isLongText cfg (s.world.seqs seq) == targetIsLong with
  | none => exact Spec.pure fun t ht => ⟨ht ▸ hs, nofun⟩
  | some idx =>
    refine Spec.get_bind fun t ht => ?_
    obtain rfl : s = t := ht.symm
    cases hpop : popAt s.decoding idx with
    | none => exact Spec.pure fun u hu => ⟨hu ▸ hs, nofun⟩
    | some out =>
      obtain ⟨seq, rest⟩ := out
      obtain ⟨hlt, hside, -⟩ := List.findIdx?_eq_some_iff_getElem.mp hfound
      rw [popAt_getElem hpop hlt, show s.world.seqs = f from hs] at hside
      rintro u rfl
      refine ⟨hs, fun seq' hseq => ?_⟩
      obtain rfl := Option.some.inj hseq
      exact beq_iff_eq.mp hside

/-- The requests of an outcome of the decode loop are on the side asked for. -/
def OneSided (cfg : SchedulerConfig) (f : SeqId → Sequence B) (targetIsLong : Bool) :
    DecodeOutcome → Prop
  | .batch scheduled _ => ∀ seq ∈ scheduled, isLongText cfg (f seq) = targetIsLong
  | .preempt result => result.seqs = []

/-- What an outcome of the decode loop leaves in the heap. -/
def KeepsRequests (f : SeqId → Sequence B) (out : DecodeOutcome) (s : Scheduler σ B) : Prop :=
  match out with
  | .batch _ _ => Has f s
  | .preempt _ => True

theorem preemptDecodeVictim_empty {P : Scheduler σ B → Prop} (victim : SeqId)
    (scheduled : List SeqId) :
    Returns P (preemptDecodeVictim memory victim scheduled) fun r _ => r.seqs = [] := by
  refine Spec.bind (Spec.trivial _) fun s => Spec.bind (Spec.trivial _) fun _ => ?_
  refine Spec.bind (Spec.trivial _) fun _ => Spec.bind (Spec.trivial _) fun _ => ?_
  refine Spec.bind (Spec.trivial _) fun _ => Spec.bind (Spec.trivial _) fun _ => ?_
  refine Spec.bind (Spec.trivial _) fun _ => Spec.bind (Spec.trivial _) fun _ => ?_
  refine Spec.bind (Spec.trivial _) fun _ => Spec.bind (Spec.trivial _) fun _ => ?_
  exact Spec.pure fun _ _ => rfl

include hits

/-- The induction is on the scan budget. -/
theorem decodeLoop_oneSided (targetIsLong : Bool) :
    ∀ budget numBatched logicalFree scheduled blocked,
      (∀ seq ∈ scheduled, isLongText cfg (f seq) = targetIsLong) →
      Returns (Has f)
        (decodeLoop cfg memory targetIsLong budget numBatched logicalFree scheduled blocked)
        fun out s => OneSided cfg f targetIsLong out ∧ KeepsRequests f out s
  | 0, _, _, _, _, hside => Spec.pure fun _ hs => ⟨hside, hs⟩
  | budget + 1, numBatched, logicalFree, scheduled, blocked, hside => by
    refine Spec.bind (Spec.get (Q := fun _ => Has f) fun _ hs => hs) fun s => ?_
    refine Spec.ite (fun _ => Spec.pure fun _ hs => ⟨hside, hs⟩) fun _ => ?_
    refine Spec.bind (popNextDecodingSeq_isLong cfg targetIsLong) fun popped => ?_
    cases popped with
    | none => exact Spec.pure fun _ hs => ⟨hside, hs.1⟩
    | some seq =>
      refine Spec.intro fun t ht => ?_
      obtain ⟨hhas, hseq⟩ := ht
      have hseq := hseq seq rfl
      refine Spec.pre ?_ fun u hu => (hu ▸ hhas : Has f u)
      refine Spec.bind (ask_reads (onRequests_has f) (hits.decodeStepFreeSlotsFor seq)) fun _ => ?_
      refine Spec.bind (ask_reads (onRequests_has f) (hits.decodeStepReservationCost seq))
        fun cost => ?_
      have happend : Returns (Has f) (appendDecoding (ε := ε) (ν := ν) (σ := σ) (B := B) seq)
          fun _ => Has f := Spec.modify fun _ hs => hs
      refine Spec.ite (fun _ => Spec.ite (fun _ => ?_) fun _ => Spec.ite (fun _ => ?_) fun _ => ?_)
        fun _ => ?_
      · exact Spec.bind happend fun _ => decodeLoop_oneSided targetIsLong budget _ _ _ _ hside
      · exact Spec.bind happend fun _ => Spec.pure fun _ hs => ⟨hside, hs⟩
      · exact Spec.bind (preemptDecodeVictim_empty seq scheduled) fun r =>
          Spec.pure fun _ hr => ⟨hr, trivial⟩
      · refine decodeLoop_oneSided targetIsLong budget _ _ _ _ fun q hq => ?_
        rcases List.mem_append.mp hq with hq | hq
        · exact hside q hq
        · rw [List.mem_singleton.mp hq]
          exact hseq

/-- The batch of the decode phase is on one side of the threshold. -/
theorem decodePhase_uniform (decodeFree : Int) (pass : PrefillPass ν) :
    Returns (fun _ => True) (decodePhase cfg memory decodeFree pass) fun r t =>
      ∃ isLong, ∀ seq ∈ r.seqs, isLongText cfg (t.world.seqs seq) = isLong := by
  refine Spec.get_bind fun s _ => ?_
  refine Spec.bind ((decodeLoop_oneSided hits cfg (f := s.world.seqs) _ _ _ _ _ _
    fun _ h => absurd h List.not_mem_nil).pre fun t ht => ht ▸ rfl) fun out => ?_
  cases out with
  | preempt result => exact Spec.pure fun t ht => ⟨false, fun seq hseq => by
      rw [show result.seqs = [] from ht.1] at hseq
      cases hseq⟩
  | batch scheduled blocked =>
    refine Spec.ite (fun _ => ?_) fun _ => ?_
    · unfold finishEmptyPass
      cases blocked with
      | some victim =>
        refine Spec.bind (Spec.trivial _) fun _ => (preemptDecodeVictim_empty victim []).post
          fun r t hr => ⟨false, fun seq hseq => by
            rw [hr] at hseq
            cases hseq⟩
      | none =>
        refine Spec.bind (Spec.trivial _) fun _ => Spec.bind (Spec.trivial _) fun _ => ?_
        exact Spec.bind (Spec.trivial _) fun _ => Spec.pure fun _ _ => ⟨false, nofun⟩
    · refine Spec.intro fun t ht => ?_
      obtain ⟨hside, hhas⟩ := ht
      refine Spec.bind (R := fun _ => Has s.world.seqs) (Spec.modify fun u hu => hu ▸ hhas)
        fun _ => Spec.bind (R := fun _ => Has s.world.seqs) ?_ fun _ => Spec.pure fun u hu => ?_
      · cases blocked with
        | none => exact Spec.pure fun _ hu => hu
        | some victim => exact Spec.modify fun _ hu => hu
      · refine ⟨!s.decoding.isEmpty && !s.decoding.any fun seq =>
          !isLongText cfg (s.world.seqs seq), fun seq hseq => ?_⟩
        rw [show u.world.seqs = s.world.seqs from hu]
        exact hside seq hseq

variable [DecidableEq κ] [DecidableEq ν]

/-- A scheduled decode batch is on one side of the threshold. -/
theorem schedule_uniform :
    Returns (fun _ => True) (schedule cfg memory) fun r t => r.isPrefill = false →
      ∃ isLong, ∀ seq ∈ r.seqs, isLongText cfg (t.world.seqs seq) = isLong := by
  refine Spec.bind (Spec.trivial _) fun _ => ?_
  refine Returns.andFinally (R := fun r t => r.isPrefill = false →
    ∃ isLong, ∀ seq ∈ r.seqs, isLongText cfg (t.world.seqs seq) = isLong) ?_ fun r => ?_
  · refine Spec.bind (Spec.trivial _) fun start => Spec.bind (Spec.trivial _) fun decodeFree => ?_
    refine Spec.bind (Spec.trivial _) fun modes => Spec.bind (Spec.trivial _) fun pass => ?_
    refine Spec.ite (fun _ => ?_) fun _ => Spec.pure fun _ _ => nofun
    exact (decodePhase_uniform hits cfg _ pass).post fun _ _ h _ => h
  · have hkept : OnRequests (σ := σ) (B := B) fun t => r.isPrefill = false →
        ∃ isLong, ∀ seq ∈ r.seqs, isLongText cfg (t.world.seqs seq) = isLong := by
      intro t w hw h hd
      obtain ⟨isLong, hside⟩ := h hd
      exact ⟨isLong, fun seq hseq => by
        rw [show w.seqs = t.world.seqs from hw]
        exact hside seq hseq⟩
    exact ask_reads hkept hits.exitCapacitySnapshot

variable {runner : ModelRunner ε σ B} (reads : RunnerReads runner)

include reads

/-- The decode batch of a step is on one side of the threshold. -/
theorem beginStep_uniform {e t : Engine σ B} {r : ScheduleResult}
    (run : beginStep cfg memory runner e = .ok r t) (decode : r.isPrefill = false) :
    ∃ isLong, ∀ seq ∈ r.seqs, isLongText cfg (t.request seq) = isLong := by
  have hbegin : Returns (· = e) (beginStep cfg memory runner) fun r t => r.isPrefill = false →
      ∃ isLong, ∀ seq ∈ r.seqs, isLongText cfg (t.request seq) = isLong := by
    refine Spec.bind (Spec.start (onScheduler_returns (schedule_uniform hits cfg))
      ⟨trivial, rfl⟩) fun r => Spec.intro fun u hu => ?_
    refine Spec.bind (Spec.start (releasePreemptedSequences_is reads r.preempted) u.is_self)
      fun _ => Spec.pure fun v hv hd => ?_
    obtain ⟨isLong, hside⟩ := hu.1 hd
    exact ⟨isLong, fun seq hseq => by
      rw [show v.request = u.scheduler.world.seqs from hv.1.1]
      exact hside seq hseq⟩
  have := hbegin e rfl
  rw [run] at this
  exact this decode

end Pass

end SparseVllm
