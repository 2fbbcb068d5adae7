import Mathlib.Data.List.Rotate
import Mathlib.Data.List.Perm.Basic
import SparseVllm.Scheduler.Schedule

/-!
# A scheduling pass neither loses nor duplicates a request

The oracle and the heap of requests never touch the queues, so a pass is read as a sequence of
queue moves. Two invariants carry it:

* prefill phase (`HoldsWaiting`): the popped requests, with the waiting queue, are a permutation of
  the old waiting queue, and the decode queue is untouched;
* decode phase (`HoldsDecoding`): the batch, with the decode queue, is a permutation of the old
  decode queue, and the waiting queue is untouched.

The blocked decode request is not tracked by its position: all that is used is that it belongs to
the old decode queue, so the argument also covers an oracle that blocks a request and lets it
through later in the same pass.

Results: `scheduleImpl_conserves` and, through the capacity snapshot, `schedule_conserves`.
-/

namespace SparseVllm

open SparseVllm.Lib

variable {ε σ B κ ν : Type}

/-! ## Queue moves -/

theorem popAt_perm {queue rest : List SeqId} {idx : Nat} {seq : SeqId}
    (h : popAt queue idx = some (seq, rest)) : queue.Perm (seq :: rest) := by
  unfold popAt at h
  split at h
  · cases queue with
    | nil => cases h
    | cons x xs =>
      obtain ⟨rfl, rfl⟩ : x = seq ∧ xs = rest := by simpa using h
      exact List.Perm.refl _
  · have hrot := List.rotate_perm queue idx
    cases hq : queue.rotate idx with
    | nil => rw [hq] at h; cases h
    | cons x xs =>
      rw [hq] at h hrot
      obtain ⟨rfl, rfl⟩ : x = seq ∧ xs.rotate (xs.length - idx) = rest := by simpa using h
      exact hrot.symm.trans ((List.rotate_perm xs _).symm.cons x)

theorem perm_cons_erase_of_perm {l m : List SeqId} {a : SeqId} (h : l.Perm m) (ha : a ∈ m) :
    (a :: l.erase a).Perm m :=
  (List.perm_cons_erase (h.mem_iff.mpr ha)).symm.trans h

/-! ## The invariants of the two phases -/

/-- Prefill phase: the requests in hand and the waiting queue make up `waiting`. -/
def HoldsWaiting (waiting decoding held : List SeqId) (s : Scheduler σ B) : Prop :=
  (held ++ s.waiting).Perm waiting ∧ s.decoding = decoding

/-- Decode phase: the requests in hand and the decode queue make up `decoding`. -/
def HoldsDecoding (waiting decoding held : List SeqId) (s : Scheduler σ B) : Prop :=
  s.waiting = waiting ∧ (held ++ s.decoding).Perm decoding

/-- The predicate reads the queues only. -/
def OnQueues (P : Scheduler σ B → Prop) : Prop :=
  ∀ s w, P s → P { s with world := w }

theorem onQueues_holdsWaiting (waiting decoding held : List SeqId) :
    OnQueues (σ := σ) (B := B) (HoldsWaiting waiting decoding held) := fun _ _ h => h

theorem onQueues_holdsDecoding (waiting decoding held : List SeqId) :
    OnQueues (σ := σ) (B := B) (HoldsDecoding waiting decoding held) := fun _ _ h => h

/-- What a pass that returns `r` has done to the queues it started with. -/
inductive Conserved (waiting decoding : List SeqId) (r : ScheduleResult) (s : Scheduler σ B) :
    Prop where
  /-- A prefill batch leaves the waiting queue, and only that. -/
  | prefill (batch : r.isPrefill = true) (none : r.preempted = [])
      (waits : (r.seqs ++ s.waiting).Perm waiting) (decodes : s.decoding = decoding)
  /-- A decode batch stays in the decode queue. -/
  | decode (batch : r.isPrefill = false) (none : r.preempted = [])
      (waits : s.waiting.Perm waiting) (decodes : s.decoding.Perm decoding)
      (distinct : r.seqs.Nodup) (queued : ∀ seq ∈ r.seqs, seq ∈ s.decoding)
  /-- The preempted request moves from the decode queue to the tail of the waiting queue. -/
  | preempt (victim : SeqId) (front : List SeqId) (batch : r.isPrefill = false)
      (empty : r.seqs = []) (one : r.preempted = [victim])
      (decodes : (victim :: s.decoding).Perm decoding) (waits : s.waiting = front ++ [victim])
      (others : front.Perm waiting)

/-! ## The steps that only ask or assign -/

section Steps

variable {P : Scheduler σ B → Prop}

theorem ask_onQueues {α : Type} (hP : OnQueues P) (m : EStateM ε (World σ B) α) :
    Returns P (ask (ν := ν) m) fun _ => P := by
  intro s hs
  unfold ask
  cases m s.world with
  | ok a w => exact hP s w hs
  | error e w => trivial

theorem modifySeq_onQueues (hP : OnQueues P) (seq : SeqId) (f : Sequence B → Sequence B) :
    Returns P (modifySeq (ε := ε) (ν := ν) seq f) fun _ => P :=
  Spec.modify fun s hs => hP s _ hs

theorem getSeq_onQueues (seq : SeqId) : Returns P (getSeq (ε := ε) (ν := ν) seq) fun _ => P :=
  fun _ hs => hs

theorem raiseIf_keeps (c : Prop) [Decidable c] (e : SchedulerError ε ν) :
    Returns P (raiseIf c e : SchedM ε σ B ν Unit) fun _ => P :=
  Spec.post (Spec.raiseIf fun _ _ _ => trivial) fun _ _ h => h.1

theorem raiseStored_keeps (failure : Option (SchedulerError ε ν)) :
    Returns P (raiseStored failure : SchedM ε σ B ν Unit) fun _ => P := by
  refine Spec.bind (Spec.get fun _ hs => hs) fun s => ?_
  cases failure with
  | none => exact Spec.pure fun _ hs => hs
  | some e => exact raiseIf_keeps _ e

variable (memory : MemoryOracle ε σ B κ ν)

theorem prefillBatchKey_onQueues (hP : OnQueues P) (seq : SeqId) :
    Returns P (prefillBatchKey memory seq) fun _ => P :=
  Spec.bind (ask_onQueues hP _) fun _ =>
    Spec.bind (ask_onQueues hP _) fun _ => Spec.pure fun _ hs => hs

theorem refreshPrefillMetadata_onQueues (hP : OnQueues P) (seq : SeqId) :
    Returns P (refreshPrefillMetadata memory seq) fun _ => P := by
  refine Spec.bind (getSeq_onQueues seq) fun request => Spec.ite (fun _ => ?_) fun _ => ?_
  · exact ask_onQueues hP _
  · exact Spec.pure fun _ hs => hs

theorem collectPrefillModes_onQueues [DecidableEq κ] (hP : OnQueues P) (pending : Bool) :
    ∀ seqs modes, Returns P (collectPrefillModes memory pending seqs modes) fun _ => P
  | [], _ => Spec.pure fun _ hs => hs
  | seq :: rest, modes => by
    refine Spec.bind (getSeq_onQueues seq) fun request => Spec.ite (fun _ => ?_) fun _ => ?_
    · exact collectPrefillModes_onQueues hP pending rest modes
    · refine Spec.bind (refreshPrefillMetadata_onQueues memory hP seq) fun _ => ?_
      refine Spec.bind (prefillBatchKey_onQueues memory hP seq) fun key => ?_
      exact collectPrefillModes_onQueues hP pending rest _

theorem prefillModeOrder_onQueues [DecidableEq κ] (hP : OnQueues P) :
    Returns P (prefillModeOrder memory) fun _ => P :=
  Spec.bind (Spec.get fun _ hs => hs) fun _ => collectPrefillModes_onQueues memory hP _ _ _

theorem findPrefillSeq_onQueues [DecidableEq κ] (hP : OnQueues P) (pending : Bool)
    (target : PrefillExecutionMode × κ) :
    ∀ seqs idx, Returns P (findPrefillSeq memory pending target seqs idx) fun _ => P
  | [], _ => Spec.pure fun _ hs => hs
  | seq :: rest, idx => by
    refine Spec.bind (getSeq_onQueues seq) fun request => Spec.ite (fun _ => ?_) fun _ => ?_
    · exact findPrefillSeq_onQueues hP pending target rest (idx + 1)
    · refine Spec.bind (prefillBatchKey_onQueues memory hP seq) fun key => Spec.ite (fun _ => ?_) fun _ => ?_
      · exact Spec.pure fun _ hs => hs
      · exact findPrefillSeq_onQueues hP pending target rest (idx + 1)

theorem respectMinFinalPrefillChunk_onQueues (hP : OnQueues P) (seq : SeqId)
    (remaining proposed : Int) :
    Returns P (respectMinFinalPrefillChunk memory seq remaining proposed) fun _ => P := by
  refine Spec.bind (ask_onQueues hP _) fun minFinal => ?_
  refine Spec.bind (raiseIf_keeps _ _) fun _ => Spec.ite (fun _ => ?_) fun _ => ?_
  · exact Spec.pure fun _ hs => hs
  · exact Spec.pure fun _ hs => hs

theorem passModes_onQueues [DecidableEq κ] (hP : OnQueues P) :
    Returns P (passModes memory) fun _ => P := by
  refine Spec.bind (Spec.get fun _ hs => hs) fun s => Spec.ite (fun _ => ?_) fun _ => ?_
  · exact prefillModeOrder_onQueues memory hP
  · exact Spec.pure fun _ hs => hs

end Steps

/-! ## The prefill phase -/

section Prefill

variable (cfg : SchedulerConfig) (memory : MemoryOracle ε σ B κ ν)
variable {waiting decoding : List SeqId}

theorem popWaitingAt_holds (idx : Nat) (held : List SeqId) :
    Returns (HoldsWaiting waiting decoding held) (popWaitingAt (ε := ε) (ν := ν) idx)
      fun popped (s : Scheduler σ B) => match popped with
        | none => HoldsWaiting waiting decoding held s
        | some seq => HoldsWaiting waiting decoding (seq :: held) s := by
  intro t ht
  unfold popWaitingAt
  rw [get_bind]
  cases hpop : popAt t.waiting idx with
  | none => exact ht
  | some entry =>
    obtain ⟨seq, rest⟩ := entry
    refine ⟨?_, ht.2⟩
    have hperm : (held ++ t.waiting).Perm (held ++ seq :: rest) :=
      (popAt_perm hpop).append_left held
    exact (List.perm_middle.symm.trans hperm.symm).trans ht.1

theorem appendWaiting_holds (seq : SeqId) (held : List SeqId) :
    Returns (HoldsWaiting waiting decoding (seq :: held))
      (appendWaiting (ε := ε) (ν := ν) (σ := σ) (B := B) seq)
      fun _ => HoldsWaiting waiting decoding held := by
  refine Spec.modify fun s hs => ⟨?_, hs.2⟩
  have hmove : (held ++ (s.waiting ++ [seq])).Perm (seq :: (held ++ s.waiting)) := by
    rw [← List.append_assoc]
    exact List.perm_append_singleton seq _
  exact hmove.trans hs.1

theorem blockPrefillCandidate_holds (mode : PrefillExecutionMode) (seq : SeqId)
    (remaining candidateFree : Int) (pass : PrefillPass ν) :
    Returns (HoldsWaiting waiting decoding (seq :: pass.scheduledSeqs))
      (blockPrefillCandidate (ε := ε) (σ := σ) (B := B) cfg mode seq remaining candidateFree pass)
      fun pass' => HoldsWaiting waiting decoding pass'.scheduledSeqs := by
  refine Spec.bind (appendWaiting_holds seq pass.scheduledSeqs) fun _ => Spec.pure fun s hs => ?_
  have hsame : ∀ p : PrefillPass ν, p.scheduledSeqs = pass.scheduledSeqs →
      HoldsWaiting waiting decoding p.scheduledSeqs s := fun p hp => hp ▸ hs
  apply hsame
  split <;> split <;> rfl

theorem schedulePrefillChunk_holds (mode : PrefillExecutionMode) (seq : SeqId) (tokens : Int)
    (pass : PrefillPass ν) :
    Returns (HoldsWaiting waiting decoding (seq :: pass.scheduledSeqs))
      (schedulePrefillChunk memory mode seq tokens pass)
      fun out => HoldsWaiting waiting decoding out.2.scheduledSeqs := by
  have hq := onQueues_holdsWaiting (σ := σ) (B := B) waiting decoding (seq :: pass.scheduledSeqs)
  refine Spec.bind (modifySeq_onQueues hq seq _) fun _ => ?_
  refine Spec.bind (ask_onQueues hq _) fun cost => ?_
  refine Spec.bind (modifySeq_onQueues hq seq _) fun _ => Spec.pure fun s hs => ⟨?_, hs.2⟩
  have hmove : (pass.scheduledSeqs ++ [seq] ++ s.waiting).Perm
      (seq :: (pass.scheduledSeqs ++ s.waiting)) := by
    rw [List.append_assoc]
    exact List.perm_middle
  exact hmove.trans hs.1

theorem startPass_onQueues {P : Scheduler σ B → Prop} (hP : OnQueues P) :
    Returns P (startPass cfg memory) fun out s => out.1.scheduledSeqs = [] ∧ P s := by
  refine Spec.bind (ask_onQueues hP _) fun physicalFree => ?_
  refine Spec.bind (Spec.get fun _ hs => hs) fun s => Spec.ite (fun _ => ?_) fun _ => ?_
  · exact Spec.pure fun _ hs => ⟨rfl, hs⟩
  · refine Spec.bind (ask_onQueues hP _) fun reserved => ?_
    refine Spec.bind (ask_onQueues hP _) fun admissionFree => ?_
    refine Spec.bind (ask_onQueues hP _) fun stepFree => ?_
    refine Spec.bind (ask_onQueues hP _) fun budgets => ?_
    exact Spec.bind (ask_onQueues hP _) fun margin => Spec.pure fun _ hs => ⟨rfl, hs⟩

theorem popNextPrefillSeq_holds [DecidableEq κ] (target : PrefillExecutionMode × κ) (held : List SeqId) :
    Returns (HoldsWaiting waiting decoding held) (popNextPrefillSeq memory target)
      fun popped s => match popped with
        | none => HoldsWaiting waiting decoding held s
        | some seq => HoldsWaiting waiting decoding (seq :: held) s := by
  refine Spec.bind (Spec.get fun _ hs => hs) fun s => ?_
  refine Spec.bind (findPrefillSeq_onQueues memory (onQueues_holdsWaiting _ _ _) _ _ _ _)
    fun found => ?_
  cases found with
  | none => exact Spec.pure fun _ hs => hs
  | some idx => exact popWaitingAt_holds idx held

variable [DecidableEq ν]

theorem chargeAdmission_holds (seq : SeqId) (costs : List (ν × Int)) (pass : PrefillPass ν) :
    Returns (HoldsWaiting waiting decoding (seq :: pass.scheduledSeqs))
      (chargeAdmission memory seq costs pass)
      fun pass' s => pass'.scheduledSeqs = pass.scheduledSeqs ∧
        HoldsWaiting waiting decoding (seq :: pass.scheduledSeqs) s := by
  have hq := onQueues_holdsWaiting (σ := σ) (B := B) waiting decoding (seq :: pass.scheduledSeqs)
  refine Spec.bind (ask_onQueues hq _) fun _ => ?_
  refine Spec.bind (modifySeq_onQueues hq seq _) fun _ => ?_
  refine Spec.bind (ask_onQueues hq _) fun need => ?_
  exact Spec.bind (raiseIf_keeps _ _) fun _ => Spec.pure fun _ hs => ⟨rfl, hs⟩

theorem admitPrompt_holds (seq : SeqId) (pass : PrefillPass ν) :
    Returns (HoldsWaiting waiting decoding (seq :: pass.scheduledSeqs))
      (admitPrompt memory seq pass)
      fun out s => match out.1 with
        | none => HoldsWaiting waiting decoding out.2.scheduledSeqs s
        | some pass' => HoldsWaiting waiting decoding (seq :: pass'.scheduledSeqs) s := by
  have hq := onQueues_holdsWaiting (σ := σ) (B := B) waiting decoding (seq :: pass.scheduledSeqs)
  refine Spec.bind (ask_onQueues hq _) fun costs => ?_
  cases failedBudget pass.admissionBudgets costs with
  | none =>
    refine Spec.bind (chargeAdmission_holds memory seq costs pass) fun pass' =>
      Spec.pure fun s hs => ?_
    show HoldsWaiting waiting decoding (seq :: pass'.scheduledSeqs) s
    rw [hs.1]
    exact hs.2
  | some failure =>
    obtain ⟨name, need, free⟩ := failure
    refine Spec.bind (ask_onQueues hq _) fun action => Spec.ite (fun _ => ?_) fun _ => ?_
    · refine Spec.bind (appendWaiting_holds seq pass.scheduledSeqs) fun _ =>
        Spec.pure fun s hs => ?_
      show HoldsWaiting waiting decoding _ s
      split
      · exact hs
      · exact hs
    · exact Spec.throw fun _ _ => trivial

theorem prefillCandidate_holds (mode : PrefillExecutionMode) (seq : SeqId)
    (pass : PrefillPass ν) :
    Returns (HoldsWaiting waiting decoding (seq :: pass.scheduledSeqs))
      (prefillCandidate cfg memory mode seq pass)
      fun out => HoldsWaiting waiting decoding out.2.scheduledSeqs := by
  have hq := onQueues_holdsWaiting (σ := σ) (B := B) waiting decoding (seq :: pass.scheduledSeqs)
  refine Spec.bind (ask_onQueues hq _) fun remaining => ?_
  refine Spec.bind (ask_onQueues hq _) fun candidateFree => ?_
  refine Spec.bind (ask_onQueues hq _) fun fullStaging => ?_
  refine Spec.bind (raiseIf_keeps _ _) fun _ => ?_
  refine Spec.bind (respectMinFinalPrefillChunk_onQueues memory hq seq _ _) fun tokens => ?_
  refine Spec.ite (fun _ => ?_) fun _ => ?_
  · refine Spec.bind (blockPrefillCandidate_holds cfg mode seq _ _ pass) fun pass' => ?_
    exact Spec.pure fun _ hs => hs
  · refine Spec.bind (getSeq_onQueues seq) fun request => Spec.ite (fun _ => ?_) fun _ => ?_
    · refine Spec.bind (admitPrompt_holds memory seq pass) fun out => ?_
      obtain ⟨admitted, pass'⟩ := out
      cases admitted with
      | none => exact Spec.pure fun _ hs => hs
      | some pass'' => exact schedulePrefillChunk_holds memory mode seq tokens pass''
    · exact schedulePrefillChunk_holds memory mode seq tokens pass

variable [DecidableEq κ]

theorem prefillBucket_holds (margin : Int) (target : PrefillExecutionMode × κ) :
    ∀ budget pass, Returns (HoldsWaiting waiting decoding pass.scheduledSeqs)
      (prefillBucket cfg memory margin target budget pass)
      fun pass' => HoldsWaiting waiting decoding pass'.scheduledSeqs
  | 0, _ => Spec.pure fun _ hs => hs
  | budget + 1, pass => by
    refine Spec.bind (Spec.get fun _ hs => hs) fun s => Spec.ite (fun _ => ?_) fun _ => ?_
    · refine Spec.bind (popNextPrefillSeq_holds memory target _) fun popped => ?_
      cases popped with
      | none => exact Spec.pure fun _ hs => hs
      | some seq =>
        refine Spec.bind (prefillCandidate_holds cfg memory target.1 seq pass) fun out => ?_
        obtain ⟨step, pass'⟩ := out
        cases step with
        | «continue» => exact prefillBucket_holds margin target budget pass'
        | «break» => exact Spec.pure fun _ hs => hs
    · exact Spec.pure fun _ hs => hs

theorem prefillBuckets_holds (margin : Int) :
    ∀ targets pass, Returns (HoldsWaiting waiting decoding pass.scheduledSeqs)
      (prefillBuckets cfg memory margin targets pass)
      fun pass' => HoldsWaiting waiting decoding pass'.scheduledSeqs
  | [], _ => Spec.pure fun _ hs => hs
  | target :: rest, pass => by
    refine Spec.ite (fun _ => ?_) fun _ => ?_
    · refine Spec.bind (Spec.get fun _ hs => hs) fun s => ?_
      refine Spec.bind (prefillBucket_holds cfg memory margin target _ pass) fun pass' => ?_
      exact prefillBuckets_holds margin rest pass'
    · exact Spec.pure fun _ hs => hs

end Prefill

/-! ## The decode phase -/

section Decode

variable (cfg : SchedulerConfig) (memory : MemoryOracle ε σ B κ ν)
variable {waiting decoding : List SeqId}

theorem popDecodingAt_holds (idx : Nat) (held : List SeqId) :
    Returns (HoldsDecoding waiting decoding held) (popDecodingAt (ε := ε) (ν := ν) idx)
      fun popped (s : Scheduler σ B) => match popped with
        | none => HoldsDecoding waiting decoding held s
        | some seq => HoldsDecoding waiting decoding (seq :: held) s := by
  intro t ht
  unfold popDecodingAt
  rw [get_bind]
  cases hpop : popAt t.decoding idx with
  | none => exact ht
  | some entry =>
    obtain ⟨seq, rest⟩ := entry
    refine ⟨ht.1, ?_⟩
    have hperm : (held ++ t.decoding).Perm (held ++ seq :: rest) :=
      (popAt_perm hpop).append_left held
    exact (List.perm_middle.symm.trans hperm.symm).trans ht.2

theorem popNextDecodingSeq_holds (targetIsLong : Bool) (held : List SeqId) :
    Returns (HoldsDecoding waiting decoding held)
      (popNextDecodingSeq (ε := ε) (ν := ν) cfg targetIsLong)
      fun popped (s : Scheduler σ B) => match popped with
        | none => HoldsDecoding waiting decoding held s
        | some seq => HoldsDecoding waiting decoding (seq :: held) s := by
  refine Spec.bind (Spec.get fun _ hs => hs) fun s => ?_
  cases s.decoding.findIdx? fun seq => isLongText cfg (s.world.seqs seq) == targetIsLong with
  | none => exact Spec.pure fun _ hs => hs
  | some idx => exact popDecodingAt_holds idx held

theorem appendDecoding_holds (seq : SeqId) (held : List SeqId) :
    Returns (HoldsDecoding waiting decoding (seq :: held))
      (appendDecoding (ε := ε) (ν := ν) (σ := σ) (B := B) seq)
      fun _ => HoldsDecoding waiting decoding held := by
  refine Spec.modify fun s hs => ⟨hs.1, ?_⟩
  have hmove : (held ++ (s.decoding ++ [seq])).Perm (seq :: (held ++ s.decoding)) := by
    rw [← List.append_assoc]
    exact List.perm_append_singleton seq _
  exact hmove.trans hs.2

theorem forEach_modifySeq_onQueues {P : Scheduler σ B → Prop} (hP : OnQueues P)
    (f : Sequence B → Sequence B) (l : List SeqId) :
    Returns P (forEach l fun seq => modifySeq (ε := ε) (ν := ν) seq f) fun _ => P :=
  Spec.forEach (I := fun _ => P) (fun a _ => modifySeq_onQueues hP a f) l

theorem restartVictim_holds (victim : SeqId) (held : List SeqId) :
    Returns (HoldsDecoding waiting decoding held)
      (restartVictim (ε := ε) (ν := ν) (σ := σ) (B := B) victim)
      fun _ => HoldsDecoding waiting decoding held := by
  have hq := onQueues_holdsDecoding (σ := σ) (B := B) waiting decoding held
  refine Spec.bind (getSeq_onQueues victim) fun request => Spec.ite (fun _ => ?_) fun _ => ?_
  · exact Spec.bind (modifySeq_onQueues hq victim _) fun _ => Spec.modify fun _ hs => hs
  · exact modifySeq_onQueues hq victim _

theorem preemptDecodeVictim_conserves (victim : SeqId) (scheduled : List SeqId) :
    Returns (HoldsDecoding waiting decoding (victim :: scheduled))
      (preemptDecodeVictim memory victim scheduled)
      fun r => Conserved waiting decoding r := by
  have hq := onQueues_holdsDecoding (σ := σ) (B := B) waiting decoding (victim :: scheduled)
  refine Spec.bind (Spec.get fun _ hs => hs) fun s => ?_
  refine Spec.bind (raiseIf_keeps _ _) fun _ => ?_
  refine Spec.bind (restartVictim_holds victim _) fun _ => ?_
  refine Spec.bind (forEach_modifySeq_onQueues hq _ _) fun _ => ?_
  refine Spec.bind (ask_onQueues hq _) fun _ => ?_
  refine Spec.bind (ask_onQueues hq _) fun _ => ?_
  -- From here on the victim is at the tail of the waiting queue.
  let Moved (s : Scheduler σ B) : Prop :=
    s.waiting = waiting ++ [victim] ∧ (victim :: s.decoding).Perm decoding
  have hmoved : OnQueues Moved := fun _ _ h => h
  refine Spec.bind (R := fun _ s =>
      s.waiting = waiting ++ [victim] ∧ (victim :: scheduled ++ s.decoding).Perm decoding)
    (Spec.modify fun s hs => ⟨by rw [hs.1], hs.2⟩) fun _ => ?_
  refine Spec.bind (R := fun _ => Moved) (Spec.modify fun s hs => hs) fun _ => ?_
  refine Spec.bind (R := fun _ => Moved) (Spec.modify fun s hs => hs) fun _ => ?_
  refine Spec.bind (ask_onQueues hmoved _) fun _ => Spec.pure fun s hs => ?_
  exact Conserved.preempt victim waiting rfl rfl rfl hs.2 hs.1 (List.Perm.refl _)

/-- The decode loop ends with a batch held over the queue, or with a preemption. -/
def DecodeHolds (waiting decoding : List SeqId) (out : DecodeOutcome) (s : Scheduler σ B) : Prop :=
  match out with
  | .batch scheduled blocked =>
    HoldsDecoding waiting decoding scheduled s ∧ ∀ victim, blocked = some victim → victim ∈ decoding
  | .preempt r => Conserved waiting decoding r s

theorem decodeLoop_holds (targetIsLong : Bool) :
    ∀ budget numBatched logicalFree scheduled blocked,
      (∀ victim, blocked = some victim → victim ∈ decoding) →
      Returns (HoldsDecoding waiting decoding scheduled)
        (decodeLoop cfg memory targetIsLong budget numBatched logicalFree scheduled blocked)
        fun out => DecodeHolds waiting decoding out
  | 0, _, _, _, _, hb => Spec.pure fun _ hs => ⟨hs, hb⟩
  | budget + 1, numBatched, logicalFree, scheduled, blocked, hb => by
    refine Spec.bind (Spec.get fun _ hs => hs) fun s => Spec.ite (fun _ => ?_) fun _ => ?_
    · exact Spec.pure fun _ hs => ⟨hs, hb⟩
    refine Spec.bind (popNextDecodingSeq_holds cfg targetIsLong scheduled) fun popped => ?_
    cases popped with
    | none => exact Spec.pure fun _ hs => ⟨hs, hb⟩
    | some seq =>
      have hq := onQueues_holdsDecoding (σ := σ) (B := B) waiting decoding (seq :: scheduled)
      refine Spec.bind (ask_onQueues hq _) fun seqFree => ?_
      refine Spec.bind (ask_onQueues hq _) fun cost => ?_
      -- The popped request belongs to the old decode queue, so it may become the blocked one.
      refine Spec.intro fun t ht => ?_
      have hseq : seq ∈ decoding := ht.2.mem_iff.mp List.mem_cons_self
      have hb' : ∀ victim, (if blocked = none then some seq else blocked) = some victim →
          victim ∈ decoding := by
        intro victim hv
        split at hv
        · cases hv; exact hseq
        · exact hb victim hv
      refine Spec.pre ?_ fun u (hu : u = t) => (hu ▸ ht : HoldsDecoding _ _ _ u)
      refine Spec.ite (fun _ => Spec.ite (fun _ => ?_) fun _ => Spec.ite (fun hne => ?_) fun hne => ?_)
        fun _ => ?_
      · refine Spec.bind (appendDecoding_holds seq scheduled) fun _ => ?_
        exact decodeLoop_holds targetIsLong budget numBatched logicalFree scheduled _ hb'
      · refine Spec.bind (appendDecoding_holds seq scheduled) fun _ => ?_
        exact Spec.pure fun _ hs => ⟨hs, hb'⟩
      · refine Spec.bind (preemptDecodeVictim_conserves memory seq scheduled) fun r => ?_
        exact Spec.pure fun _ hs => hs
      · refine Spec.pre (decodeLoop_holds targetIsLong budget _ _ (scheduled ++ [seq]) blocked hb)
          fun s hs => ⟨hs.1, ?_⟩
        have hmove : (scheduled ++ [seq] ++ s.decoding).Perm
            (seq :: (scheduled ++ s.decoding)) := by
          rw [List.append_assoc]
          exact List.perm_middle
        exact hmove.trans hs.2

theorem finishEmptyPass_conserves (blocked : Option SeqId) (pass : PrefillPass ν)
    (hb : ∀ victim, blocked = some victim → victim ∈ decoding) :
    Returns (HoldsDecoding waiting decoding []) (finishEmptyPass memory blocked pass)
      fun r => Conserved waiting decoding r := by
  cases blocked with
  | some victim =>
    refine Spec.bind (R := fun _ => HoldsDecoding waiting decoding [victim])
      (Spec.modify fun s hs => ⟨hs.1, ?_⟩) fun _ => ?_
    · exact perm_cons_erase_of_perm hs.2 (hb victim rfl)
    · exact preemptDecodeVictim_conserves memory victim []
  | none =>
    refine Spec.bind (raiseStored_keeps _) fun _ => ?_
    refine Spec.bind (raiseStored_keeps _) fun _ => ?_
    refine Spec.bind (raiseStored_keeps _) fun _ => Spec.pure fun s hs => ?_
    refine Conserved.decode rfl rfl (hs.1 ▸ List.Perm.refl _) hs.2 List.nodup_nil ?_
    intro seq hseq
    exact absurd hseq List.not_mem_nil

theorem finishDecodeBatch_conserves (scheduled : List SeqId) (blocked : Option SeqId)
    (hnd : decoding.Nodup) (hb : ∀ victim, blocked = some victim → victim ∈ decoding) :
    Returns (HoldsDecoding waiting decoding scheduled)
      (finishDecodeBatch (ε := ε) (ν := ν) (σ := σ) (B := B) scheduled blocked)
      fun r => Conserved waiting decoding r := by
  -- After the batch is back at the head, the queue is a permutation of the old one that
  -- contains the batch; moving the blocked request to the front keeps both facts.
  let Back (s : Scheduler σ B) : Prop :=
    s.waiting = waiting ∧ s.decoding.Perm decoding ∧ scheduled.Nodup ∧
      ∀ seq ∈ scheduled, seq ∈ decoding
  refine Spec.bind (R := fun _ => Back) (Spec.modify fun s hs => ?_) fun _ => ?_
  · have hsub : scheduled.Sublist (scheduled ++ s.decoding) := List.sublist_append_left _ _
    refine ⟨hs.1, hs.2, hsub.nodup (hs.2.nodup_iff.mpr hnd), fun seq hseq => ?_⟩
    exact hs.2.mem_iff.mp (List.mem_append_left _ hseq)
  refine Spec.bind (R := fun _ => Back) ?_ fun _ => Spec.pure fun s hs => ?_
  · cases blocked with
    | none => exact Spec.pure fun _ hs => hs
    | some victim =>
      refine Spec.modify fun s hs => ⟨hs.1, ?_, hs.2.2⟩
      exact perm_cons_erase_of_perm hs.2.1 (hb victim rfl)
  · obtain ⟨hw, hd, hnodup, hmem⟩ := hs
    refine Conserved.decode rfl rfl (hw ▸ List.Perm.refl _) hd hnodup fun seq hseq => ?_
    exact hd.mem_iff.mpr (hmem seq hseq)

theorem decodePhase_conserves (decodeFree : Int) (pass : PrefillPass ν) (hnd : decoding.Nodup) :
    Returns (HoldsDecoding waiting decoding []) (decodePhase cfg memory decodeFree pass)
      fun r => Conserved waiting decoding r := by
  refine Spec.bind (Spec.get fun _ hs => hs) fun s => ?_
  refine Spec.bind (decodeLoop_holds cfg memory _ _ _ _ [] none fun _ h => by cases h)
    fun outcome => ?_
  cases outcome with
  | preempt r => exact Spec.pure fun _ hs => hs
  | batch scheduled blocked =>
    refine Spec.intro fun t ht => ?_
    obtain ⟨hold, hb⟩ := ht
    refine Spec.pre ?_ fun u (hu : u = t) => (hu ▸ hold : HoldsDecoding _ _ _ u)
    refine Spec.ite (fun hnil => ?_) fun _ => ?_
    · subst hnil
      exact finishEmptyPass_conserves memory blocked pass hb
    · exact finishDecodeBatch_conserves scheduled blocked hnd hb

end Decode

/-! ## The pass -/

section Pass

variable [DecidableEq κ] [DecidableEq ν]
variable (cfg : SchedulerConfig) (memory : MemoryOracle ε σ B κ ν)

theorem Conserved.of_perm {waiting waiting' decoding : List SeqId} {r : ScheduleResult}
    {s : Scheduler σ B} (h : Conserved waiting decoding r s) (hp : waiting.Perm waiting') :
    Conserved waiting' decoding r s := by
  cases h with
  | prefill batch none waits decodes => exact .prefill batch none (waits.trans hp) decodes
  | decode batch none waits decodes distinct queued =>
    exact .decode batch none (waits.trans hp) decodes distinct queued
  | preempt victim front batch empty one decodes waits others =>
    exact .preempt victim front batch empty one decodes waits (others.trans hp)

theorem scheduleImpl_conserves {waiting decoding : List SeqId} (hnd : decoding.Nodup) :
    Returns (fun s => s.waiting = waiting ∧ s.decoding = decoding) (scheduleImpl cfg memory)
      fun r => Conserved waiting decoding r := by
  have hq := onQueues_holdsWaiting (σ := σ) (B := B) waiting decoding []
  refine Spec.bind (Spec.pre (startPass_onQueues cfg memory hq) fun s hs => ?_) fun out => ?_
  · exact ⟨hs.1 ▸ List.Perm.refl _, hs.2⟩
  obtain ⟨pass, margin⟩ := out
  refine Spec.intro fun t ht => ?_
  obtain ⟨hempty, hold⟩ := ht
  simp only at hempty
  refine Spec.pre ?_ fun u (hu : u = t) =>
    (hu ▸ hold : HoldsWaiting waiting decoding [] u)
  refine Spec.bind (ask_onQueues hq _) fun decodeFree => ?_
  refine Spec.bind (passModes_onQueues memory hq) fun modes => ?_
  refine Spec.bind (R := fun pass' => HoldsWaiting waiting decoding pass'.scheduledSeqs) ?_
    fun pass' => ?_
  · have hbuckets : Returns (HoldsWaiting waiting decoding pass.scheduledSeqs)
        (prefillBuckets cfg memory margin modes pass)
        fun pass' => HoldsWaiting waiting decoding pass'.scheduledSeqs :=
      prefillBuckets_holds cfg memory margin modes pass
    rw [hempty] at hbuckets
    exact hbuckets
  refine Spec.ite (fun hnone => ?_) fun _ => Spec.pure fun s hs => ?_
  · -- Nothing was scheduled: the waiting queue is a permutation of the old one.
    refine Spec.intro fun u hu => ?_
    rw [hnone] at hu
    have hdec : Returns (HoldsDecoding u.waiting decoding [])
        (decodePhase cfg memory (max 0 decodeFree) pass') (Conserved u.waiting decoding) :=
      decodePhase_conserves cfg memory (max 0 decodeFree) pass' hnd
    refine (hdec.pre fun v (hv : v = u) => ?_).post fun r v hv => hv.of_perm hu.1
    subst hv
    exact ⟨rfl, hu.2 ▸ List.Perm.refl _⟩
  · exact Conserved.prefill rfl rfl hs.1 hs.2

theorem Conserved.with_world {waiting decoding : List SeqId} {r : ScheduleResult}
    {s : Scheduler σ B} (h : Conserved waiting decoding r s) (w : World σ B) :
    Conserved waiting decoding r { s with world := w } := by
  cases h with
  | prefill batch none waits decodes => exact .prefill batch none waits decodes
  | decode batch none waits decodes distinct queued =>
    exact .decode batch none waits decodes distinct queued
  | preempt victim front batch empty one decodes waits others =>
    exact .preempt victim front batch empty one decodes waits others

/-- **Scheduling neither loses nor duplicates a request**: whatever the memory oracle answers, a
call of `schedule` that returns leaves the queues as `Conserved` says. -/
theorem schedule_conserves {s t : Scheduler σ B} {r : ScheduleResult}
    (distinct : (s.waiting ++ s.decoding).Nodup)
    (returned : schedule cfg memory s = .ok r t) : Conserved s.waiting s.decoding r t := by
  have hnd : s.decoding.Nodup := (List.nodup_append.mp distinct).2.1
  unfold schedule at returned
  rw [bind_apply] at returned
  cases henter : ask (ν := ν) memory.enterCapacitySnapshot s with
  | error e s' => rw [henter] at returned; cases returned
  | ok a s' =>
    have hentered := ask_onQueues (ν := ν)
      (P := fun u : Scheduler σ B => u.waiting = s.waiting ∧ u.decoding = s.decoding)
      (fun _ _ h => h) memory.enterCapacitySnapshot s ⟨rfl, rfl⟩
    rw [henter] at returned hentered
    simp only at returned hentered
    have hpass := scheduleImpl_conserves cfg memory hnd s' hentered
    unfold andFinally at returned
    cases himpl : scheduleImpl cfg memory s' with
    | error e u =>
      rw [himpl] at returned
      simp only at returned
      split at returned <;> cases returned
    | ok r' u =>
      rw [himpl] at returned hpass
      simp only at returned hpass
      unfold ask at returned
      split at returned
      · rename_i heq
        split at heq
        · cases heq
          cases returned
          exact hpass.with_world _
        · cases heq
      · cases returned

end Pass

/-- An oracle with `free` slots and no other limit; prefix hits are disabled. -/
def flatOracle (free : Int) (B : Type) : MemoryOracle Unit Unit B Unit Unit where
  numFreeSlots := pure free
  prefillBatchedTokensMargin := pure 0
  remainingPrefillTokens seq := do
    let request := (← get).seqs seq
    return request.numPromptTokens - request.numPrefilledTokens
  prefillExecutionMode _ := pure .chunked
  prefillBatchCompatibilityKey _ := pure ()
  resetPrefillExecutionState _ := pure ()
  completePrefillExecution _ := pure ()
  reservedPrefillSlots _ _ := pure 0
  shouldScheduleFullPrefill _ := pure false
  prefillStepFreeSlots := pure free
  prefillStepFreeSlotsFor _ := pure free
  minFinalPrefillChunkSize _ := pure 0
  prefillStepReservationCost _ tokens := pure tokens
  decodeStepFreeSlots := pure free
  decodeStepFreeSlotsFor _ := pure free
  decodeStepReservationCost _ := pure 1
  promptAdmissionFreeSlots := pure free
  promptAdmissionBudgets _ _ := pure [((), free)]
  promptAdmissionCosts seq := do return [((), (((← get).seqs seq).numPromptTokens : Int))]
  promptLogicalReservationCost seq := do return ((← get).seqs seq).numPromptTokens
  promptAdmissionFailureAction := pure .defer
  onPromptAdmitted _ _ := pure ()
  prefixCacheHitRefresher _ := pure ()
  clearPrefixCacheHit seq := modify fun w => w.modifySeq seq Sequence.clearPrefixCacheHit
  freeSlotStats := pure ()
  enterCapacitySnapshot := pure ()
  exitCapacitySnapshot := pure ()

/-- A configuration with two-token prefill chunks. -/
def smallConfig : SchedulerConfig where
  maxNumSeqsInBatch := 2
  maxNumBatchedTokens := 4
  maxDecodingSeqs := 2
  enginePrefillChunkSize := 2
  sparseMethod := .vanilla
  sinkKeepTokens := 0
  recentKeepTokens := 0
  decodeKeepTokens := 0

/-- With four free slots the three-token prompt is scheduled and the two-token prompt deferred. -/
theorem schedule_conserves_flat :
    let s : Scheduler Unit Unit :=
      { world := ⟨(), fun seq => Sequence.ofPrompt (List.replicate (4 - seq) 7)⟩,
        waiting := [1, 2], decoding := [3] }
    ∃ t, schedule smallConfig (flatOracle 4 Unit) s = .ok ⟨[1], true, []⟩ t ∧
      Conserved s.waiting s.decoding ⟨[1], true, []⟩ t := by
  intro s
  have hrun : (schedule smallConfig (flatOracle 4 Unit)).run' s = some ⟨[1], true, []⟩ := by
    decide +kernel
  obtain ⟨t, hs⟩ := run'_eq_some.mp hrun
  exact ⟨t, hs, schedule_conserves _ _ (by decide) hs⟩

end SparseVllm
