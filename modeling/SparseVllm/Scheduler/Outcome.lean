import SparseVllm.Scheduler.Admission
import SparseVllm.Scheduler.Conservation

/-!
# What one scheduling pass does to the queues and the requests

`schedule` has four outcomes: a prefill batch, a decode batch, a preemption, nothing. `Outcome`
says for each what became of the queues (as in `Conservation`) and of every request, for a memory
oracle that writes nothing of the requests but their prefix hits (`WritesHitsOnly`):

* a request of a prefill batch has been given a chunk (`Chunked`), inside what the oracle says
  remains of its prompt;
* while a recompute replay waits, a prefill batch is one replay alone and the decode queue is empty;
* a sole decode is preempted only when a replay waits and it has progressed since its checkpoint;
* every other request is `Refreshed`: as it was, but for the prefix hit of one that has not started.

Results: `schedule_outcome`.
-/

namespace SparseVllm

open SparseVllm.Lib

variable {ε σ B κ ν : Type}

theorem World.seqs_modifySeq (w : World σ B) (seq q : SeqId) (g : Sequence B → Sequence B) :
    (w.modifySeq seq g).seqs q = if q = seq then g (w.seqs q) else w.seqs q := by
  unfold World.modifySeq
  by_cases h : q = seq
  · subst h
    rw [if_pos rfl]
    exact Function.update_self ..
  · rw [if_neg h]
    exact Function.update_of_ne h ..

/-! ## What the oracle may write -/

/-- The program leaves the requests alone. -/
def ReadsRequests {α : Type} (m : EStateM ε (World σ B) α) : Prop :=
  ∀ ⦃w w' a⦄, m w = .ok a w' → w'.seqs = w.seqs

/-- Write the prefix hit of a request. -/
def Sequence.withHit (request : Sequence B) (len count : Nat) (last : Option B) : Sequence B :=
  { request with
    prefixCacheHitLen := len
    prefixCacheHitBlockCount := count
    prefixCacheHitLastBlockId := last }

/-- The memory oracle writes nothing of the requests but their prefix hits, and those only where it
is asked to. -/
structure WritesHitsOnly (memory : MemoryOracle ε σ B κ ν) : Prop where
  numFreeSlots : ReadsRequests memory.numFreeSlots
  prefillBatchedTokensMargin : ReadsRequests memory.prefillBatchedTokensMargin
  remainingPrefillTokens : ∀ seq, ReadsRequests (memory.remainingPrefillTokens seq)
  prefillExecutionMode : ∀ seq, ReadsRequests (memory.prefillExecutionMode seq)
  prefillBatchCompatibilityKey : ∀ seq, ReadsRequests (memory.prefillBatchCompatibilityKey seq)
  resetPrefillExecutionState : ∀ seq, ReadsRequests (memory.resetPrefillExecutionState seq)
  completePrefillExecution : ∀ seq, ReadsRequests (memory.completePrefillExecution seq)
  reservedPrefillSlots : ∀ seqs chunk, ReadsRequests (memory.reservedPrefillSlots seqs chunk)
  shouldScheduleFullPrefill : ∀ seq, ReadsRequests (memory.shouldScheduleFullPrefill seq)
  prefillStepFreeSlots : ReadsRequests memory.prefillStepFreeSlots
  prefillStepFreeSlotsFor : ∀ seq, ReadsRequests (memory.prefillStepFreeSlotsFor seq)
  minFinalPrefillChunkSize : ∀ seq, ReadsRequests (memory.minFinalPrefillChunkSize seq)
  prefillStepReservationCost :
    ∀ seq tokens, ReadsRequests (memory.prefillStepReservationCost seq tokens)
  decodeStepFreeSlots : ReadsRequests memory.decodeStepFreeSlots
  decodeStepFreeSlotsFor : ∀ seq, ReadsRequests (memory.decodeStepFreeSlotsFor seq)
  decodeStepReservationCost : ∀ seq, ReadsRequests (memory.decodeStepReservationCost seq)
  promptAdmissionFreeSlots : ReadsRequests memory.promptAdmissionFreeSlots
  promptAdmissionBudgets : ∀ seqs chunk, ReadsRequests (memory.promptAdmissionBudgets seqs chunk)
  promptAdmissionCosts : ∀ seq, ReadsRequests (memory.promptAdmissionCosts seq)
  promptLogicalReservationCost : ∀ seq, ReadsRequests (memory.promptLogicalReservationCost seq)
  promptAdmissionFailureAction : ReadsRequests memory.promptAdmissionFailureAction
  onPromptAdmitted : ∀ seq costs, ReadsRequests (memory.onPromptAdmitted seq costs)
  freeSlotStats : ReadsRequests memory.freeSlotStats
  enterCapacitySnapshot : ReadsRequests memory.enterCapacitySnapshot
  exitCapacitySnapshot : ReadsRequests memory.exitCapacitySnapshot
  prefixCacheHitRefresher : ∀ {seq w w'}, memory.prefixCacheHitRefresher seq w = .ok () w' →
    ∃ len count last, w'.seqs = (w.modifySeq seq fun request => request.withHit len count last).seqs
  clearPrefixCacheHit : ∀ {seq w w'}, memory.clearPrefixCacheHit seq w = .ok () w' →
    w'.seqs = (w.modifySeq seq Sequence.clearPrefixCacheHit).seqs

/-! ## What a pass does to one request -/

/-- A prefix hit the refresher may have written; a cleared one is zero. -/
def WrittenHit (memory : MemoryOracle ε σ B κ ν) (len : Nat) : Prop :=
  len = 0 ∨ ∃ seq w w', memory.prefixCacheHitRefresher seq w = .ok () w' ∧
    (w'.seqs seq).prefixCacheHitLen = len

/-- The request as it was, but for its prefix hit if nothing of it has run. -/
def Refreshed (memory : MemoryOracle ε σ B κ ν) (a b : Sequence B) : Prop :=
  b = a ∨ (a.numPrefilledTokens = 0 ∧ a.numCompletionTokens = 0 ∧
    ∃ len count last, WrittenHit memory len ∧ b = a.withHit len count last)

section Refreshed

variable {memory : MemoryOracle ε σ B κ ν}

theorem Refreshed.refl (a : Sequence B) : Refreshed memory a a := Or.inl rfl

theorem Refreshed.trans {a b c : Sequence B} (h : Refreshed memory a b) (h' : Refreshed memory b c) :
    Refreshed memory a c := by
  rcases h with rfl | ⟨hp, hc, len, count, last, hlen, rfl⟩
  · exact h'
  · rcases h' with rfl | ⟨-, -, len', count', last', hlen', rfl⟩
    · exact Or.inr ⟨hp, hc, len, count, last, hlen, rfl⟩
    · exact Or.inr ⟨hp, hc, len', count', last', hlen', rfl⟩

end Refreshed

/-- The chunk a scheduled request is given; one that has not started begins at its prefix hit. -/
def Sequence.withChunk (request : Sequence B) (tokens : Nat) : Sequence B :=
  { (if request.numPrefilledTokens = 0 then request.startedAtPrefixHit else request) with
    currentChunkSize := some tokens
    status := .running }

/-- What the oracle answers for the tokens that remain of a request. -/
def Remains (memory : MemoryOracle ε σ B κ ν) (request : Sequence B) (tokens : Int) : Prop :=
  ∃ seq w w', memory.remainingPrefillTokens seq w = .ok tokens w' ∧ w.seqs seq = request

/-- The request has been given a chunk inside what remains of it. -/
def Chunked (memory : MemoryOracle ε σ B κ ν) (a b : Sequence B) : Prop :=
  ∃ (request : Sequence B) (remaining : Int) (tokens : Nat), Refreshed memory a request ∧
    Remains memory request remaining ∧ 0 < tokens ∧ tokens ≤ remaining ∧
    b = request.withChunk tokens

/-- The request after `_preempt_decode_victim`. -/
def Sequence.restarted (request : Sequence B) : Sequence B :=
  if 0 < request.numCompletionTokens then
    { request with status := .waiting }.startRecomputeReplay
  else { request with status := .waiting, numPrefilledTokens := 0 }.clearPrefixCacheHit

/-- The residency handoff to a surviving decode. -/
def Sequence.handedOff (request : Sequence B) : Sequence B :=
  { request with decodeProgressCheckpoint := request.numCompletionTokens }

/-! ## Programs that read the requests -/

/-- The predicate reads the queues and the requests, not the oracle's state. -/
def OnRequests (P : Scheduler σ B → Prop) : Prop :=
  ∀ s w, w.seqs = s.world.seqs → P s → P { s with world := w }

/-- The requests are `f`. -/
def Has (f : SeqId → Sequence B) (s : Scheduler σ B) : Prop := s.world.seqs = f

theorem onRequests_has (f : SeqId → Sequence B) : OnRequests (σ := σ) (Has f) :=
  fun _ _ hw h => hw.trans h

theorem OnRequests.and {P Q : Scheduler σ B → Prop} (hP : OnRequests P) (hQ : OnRequests Q) :
    OnRequests fun s => P s ∧ Q s :=
  fun s w hw h => ⟨hP s w hw h.1, hQ s w hw h.2⟩

theorem OnQueues.onRequests {P : Scheduler σ B → Prop} (hP : OnQueues P) : OnRequests P :=
  fun s w _ h => hP s w h

section Reads

variable {P : Scheduler σ B → Prop} {f : SeqId → Sequence B}

theorem ask_reads {α : Type} (hP : OnRequests P) {m : EStateM ε (World σ B) α}
    (hm : ReadsRequests m) : Returns P (ask (ν := ν) m) fun _ => P := by
  intro s hs
  unfold ask
  cases h : m s.world with
  | ok a w => exact hP s w (hm h) hs
  | error e w => trivial

theorem getSeq_has (seq : SeqId) :
    Returns (Has f) (getSeq (ε := ε) (ν := ν) (σ := σ) seq)
      fun request s => request = f seq ∧ Has f s := by
  rintro s rfl
  exact ⟨rfl, rfl⟩

theorem modifySeq_has (seq : SeqId) (g : Sequence B → Sequence B) :
    Returns (Has f) (modifySeq (ε := ε) (ν := ν) (σ := σ) seq g)
      fun _ => Has (Function.update f seq (g (f seq))) := by
  rintro s rfl
  rfl

variable {memory : MemoryOracle ε σ B κ ν} (hits : WritesHitsOnly memory)

include hits

theorem prefillBatchKey_reads (hP : OnRequests P) (seq : SeqId) :
    Returns P (prefillBatchKey memory seq) fun _ => P :=
  Spec.bind (ask_reads hP (hits.prefillExecutionMode seq)) fun _ =>
    Spec.bind (ask_reads hP (hits.prefillBatchCompatibilityKey seq)) fun _ =>
      Spec.pure fun _ hs => hs

/-- Every request is as in `f`, but for prefix hits of requests that have not started. -/
def AllRefreshed (memory : MemoryOracle ε σ B κ ν) (f : SeqId → Sequence B) (s : Scheduler σ B) : Prop :=
  ∀ seq, Refreshed memory (f seq) (s.world.seqs seq)

omit hits in
theorem onRequests_allRefreshed : OnRequests (σ := σ) (AllRefreshed memory f) := by
  intro s w hw h seq
  show Refreshed memory (f seq) (w.seqs seq)
  rw [hw]
  exact h seq

theorem refreshPrefillMetadata_refreshes (seq : SeqId) :
    Returns (AllRefreshed memory f) (refreshPrefillMetadata memory seq) fun _ => AllRefreshed memory f := by
  refine Spec.bind (R := fun request s => request = s.world.seqs seq ∧ AllRefreshed memory f s)
    (fun s hs => ⟨rfl, hs⟩) fun request => Spec.ite (fun hfresh => ?_) fun _ =>
      Spec.pure fun _ hs => hs.2
  rintro s ⟨rfl, hs⟩
  unfold ask
  cases h : memory.prefixCacheHitRefresher seq s.world with
  | error e w => trivial
  | ok a w =>
    obtain ⟨len, count, last, hw⟩ := hits.prefixCacheHitRefresher h
    intro q
    show Refreshed memory (f q) (w.seqs q)
    rw [hw, World.seqs_modifySeq]
    split
    · subst q
      have hlen : (w.seqs seq).prefixCacheHitLen = len := by
        rw [hw, World.seqs_modifySeq, if_pos rfl]
        rfl
      exact (hs seq).trans (Or.inr ⟨hfresh.1, hfresh.2, len, count, last,
        Or.inr ⟨seq, s.world, w, h, hlen⟩, rfl⟩)
    · exact hs q

theorem collectPrefillModes_refreshes [DecidableEq κ] (pending : Bool) :
    ∀ seqs modes, Returns (AllRefreshed memory f) (collectPrefillModes memory pending seqs modes)
      fun _ => AllRefreshed memory f
  | [], _ => Spec.pure fun _ hs => hs
  | seq :: rest, modes => by
    refine Spec.bind (R := fun _ => AllRefreshed memory f) (fun _ hs => hs) fun request =>
      Spec.ite (fun _ => ?_) fun _ => ?_
    · exact collectPrefillModes_refreshes pending rest modes
    · refine Spec.bind (refreshPrefillMetadata_refreshes hits seq) fun _ => ?_
      refine Spec.bind (prefillBatchKey_reads hits onRequests_allRefreshed seq) fun key => ?_
      exact collectPrefillModes_refreshes pending rest _

/-- Buckets are sought only when no replay waits behind a running decode. -/
theorem passModes_refreshes [DecidableEq κ] (waiting decoding : List SeqId) :
    Returns (fun s => Has f s ∧ s.waiting = waiting ∧ s.decoding = decoding) (passModes memory)
      fun modes s => AllRefreshed memory f s ∧
        (modes ≠ [] → (waiting.any fun seq => (f seq).isRecomputeReplay) = true → decoding = []) := by
  refine Spec.get_bind fun s hs => ?_
  obtain ⟨hf, rfl, rfl⟩ := hs
  have hpending : replayPending s = s.waiting.any fun seq => (f seq).isRecomputeReplay := by
    unfold replayPending
    rw [show s.world.seqs = f from hf]
  have hrefreshed : AllRefreshed memory f s := by
    intro q
    rw [show s.world.seqs = f from hf]
    exact .refl _
  refine Spec.ite (fun hgate => ?_) fun _ => Spec.pure fun t ht => ?_
  · have hdrained : (s.waiting.any fun seq => (f seq).isRecomputeReplay) = true →
        s.decoding = [] := by
      intro hp
      have hgate := hgate.2
      rw [hpending, hp, Bool.true_and, Bool.not_eq_false'] at hgate
      exact List.isEmpty_iff.mp hgate
    refine Spec.post (Spec.bind (R := fun _ => AllRefreshed memory f) (Spec.get fun t ht => ?_) fun t =>
      collectPrefillModes_refreshes hits _ _ _) fun modes t ht => ⟨ht, fun _ => hdrained⟩
    rw [ht]
    exact hrefreshed
  · subst ht
    exact ⟨hrefreshed, fun h => absurd rfl h⟩

/-- What `_pop_next_prefill_seq` finds is queued, and a replay if one waits. -/
theorem findPrefillSeq_finds [DecidableEq κ] (hP : OnRequests P) (pending : Bool)
    (target : PrefillExecutionMode × κ) :
    ∀ seqs idx, Returns (fun s => Has f s ∧ P s) (findPrefillSeq memory pending target seqs idx)
      fun found s => (Has f s ∧ P s) ∧ ∀ i, found = some i → ∃ k seq, i = idx + k ∧
        seqs[k]? = some seq ∧ (pending = true → (f seq).isRecomputeReplay = true)
  | [], _ => Spec.pure fun _ hs => ⟨hs, nofun⟩
  | seq :: rest, idx => by
    have hnext : Returns (fun s => Has f s ∧ P s) (findPrefillSeq memory pending target rest (idx + 1))
        fun found s => (Has f s ∧ P s) ∧ ∀ i, found = some i → ∃ k q, i = idx + k ∧
          (seq :: rest)[k]? = some q ∧ (pending = true → (f q).isRecomputeReplay = true) := by
      refine Spec.post (findPrefillSeq_finds hP pending target rest (idx + 1)) fun found s hs =>
        ⟨hs.1, fun i hi => ?_⟩
      obtain ⟨k, q, rfl, hk, hq⟩ := hs.2 i hi
      exact ⟨k + 1, q, by omega, hk, hq⟩
    refine Spec.bind (R := fun request s => request = f seq ∧ Has f s ∧ P s) ?_ fun request => ?_
    · rintro s ⟨hf, hs⟩
      exact ⟨congrFun hf seq, hf, hs⟩
    refine Spec.intro fun s hs => ?_
    obtain ⟨rfl, hs⟩ := hs
    have hstart : ∀ t, t = s → Has f t ∧ P t := fun t ht => ht ▸ hs
    refine Spec.ite (fun _ => hnext.pre hstart) fun hskip => ?_
    refine Spec.bind ((prefillBatchKey_reads hits ((onRequests_has f).and hP) seq).pre hstart)
      fun key => Spec.ite (fun _ => Spec.pure fun t ht => ⟨ht, fun i hi => ?_⟩) fun _ => hnext
    cases hi
    refine ⟨0, seq, rfl, rfl, fun hpending => ?_⟩
    exact (Bool.not_eq_false _).mp fun hplain => hskip ⟨hpending, hplain⟩

end Reads

/-! ## The prefill phase -/

section Prefill

variable {f : SeqId → Sequence B} {waiting decoding : List SeqId}

/-- The popped request is the one at the index. -/
theorem popAt_getElem? {queue rest : List SeqId} {idx : Nat} {seq : SeqId}
    (h : popAt queue idx = some (seq, rest)) (hidx : idx < queue.length) :
    queue[idx]? = some seq := by
  unfold popAt at h
  split at h
  · subst idx
    cases queue with
    | nil => cases h
    | cons x xs =>
      obtain ⟨rfl, -⟩ : x = seq ∧ xs = rest := by simpa using h
      rfl
  · have hhead := List.head?_rotate hidx
    cases hq : queue.rotate idx with
    | nil => rw [hq] at h; cases h
    | cons x xs =>
      rw [hq] at h hhead
      obtain ⟨rfl, -⟩ : x = seq ∧ xs.rotate (xs.length - idx) = rest := by simpa using h
      exact hhead.symm

theorem popWaitingAt_pops {queue : List SeqId} {idx : Nat} {seq : SeqId}
    (h : queue[idx]? = some seq) :
    Returns (fun s => Has f s ∧ s.waiting = queue) (popWaitingAt (ε := ε) (ν := ν) (σ := σ) idx)
      fun popped s => Has f s ∧ ∀ q, popped = some q → q = seq := by
  refine Spec.get_bind fun s hs => ?_
  obtain ⟨hf, rfl⟩ := hs
  have hidx : idx < s.waiting.length := (List.getElem?_eq_some_iff.mp h).1
  cases hpop : popAt s.waiting idx with
  | none => exact Spec.pure fun t ht => ⟨ht ▸ hf, nofun⟩
  | some entry =>
    obtain ⟨q, rest⟩ := entry
    rintro t rfl
    refine ⟨hf, fun q' hq' => ?_⟩
    cases hq'
    exact Option.some.inj ((popAt_getElem? hpop hidx).symm.trans h)

variable {memory : MemoryOracle ε σ B κ ν} (hits : WritesHitsOnly memory)

include hits

/-- A popped request is a replay if one waits. -/
theorem popNextPrefillSeq_pops [DecidableEq κ] (target : PrefillExecutionMode × κ)
    (held : List SeqId) :
    Returns (fun s => Has f s ∧ HoldsWaiting waiting decoding held s)
      (popNextPrefillSeq memory target)
      fun popped s => Has f s ∧ ∀ seq, popped = some seq → held = [] →
        (waiting.any fun q => (f q).isRecomputeReplay) = true →
        (f seq).isRecomputeReplay = true := by
  refine Spec.get_bind fun s hs => ?_
  obtain ⟨hf, hwaits, -⟩ := hs
  have hpending : replayPending s = s.waiting.any fun q => (f q).isRecomputeReplay := by
    unfold replayPending
    rw [show s.world.seqs = f from hf]
  have hqueue : OnRequests (σ := σ) (B := B) fun t => t.waiting = s.waiting := fun _ _ _ h => h
  refine Spec.bind ((findPrefillSeq_finds (f := f) hits hqueue (replayPending s) target s.waiting 0).pre
    fun t ht => ?_) fun found => ?_
  · subst ht
    exact ⟨hf, rfl⟩
  cases found with
  | none => exact Spec.pure fun t ht => ⟨ht.1.1, nofun⟩
  | some idx =>
    refine Spec.intro fun t ht => ?_
    obtain ⟨⟨hft, hwt⟩, hfound⟩ := ht
    obtain ⟨k, seq, hidx, hseq, hreplay⟩ := hfound idx rfl
    obtain rfl : idx = k := by omega
    refine ((popWaitingAt_pops hseq).pre fun u hu => ?_).post fun popped u hu =>
      ⟨hu.1, fun q hq hheld hany => ?_⟩
    · subst hu
      exact ⟨hft, hwt⟩
    · obtain rfl := hu.2 q hq
      refine hreplay ?_
      subst hheld
      rw [hpending, List.any_eq_true]
      obtain ⟨r, hr, hrr⟩ := List.any_eq_true.mp hany
      exact ⟨r, hwaits.mem_iff.mpr hr, hrr⟩

omit hits in
theorem blockPrefillCandidate_has (cfg : SchedulerConfig) (mode : PrefillExecutionMode)
    (seq : SeqId) (remaining candidateFree : Int) (pass : PrefillPass ν) :
    Returns (Has f) (blockPrefillCandidate (ε := ε) (σ := σ) cfg mode seq remaining candidateFree pass)
      fun pass' s => pass'.scheduledSeqs = pass.scheduledSeqs ∧ Has f s := by
  refine Spec.bind (R := fun _ => Has f) (Spec.modify fun s hs => hs) fun _ =>
    Spec.pure fun s hs => ⟨?_, hs⟩
  split <;> split <;> rfl

omit hits in
theorem prefillStepTokens_le (cfg : SchedulerConfig) (mode : PrefillExecutionMode)
    {remaining numBatchedTokens stepFree : Int} (hpos : 0 < remaining) :
    prefillStepTokens cfg mode remaining numBatchedTokens stepFree ≤ remaining := by
  unfold prefillStepTokens
  cases mode with
  | full =>
    show (if _ then remaining else 0) ≤ remaining
    split <;> omega
  | chunked => exact Int.min_le_left ..
  | rawOffload => exact Int.min_le_left ..

theorem respectMinFinalPrefillChunk_le {seq : SeqId} {remaining proposed : Int}
    (hpos : 0 < remaining) (hle : proposed ≤ remaining) :
    Returns (Has f) (respectMinFinalPrefillChunk memory seq remaining proposed)
      fun tokens s => tokens ≤ remaining ∧ Has f s := by
  refine Spec.bind (ask_reads (onRequests_has f) (hits.minFinalPrefillChunkSize seq))
    fun minFinal => Spec.raiseIf_bind (fun _ _ _ => trivial) fun hmin => ?_
  refine Spec.ite (fun _ => Spec.pure fun s hs => ⟨hle, hs⟩) fun _ => Spec.pure fun s hs => ⟨?_, hs⟩
  omega

theorem schedulePrefillChunk_has (mode : PrefillExecutionMode) (seq : SeqId) (tokens : Int)
    (pass : PrefillPass ν) :
    Returns (Has f) (schedulePrefillChunk memory mode seq tokens pass)
      fun out s => out.2.scheduledSeqs = pass.scheduledSeqs ++ [seq] ∧
        Has (Function.update f seq
          { f seq with currentChunkSize := some tokens.toNat, status := .running }) s := by
  refine Spec.bind (modifySeq_has seq _) fun _ => ?_
  refine Spec.bind (ask_reads (onRequests_has _) (hits.prefillStepReservationCost seq tokens))
    fun cost => ?_
  refine Spec.bind (modifySeq_has seq _) fun _ => Spec.pure fun s hs => ⟨rfl, ?_⟩
  rw [Function.update_self, Function.update_idem] at hs
  exact hs

variable [DecidableEq ν]

theorem chargeAdmission_has (seq : SeqId) (costs : List (ν × Int)) (pass : PrefillPass ν) :
    Returns (Has f) (chargeAdmission memory seq costs pass)
      fun pass' s => pass'.scheduledSeqs = pass.scheduledSeqs ∧
        Has (Function.update f seq (f seq).startedAtPrefixHit) s := by
  refine Spec.bind (ask_reads (onRequests_has f) (hits.onPromptAdmitted seq costs)) fun _ => ?_
  refine Spec.bind (modifySeq_has seq Sequence.startedAtPrefixHit) fun _ => ?_
  refine Spec.bind (ask_reads (onRequests_has _) (hits.promptLogicalReservationCost seq))
    fun need => ?_
  exact Spec.raiseIf_bind (fun _ _ _ => trivial) fun _ => Spec.pure fun s hs => ⟨rfl, hs⟩

theorem admitPrompt_has (seq : SeqId) (pass : PrefillPass ν) :
    Returns (Has f) (admitPrompt memory seq pass)
      fun out s => match out.1 with
        | none => out.2.scheduledSeqs = pass.scheduledSeqs ∧ Has f s
        | some pass' => pass'.scheduledSeqs = pass.scheduledSeqs ∧
            Has (Function.update f seq (f seq).startedAtPrefixHit) s := by
  refine Spec.bind (ask_reads (onRequests_has f) (hits.promptAdmissionCosts seq)) fun costs => ?_
  cases failedBudget pass.admissionBudgets costs with
  | none =>
    exact Spec.bind (chargeAdmission_has hits seq costs pass) fun pass' => Spec.pure fun s hs => hs
  | some failure =>
    obtain ⟨name, need, free⟩ := failure
    refine Spec.bind (ask_reads (onRequests_has f) hits.promptAdmissionFailureAction)
      fun action => Spec.ite (fun _ => ?_) fun _ => Spec.throw fun _ _ => trivial
    refine Spec.bind (R := fun _ => Has f) (Spec.modify fun s hs => hs) fun _ =>
      Spec.pure fun s hs => ⟨?_, hs⟩
    simp only
    split <;> rfl

/-- A candidate is put back as it was, or scheduled with a chunk inside what remains of it. -/
theorem prefillCandidate_has (cfg : SchedulerConfig) (mode : PrefillExecutionMode) (seq : SeqId)
    (pass : PrefillPass ν) :
    Returns (Has f) (prefillCandidate cfg memory mode seq pass)
      fun out s => (out.2.scheduledSeqs = pass.scheduledSeqs ∧ Has f s) ∨
        ∃ (remaining : Int) (tokens : Nat), Remains memory (f seq) remaining ∧ 0 < tokens ∧
          tokens ≤ remaining ∧ out.2.scheduledSeqs = pass.scheduledSeqs ++ [seq] ∧
          Has (Function.update f seq ((f seq).withChunk tokens)) s := by
  refine Spec.bind (R := fun remaining s => Remains memory (f seq) remaining ∧ Has f s) ?_
    fun remaining => ?_
  · intro s hs
    have hkeep := ask_reads (ν := ν) (onRequests_has f) (hits.remainingPrefillTokens seq) s hs
    cases h : ask (ν := ν) (memory.remainingPrefillTokens seq) s with
    | error e t => trivial
    | ok r t =>
      rw [h] at hkeep
      exact ⟨⟨seq, s.world, t.world, ask_ok h, congrFun hs seq⟩, hkeep⟩
  refine Spec.intro fun s hs => ?_
  obtain ⟨hremains, hf⟩ := hs
  refine Spec.pre ?_ fun t ht => (ht ▸ hf : Has f t)
  refine Spec.bind (ask_reads (onRequests_has f) (hits.prefillStepFreeSlotsFor seq))
    fun candidateFree => ?_
  refine Spec.bind (ask_reads (onRequests_has f) (hits.shouldScheduleFullPrefill seq))
    fun fullStaging => ?_
  refine Spec.raiseIf_bind (fun _ _ _ => trivial) fun hpos => ?_
  refine Spec.bind (respectMinFinalPrefillChunk_le hits (by omega) ?_) fun tokens =>
    Spec.intro fun u hu => ?_
  · exact prefillStepTokens_le cfg mode (by omega)
  obtain ⟨hle, hfu⟩ := hu
  refine Spec.pre ?_ fun t ht => (ht ▸ hfu : Has f t)
  refine Spec.ite (fun _ => ?_) fun hsome => ?_
  · exact Spec.bind (blockPrefillCandidate_has cfg mode seq _ _ pass) fun pass' =>
      Spec.pure fun t ht => Or.inl ht
  have htokens : 0 < tokens.toNat ∧ (tokens.toNat : Int) ≤ remaining := by omega
  refine Spec.bind (getSeq_has seq) fun request => Spec.intro fun t ht => ?_
  obtain ⟨rfl, hft⟩ := ht
  refine Spec.pre ?_ fun u hu => (hu ▸ hft : Has f u)
  refine Spec.ite (fun hnew => ?_) fun hstarted => ?_
  · refine Spec.bind (admitPrompt_has hits seq pass) fun out => ?_
    obtain ⟨admitted, pass'⟩ := out
    cases admitted with
    | none => exact Spec.pure fun u hu => Or.inl hu
    | some admitted =>
      refine Spec.intro fun u hu => ?_
      obtain ⟨hsched, hfu⟩ := hu
      refine ((schedulePrefillChunk_has hits mode seq tokens admitted).pre fun v hv =>
        (hv ▸ hfu : Has _ v)).post fun out v hv => Or.inr ⟨remaining, tokens.toNat, hremains,
          htokens.1, htokens.2, hv.1.trans (by rw [hsched]), ?_⟩
      have hchunk := hv.2
      rw [Function.update_self, Function.update_idem] at hchunk
      unfold Sequence.withChunk
      rw [if_pos hnew]
      exact hchunk
  · refine (schedulePrefillChunk_has hits mode seq tokens pass).post fun out v hv =>
      Or.inr ⟨remaining, tokens.toNat, hremains, htokens.1, htokens.2, hv.1, ?_⟩
    unfold Sequence.withChunk
    rw [if_neg hstarted]
    exact hv.2

/-- The requests of a pass that started with `f`: those in hand have a chunk. -/
def Scheduled (memory : MemoryOracle ε σ B κ ν) (f : SeqId → Sequence B) (held : List SeqId)
    (s : Scheduler σ B) : Prop :=
  ∀ seq, if seq ∈ held then Chunked memory (f seq) (s.world.seqs seq)
    else Refreshed memory (f seq) (s.world.seqs seq)

/-- A replay is scheduled alone. -/
def Serial (f : SeqId → Sequence B) (waiting held : List SeqId) : Prop :=
  held = [] ∨ (waiting.any fun seq => (f seq).isRecomputeReplay) = false ∨
    ∃ seq, held = [seq] ∧ (f seq).isRecomputeReplay = true

/-- What holds between two candidates of the prefill phase. -/
structure InPrefill (memory : MemoryOracle ε σ B κ ν) (f : SeqId → Sequence B)
    (waiting decoding held : List SeqId) (s : Scheduler σ B) : Prop where
  queues : HoldsWaiting waiting decoding held s
  scheduled : Scheduled memory f held s
  serial : Serial f waiting held

omit hits [DecidableEq ν] in
theorem Refreshed.isRecomputeReplay {a b : Sequence B} (h : Refreshed memory a b) :
    b.isRecomputeReplay = a.isRecomputeReplay := by
  rcases h with rfl | ⟨-, -, _, _, _, -, rfl⟩
  · rfl
  · rfl

omit hits [DecidableEq ν] in
theorem Chunked.isRecomputeReplay {a b : Sequence B} (h : Chunked memory a b) :
    b.isRecomputeReplay = a.isRecomputeReplay := by
  obtain ⟨request, remaining, tokens, href, -, -, -, rfl⟩ := h
  rw [← href.isRecomputeReplay]
  unfold Sequence.withChunk Sequence.startedAtPrefixHit
  split
  · split <;> rfl
  · rfl

omit hits [DecidableEq ν] in
theorem Scheduled.isRecomputeReplay {held : List SeqId} {s : Scheduler σ B}
    (h : Scheduled memory f held s) (seq : SeqId) :
    (s.world.seqs seq).isRecomputeReplay = (f seq).isRecomputeReplay := by
  have hseq := h seq
  split at hseq
  · exact hseq.isRecomputeReplay
  · exact hseq.isRecomputeReplay

/-- One candidate: popped, then put back or scheduled. -/
theorem prefillCandidate_keeps (cfg : SchedulerConfig) (mode : PrefillExecutionMode)
    {pass : PrefillPass ν} {seq : SeqId} {s : Scheduler σ B} (hnd : waiting.Nodup)
    (hqueues : HoldsWaiting waiting decoding (seq :: pass.scheduledSeqs) s)
    (hsched : Scheduled memory f pass.scheduledSeqs s)
    (hserial : Serial f waiting pass.scheduledSeqs)
    (hjoin : Serial f waiting (pass.scheduledSeqs ++ [seq])) :
    Returns (· = s) (prefillCandidate cfg memory mode seq pass)
      fun out t => InPrefill memory f waiting decoding out.2.scheduledSeqs t := by
  have hfresh : seq ∉ pass.scheduledSeqs := by
    have := (hqueues.1.nodup_iff.mpr hnd)
    rw [List.cons_append, List.nodup_cons] at this
    exact fun h => this.1 (List.mem_append_left _ h)
  have hmoves : Returns (· = s) (prefillCandidate cfg memory mode seq pass)
      fun out => HoldsWaiting waiting decoding out.2.scheduledSeqs :=
    (prefillCandidate_holds cfg memory mode seq pass).pre fun t ht => by subst ht; exact hqueues
  have hrequests := (prefillCandidate_has (f := s.world.seqs) hits cfg mode seq pass).pre
    fun t (ht : t = s) => (ht ▸ rfl : Has s.world.seqs t)
  refine (Returns.and hmoves hrequests).post fun out t ht => ?_
  obtain ⟨hqueues', ⟨hsame, hhas⟩ | ⟨remaining, tokens, hremains, hpos, hle, hadd, hhas⟩⟩ := ht
  · rw [hsame] at hqueues' ⊢
    refine ⟨hqueues', fun q => ?_, hserial⟩
    rw [show t.world.seqs = s.world.seqs from hhas]
    exact hsched q
  · rw [hadd] at hqueues' ⊢
    refine ⟨hqueues', fun q => ?_, hjoin⟩
    rw [show t.world.seqs = _ from hhas]
    have hq := hsched q
    by_cases hqs : q = seq
    · subst hqs
      rw [if_neg hfresh] at hq
      rw [if_pos (List.mem_append_right _ List.mem_cons_self), Function.update_self]
      exact ⟨_, remaining, tokens, hq, hremains, hpos, hle, rfl⟩
    · rw [Function.update_of_ne hqs]
      by_cases hmem : q ∈ pass.scheduledSeqs
      · rw [if_pos hmem] at hq
        rw [if_pos (List.mem_append_left _ hmem)]
        exact hq
      · rw [if_neg hmem] at hq
        rw [if_neg, ]
        · exact hq
        · simpa [hmem] using hqs

variable [DecidableEq κ]

/-- The induction is on the scan budget; a replay in hand ends the bucket. -/
theorem prefillBucket_keeps (cfg : SchedulerConfig) (margin : Int)
    (target : PrefillExecutionMode × κ) (hnd : waiting.Nodup) :
    ∀ budget (pass : PrefillPass ν),
      Returns (InPrefill memory f waiting decoding pass.scheduledSeqs)
        (prefillBucket cfg memory margin target budget pass)
        fun pass' => InPrefill memory f waiting decoding pass'.scheduledSeqs
  | 0, _ => Spec.pure fun _ hs => hs
  | budget + 1, pass => by
    refine Spec.get_bind fun s hs => Spec.ite (fun hcontinue => ?_) fun _ =>
      Spec.pure fun t ht => ht ▸ hs
    have hnoReplay : ∀ seq ∈ pass.scheduledSeqs, (f seq).isRecomputeReplay = false := by
      intro seq hseq
      unfold canContinuePrefillBatch at hcontinue
      split at hcontinue
      · cases hcontinue
      · split at hcontinue
        · cases hcontinue
        · rename_i hany
          rw [List.any_eq_true, not_exists] at hany
          rw [← hs.scheduled.isRecomputeReplay seq]
          exact (Bool.not_eq_true _).mp fun h => hany seq ⟨hseq, h⟩
    have hmoves := (popNextPrefillSeq_holds memory target pass.scheduledSeqs).pre
      fun t (ht : t = s) => (by subst ht; exact hs.queues :
        HoldsWaiting waiting decoding pass.scheduledSeqs t)
    have hpops := (popNextPrefillSeq_pops (f := s.world.seqs) hits target pass.scheduledSeqs).pre
      fun t (ht : t = s) => (by subst ht; exact ⟨rfl, hs.queues⟩ :
        Has s.world.seqs t ∧ HoldsWaiting waiting decoding pass.scheduledSeqs t)
    refine Spec.bind (Returns.and hmoves hpops) fun popped => ?_
    cases popped with
    | none =>
      refine Spec.pure fun t ht => ⟨ht.1, fun q => ?_, hs.serial⟩
      rw [show t.world.seqs = s.world.seqs from ht.2.1]
      exact hs.scheduled q
    | some seq =>
      refine Spec.intro fun t ht => ?_
      obtain ⟨hqueues, hhas, hreplay⟩ := ht
      have hsched : Scheduled memory f pass.scheduledSeqs t := by
        intro q
        rw [show t.world.seqs = s.world.seqs from hhas]
        exact hs.scheduled q
      have hany : (waiting.any fun q => (s.world.seqs q).isRecomputeReplay) =
          waiting.any fun q => (f q).isRecomputeReplay := by
        congr 1
        funext q
        exact hs.scheduled.isRecomputeReplay q
      have hjoin : Serial f waiting (pass.scheduledSeqs ++ [seq]) := by
        by_cases hpending : (waiting.any fun q => (f q).isRecomputeReplay) = true
        · rcases hs.serial with hnil | hplain | ⟨q, hq, hqr⟩
          · refine Or.inr (Or.inr ⟨seq, by rw [hnil]; rfl, ?_⟩)
            rw [← hs.scheduled.isRecomputeReplay seq]
            exact hreplay seq rfl hnil (hany.trans hpending)
          · rw [hpending] at hplain
            cases hplain
          · have := hnoReplay q (hq ▸ List.mem_cons_self)
            rw [hqr] at this
            cases this
        · exact Or.inr (Or.inl ((Bool.not_eq_true _).mp hpending))
      refine Spec.bind (prefillCandidate_keeps hits cfg target.1 hnd hqueues hsched hs.serial hjoin)
        fun out => ?_
      obtain ⟨step, pass'⟩ := out
      cases step with
      | «continue» => exact prefillBucket_keeps cfg margin target hnd budget pass'
      | «break» => exact Spec.pure fun _ hs => hs

theorem prefillBuckets_keeps (cfg : SchedulerConfig) (margin : Int) (hnd : waiting.Nodup) :
    ∀ targets (pass : PrefillPass ν),
      Returns (InPrefill memory f waiting decoding pass.scheduledSeqs)
        (prefillBuckets cfg memory margin targets pass)
        fun pass' => InPrefill memory f waiting decoding pass'.scheduledSeqs
  | [], _ => Spec.pure fun _ hs => hs
  | target :: rest, pass => by
    refine Spec.ite (fun _ => Spec.get_bind fun s hs => ?_) fun _ => Spec.pure fun _ hs => hs
    refine Spec.bind ((prefillBucket_keeps hits cfg margin target hnd _ pass).pre fun t ht => ?_)
      fun pass' => prefillBuckets_keeps cfg margin hnd rest pass'
    subst ht
    exact hs

end Prefill

/-! ## The decode phase -/

section Decode

variable {f : SeqId → Sequence B} {waiting decoding : List SeqId}

/-- The requests after the residency handoff to `survivors`. -/
def handOff (f : SeqId → Sequence B) (survivors : List SeqId) : SeqId → Sequence B :=
  fun seq => if seq ∈ survivors then (f seq).handedOff else f seq

/-- What a preemption has done to requests that were `f`. -/
inductive Preempted (f : SeqId → Sequence B) (waiting : List SeqId) (r : ScheduleResult)
    (s : Scheduler σ B) : Prop where
  | mk (victim : SeqId) (result : r = ⟨[], false, [victim]⟩)
      (requests : s.world.seqs =
        Function.update (handOff f s.decoding) victim (f victim).restarted)
      (guard : 0 < (f victim).numCompletionTokens → s.decoding = [] →
        (waiting.any fun seq => (f seq).isRecomputeReplay) = true ∧
          (f victim).decodeProgressCheckpoint < (f victim).numCompletionTokens)

theorem forEach_handOff :
    ∀ (survivors : List SeqId) (f : SeqId → Sequence B),
      Returns (Has f) (forEach survivors fun survivor =>
        modifySeq (ε := ε) (ν := ν) (σ := σ) survivor fun request =>
          { request with decodeProgressCheckpoint := request.numCompletionTokens })
        fun _ => Has (handOff f survivors)
  | [], f => Spec.pure fun s hs => by
    rw [show handOff f [] = f from funext fun q => if_neg List.not_mem_nil]
    exact hs
  | survivor :: rest, f => by
    refine Spec.bind (modifySeq_has survivor _) fun _ => (forEach_handOff rest _).post fun _ s hs => ?_
    have heq : handOff (Function.update f survivor (f survivor).handedOff) rest =
        handOff f (survivor :: rest) := by
      funext q
      unfold handOff
      by_cases hq : q = survivor
      · subst hq
        rw [if_pos List.mem_cons_self, Function.update_self]
        split <;> rfl
      · rw [Function.update_of_ne hq]
        simp only [List.mem_cons, hq, false_or]
    rw [← heq]
    exact hs

variable {memory : MemoryOracle ε σ B κ ν} (hits : WritesHitsOnly memory)

include hits

theorem preemptDecodeVictim_preempts {victim : SeqId} (hvictim : victim ∉ decoding) :
    Returns (fun s => Has f s ∧ s.waiting = waiting ∧ s.decoding = decoding)
      (preemptDecodeVictim memory victim []) fun r => Preempted f waiting r := by
  refine Spec.get_bind fun s hs => ?_
  obtain ⟨hf, rfl, rfl⟩ := hs
  have hpending : replayPending s = s.waiting.any fun seq => (f seq).isRecomputeReplay := by
    unfold replayPending
    rw [show s.world.seqs = f from hf]
  have hrequest : s.world.seqs victim = f victim := congrFun hf victim
  refine Spec.raiseIf_bind (fun _ _ _ => trivial) fun hguard => ?_
  have hguard : 0 < (f victim).numCompletionTokens → s.decoding = [] →
      (s.waiting.any fun seq => (f seq).isRecomputeReplay) = true ∧
        (f victim).decodeProgressCheckpoint < (f victim).numCompletionTokens := by
    intro hcompletion hsole
    rw [hrequest, hpending] at hguard
    rw [← decide_eq_true_iff (p := _ < _), ← Bool.and_eq_true]
    exact (Bool.not_eq_false _).mp fun hblocked => hguard ⟨hcompletion, hsole, hblocked⟩
  -- The queues do not move until the victim is appended to the waiting queue.
  let At (g : SeqId → Sequence B) (t : Scheduler σ B) : Prop := Has g t ∧ t.decoding = s.decoding
  have hat : ∀ g, OnRequests (At g) := fun g => (onRequests_has g).and fun _ _ _ h => h
  let restart (request : Sequence B) : Sequence B :=
    if 0 < request.numCompletionTokens then { request with status := .waiting }.startRecomputeReplay
    else { request with status := .waiting, numPrefilledTokens := 0 }
  have hmodify : ∀ g seq change, Returns (At g)
      (modifySeq (ε := ε) (ν := ν) (σ := σ) seq change)
      fun _ => At (Function.update g seq (change (g seq))) := by
    rintro g seq change t ⟨rfl, hd⟩
    exact ⟨rfl, hd⟩
  refine Spec.bind (R := fun _ => At (Function.update f victim (restart (f victim)))) ?_ fun _ => ?_
  · refine Spec.bind (R := fun request t => request = f victim ∧ At f t) ?_ fun request =>
      Spec.intro fun t ht => ?_
    · rintro t rfl
      exact ⟨hrequest, hf, rfl⟩
    obtain ⟨rfl, ht⟩ := ht
    refine Spec.pre ?_ fun u hu => (hu ▸ ht : At f u)
    refine Spec.ite (fun hcompletion => ?_) fun hnone => ?_
    · rw [show restart (f victim) = _ from if_pos hcompletion]
      exact Spec.bind (hmodify f victim _) fun _ => Spec.modify fun u hu => hu
    · rw [show restart (f victim) = _ from if_neg hnone]
      exact hmodify f victim _
  refine Spec.bind (R := fun _ =>
    At (handOff (Function.update f victim (restart (f victim))) s.decoding)) ?_ fun _ => ?_
  · refine (Returns.and ((forEach_handOff s.decoding _).pre fun t ht => ht.1)
      (Spec.pre (forEach_modifySeq_onQueues (P := fun t => t.decoding = s.decoding)
        (fun _ _ h => h) _ _) fun t ht => ht.2)).post fun _ t ht => ht
  refine Spec.bind (R := fun _ => At (Function.update (handOff f s.decoding) victim
    (f victim).restarted)) ?_ fun _ => ?_
  · intro t ht
    unfold ask
    cases h : memory.clearPrefixCacheHit victim t.world with
    | error e w => trivial
    | ok a w =>
      refine ⟨?_, ht.2⟩
      show w.seqs = _
      rw [hits.clearPrefixCacheHit h]
      funext q
      rw [World.seqs_modifySeq, show t.world.seqs = _ from ht.1]
      by_cases hq : q = victim
      · subst hq
        rw [if_pos rfl, Function.update_self]
        unfold handOff
        rw [if_neg hvictim, Function.update_self]
        show (restart (f q)).clearPrefixCacheHit = (f q).restarted
        simp only [restart, Sequence.restarted]
        split <;> rfl
      · rw [if_neg hq, Function.update_of_ne hq]
        unfold handOff
        rw [Function.update_of_ne hq]
  refine Spec.bind (ask_reads (hat _) (hits.resetPrefillExecutionState victim)) fun _ => ?_
  refine Spec.bind (R := fun _ => At _) (Spec.modify fun t ht => ht) fun _ => ?_
  refine Spec.bind (R := fun _ => At _) (Spec.modify fun t ht => ht) fun _ => ?_
  refine Spec.bind (R := fun _ => At _) (Spec.modify fun t ht => ht) fun _ => ?_
  refine Spec.bind (ask_reads (hat _) hits.freeSlotStats) fun _ => Spec.pure fun t ht => ?_
  obtain ⟨hreq, hd⟩ := ht
  refine .mk victim rfl ?_ ?_
  · rw [hd]
    exact hreq
  · rw [hd]
    exact hguard

/-- How the decode loop leaves the requests. -/
def DecodeRequests (f : SeqId → Sequence B) (waiting : List SeqId) (out : DecodeOutcome)
    (s : Scheduler σ B) : Prop :=
  match out with
  | .batch _ _ => Has f s
  | .preempt r => Preempted f waiting r s

omit hits in
theorem popNextDecodingSeq_has (cfg : SchedulerConfig) (targetIsLong : Bool) :
    Returns (Has f) (popNextDecodingSeq (ε := ε) (ν := ν) (σ := σ) cfg targetIsLong)
      fun _ => Has f := by
  refine Spec.get_bind fun s hs => ?_
  split
  · exact Spec.pure fun t ht => ht ▸ hs
  · refine Spec.get_bind fun t ht => ?_
    subst ht
    split
    · exact Spec.pure fun u hu => hu ▸ hs
    · rintro u rfl
      exact hs

/-- The induction is on the scan budget; only a preemption writes the requests. -/
theorem decodeLoop_requests (cfg : SchedulerConfig) (targetIsLong : Bool) (hnd : decoding.Nodup) :
    ∀ budget numBatched logicalFree scheduled blocked,
      Returns (fun s => Has f s ∧ HoldsDecoding waiting decoding scheduled s)
        (decodeLoop cfg memory targetIsLong budget numBatched logicalFree scheduled blocked)
        fun out => DecodeRequests f waiting out
  | 0, _, _, _, _ => Spec.pure fun _ hs => hs.1
  | budget + 1, numBatched, logicalFree, scheduled, blocked => by
    refine Spec.get_bind fun s hs => ?_
    refine Spec.pre ?_ fun t ht => (ht ▸ hs : Has f t ∧ HoldsDecoding waiting decoding scheduled t)
    refine Spec.ite (fun _ => Spec.pure fun _ hs => hs.1) fun _ => ?_
    have hmoves := (popNextDecodingSeq_holds (ε := ε) (ν := ν) (σ := σ) cfg
      targetIsLong scheduled).pre fun (s : Scheduler σ B)
        (h : Has f s ∧ HoldsDecoding waiting decoding scheduled s) => h.2
    have hhas := (popNextDecodingSeq_has (ε := ε) (ν := ν) (σ := σ) (f := f) cfg
      targetIsLong).pre fun (s : Scheduler σ B)
        (h : Has f s ∧ HoldsDecoding waiting decoding scheduled s) => h.1
    refine Spec.bind (Returns.and hhas hmoves) fun popped => ?_
    cases popped with
    | none => exact Spec.pure fun _ hs => hs.1
    | some seq =>
      have hstable : OnRequests (σ := σ) (B := B) fun s =>
          Has f s ∧ HoldsDecoding waiting decoding (seq :: scheduled) s :=
        (onRequests_has f).and (onQueues_holdsDecoding _ _ _).onRequests
      refine Spec.bind (ask_reads hstable (hits.decodeStepFreeSlotsFor seq)) fun seqFree => ?_
      refine Spec.bind (ask_reads hstable (hits.decodeStepReservationCost seq)) fun cost => ?_
      have happend : Returns
          (fun s => Has f s ∧ HoldsDecoding waiting decoding (seq :: scheduled) s)
          (appendDecoding (ε := ε) (ν := ν) (σ := σ) (B := B) seq)
          fun _ s => Has f s ∧ HoldsDecoding waiting decoding scheduled s :=
        Returns.and (Spec.modify fun s hs => hs.1)
          ((appendDecoding_holds seq scheduled).pre fun _ h => h.2)
      refine Spec.ite (fun _ => Spec.ite (fun _ => ?_) fun _ => Spec.ite (fun _ => ?_) fun hnone => ?_)
        fun _ => ?_
      · exact Spec.bind happend fun _ =>
          decodeLoop_requests cfg targetIsLong hnd budget numBatched logicalFree scheduled _
      · exact Spec.bind happend fun _ => Spec.pure fun _ hs => hs.1
      · obtain rfl : scheduled = [] := not_not.mp hnone
        refine Spec.intro fun t ht => ?_
        have hfresh : seq ∉ t.decoding := by
          have := ht.2.2.nodup_iff.mpr hnd
          rw [List.singleton_append, List.nodup_cons] at this
          exact this.1
        refine Spec.bind ((preemptDecodeVictim_preempts hits hfresh).pre fun u hu => ?_) fun r =>
          Spec.pure fun _ hs => hs
        subst hu
        exact ⟨ht.1, ht.2.1, rfl⟩
      · refine (decodeLoop_requests cfg targetIsLong hnd budget _ _ (scheduled ++ [seq]) blocked).pre
          fun s hs => ⟨hs.1, hs.2.1, ?_⟩
        have hmove : (scheduled ++ [seq] ++ s.decoding).Perm
            (seq :: (scheduled ++ s.decoding)) := by
          rw [List.append_assoc]
          exact List.perm_middle
        exact hmove.trans hs.2.2

theorem finishEmptyPass_requests (blocked : Option SeqId) (pass : PrefillPass ν)
    (hnd : decoding.Nodup) (hb : ∀ victim, blocked = some victim → victim ∈ decoding) :
    Returns (fun s => Has f s ∧ HoldsDecoding waiting decoding [] s)
      (finishEmptyPass memory blocked pass)
      fun r s => Preempted f waiting r s ∨ (r = ⟨[], false, []⟩ ∧ Has f s) := by
  cases blocked with
  | some victim =>
    refine Spec.intro fun s hs => ?_
    have hfresh : victim ∉ s.decoding.erase victim :=
      fun h => (List.Nodup.mem_erase_iff (hs.2.2.nodup_iff.mpr hnd)).mp h |>.1 rfl
    refine Spec.bind (R := fun _ t => Has f t ∧ t.waiting = waiting ∧
      t.decoding = s.decoding.erase victim) ?_ fun _ =>
        (preemptDecodeVictim_preempts hits hfresh).post fun r t ht => Or.inl ht
    rintro t rfl
    exact ⟨hs.1, hs.2.1, rfl⟩
  | none =>
    refine Spec.bind (R := fun _ => Has f) ((raiseStored_keeps _).pre fun _ h => h.1) fun _ => ?_
    refine Spec.bind (raiseStored_keeps _) fun _ => Spec.bind (raiseStored_keeps _) fun _ => ?_
    exact Spec.pure fun s hs => Or.inr ⟨rfl, hs⟩

theorem decodePhase_requests (cfg : SchedulerConfig) (decodeFree : Int) (pass : PrefillPass ν)
    (hnd : decoding.Nodup) :
    Returns (fun s => Has f s ∧ HoldsDecoding waiting decoding [] s)
      (decodePhase cfg memory decodeFree pass)
      fun r s => Preempted f waiting r s ∨ (r.isPrefill = false ∧ r.preempted = [] ∧ Has f s) := by
  refine Spec.get_bind fun s hs => ?_
  refine Spec.pre ?_ fun t ht => (ht ▸ hs : Has f t ∧ HoldsDecoding waiting decoding [] t)
  have hholds : Returns (fun s => Has f s ∧ HoldsDecoding waiting decoding [] s) _ _ :=
    (decodeLoop_holds cfg memory (!s.decoding.isEmpty &&
        !s.decoding.any fun seq => !isLongText cfg (s.world.seqs seq))
      s.decoding.length pass.numBatchedSeqs decodeFree [] none fun _ h => by cases h).pre
      fun _ h => h.2
  refine Spec.bind (Returns.and (decodeLoop_requests hits cfg _ hnd _ _ _ _ _) hholds)
    fun outcome => ?_
  cases outcome with
  | preempt r => exact Spec.pure fun t ht => Or.inl ht.1
  | batch scheduled blocked =>
    refine Spec.intro fun t ht => ?_
    obtain ⟨hhas, hqueues, hb⟩ := ht
    refine Spec.ite (fun hnone => ?_) fun _ => ?_
    · subst hnone
      have hempty : Returns (fun s => Has f s ∧ HoldsDecoding waiting decoding [] s) _ _ :=
        finishEmptyPass_requests hits blocked pass hnd hb
      refine (hempty.pre fun u hu => ?_).post fun r u hu => ?_
      · subst hu
        exact ⟨hhas, hqueues⟩
      rcases hu with h | ⟨rfl, h⟩
      · exact Or.inl h
      · exact Or.inr ⟨rfl, rfl, h⟩
    · refine Spec.bind (R := fun _ => Has f) ?_ fun _ => Spec.bind (R := fun _ => Has f) ?_
        fun _ => Spec.pure fun u hu => Or.inr ⟨rfl, rfl, hu⟩
      · rintro u rfl
        exact hhas
      · cases blocked with
        | none => exact Spec.pure fun _ hu => hu
        | some victim => exact Spec.modify fun _ hu => hu

end Decode

/-! ## The pass -/

section Pass

/-- What a pass from `s` that returned `r` has done. -/
inductive Outcome (memory : MemoryOracle ε σ B κ ν) (s : Scheduler σ B) (r : ScheduleResult)
    (t : Scheduler σ B) : Prop where
  | prefill (batch : r.isPrefill = true) (some : r.seqs ≠ []) (none : r.preempted = [])
      (waits : (r.seqs ++ t.waiting).Perm s.waiting) (decodes : t.decoding = s.decoding)
      (requests : Scheduled memory s.world.seqs r.seqs t)
      (serial : Serial s.world.seqs s.waiting r.seqs)
      (drained : replayPending s = true → s.decoding = [])
  | decode (batch : r.isPrefill = false) (none : r.preempted = [])
      (waits : t.waiting.Perm s.waiting) (decodes : t.decoding.Perm s.decoding)
      (distinct : r.seqs.Nodup) (queued : ∀ seq ∈ r.seqs, seq ∈ t.decoding)
      (requests : AllRefreshed memory s.world.seqs t)
  | preempt (victim : SeqId) (f : SeqId → Sequence B) (result : r = ⟨[], false, [victim]⟩)
      (decodes : (victim :: t.decoding).Perm s.decoding)
      (waits : t.waiting.Perm (victim :: s.waiting))
      (refreshed : ∀ seq, Refreshed memory (s.world.seqs seq) (f seq))
      (requests : t.world.seqs = Function.update (handOff f t.decoding) victim (f victim).restarted)
      (guard : 0 < (f victim).numCompletionTokens → t.decoding = [] → replayPending s = true ∧
        (f victim).decodeProgressCheckpoint < (f victim).numCompletionTokens)

theorem any_replay_of_refreshed {f g : SeqId → Sequence B} (h : ∀ q, Refreshed memory (f q) (g q))
    {waiting waiting' : List SeqId} (hp : waiting'.Perm waiting) :
    (waiting'.any fun q => (g q).isRecomputeReplay) =
      waiting.any fun q => (f q).isRecomputeReplay := by
  have hreplay : (fun q => (g q).isRecomputeReplay) = fun q => (f q).isRecomputeReplay :=
    funext fun q => (h q).isRecomputeReplay
  rw [hreplay]
  exact hp.any_eq

variable [DecidableEq κ] [DecidableEq ν]
variable {memory : MemoryOracle ε σ B κ ν} (hits : WritesHitsOnly memory) (cfg : SchedulerConfig)

include hits

omit [DecidableEq κ] [DecidableEq ν] in
theorem startPass_reads {P : Scheduler σ B → Prop} (hP : OnRequests P) :
    Returns P (startPass cfg memory) fun out s => out.1.scheduledSeqs = [] ∧ P s := by
  refine Spec.bind (ask_reads hP hits.numFreeSlots) fun physicalFree => ?_
  refine Spec.bind (Spec.get fun _ hs => hs) fun s => Spec.ite (fun _ => ?_) fun _ => ?_
  · exact Spec.pure fun _ hs => ⟨rfl, hs⟩
  · refine Spec.bind (ask_reads hP (hits.reservedPrefillSlots _ _)) fun reserved => ?_
    refine Spec.bind (ask_reads hP hits.promptAdmissionFreeSlots) fun admissionFree => ?_
    refine Spec.bind (ask_reads hP hits.prefillStepFreeSlots) fun stepFree => ?_
    refine Spec.bind (ask_reads hP (hits.promptAdmissionBudgets _ _)) fun budgets => ?_
    exact Spec.bind (ask_reads hP hits.prefillBatchedTokensMargin) fun margin =>
      Spec.pure fun _ hs => ⟨rfl, hs⟩

theorem scheduleImpl_outcome {s : Scheduler σ B} (distinct : (s.waiting ++ s.decoding).Nodup) :
    Returns (· = s) (scheduleImpl cfg memory) fun r t => Outcome memory s r t := by
  obtain ⟨hndw, hndd, -⟩ := List.nodup_append.mp distinct
  let At (t : Scheduler σ B) : Prop :=
    Has s.world.seqs t ∧ t.waiting = s.waiting ∧ t.decoding = s.decoding
  have hat : OnRequests At := (onRequests_has _).and fun _ _ _ h => h
  refine Spec.bind ((startPass_reads hits cfg hat).pre fun t ht => ?_) fun out => ?_
  · subst ht
    exact ⟨rfl, rfl, rfl⟩
  obtain ⟨pass, margin⟩ := out
  refine Spec.intro fun t ht => ?_
  obtain ⟨hempty, hstart⟩ := ht
  simp only at hempty
  refine Spec.pre ?_ fun u hu => (hu ▸ hstart : At u)
  refine Spec.bind (ask_reads hat hits.decodeStepFreeSlots) fun decodeFree => ?_
  -- The buckets: the requests are refreshed, the queues stay.
  have hmodes := passModes_refreshes (f := s.world.seqs) hits s.waiting s.decoding
  have hqueues : Returns At (passModes memory)
      fun _ u => HoldsWaiting s.waiting s.decoding [] u :=
    (passModes_onQueues memory (onQueues_holdsWaiting s.waiting s.decoding [])).pre
      fun u hu => ⟨hu.2.1 ▸ List.Perm.refl _, hu.2.2⟩
  refine Spec.bind (Returns.and hmodes hqueues) fun modes => Spec.intro fun u hu => ?_
  obtain ⟨⟨hrefreshed, hdrained⟩, hholds⟩ := hu
  have hinit : InPrefill memory s.world.seqs s.waiting s.decoding pass.scheduledSeqs u := by
    rw [hempty]
    refine ⟨hholds, fun q => ?_, Or.inl rfl⟩
    rw [if_neg List.not_mem_nil]
    exact hrefreshed q
  have hbuckets : Returns (· = u) (prefillBuckets cfg memory margin modes pass)
      fun pass' v => InPrefill memory s.world.seqs s.waiting s.decoding pass'.scheduledSeqs v ∧
        (pass'.scheduledSeqs ≠ [] → modes ≠ []) := by
    refine Returns.and ((prefillBuckets_keeps hits cfg margin hndw modes pass).pre fun v hv =>
      hv ▸ hinit) ?_
    cases modes with
    | nil => exact Spec.pure fun v hv h => absurd hempty h
    | cons mode rest =>
      exact Spec.conseq (Spec.trivial _) (fun _ h => h) (fun _ _ _ _ => List.cons_ne_nil _ _)
        fun _ _ _ => trivial
  refine Spec.bind hbuckets fun pass' => Spec.ite (fun hnone => ?_) fun hsome =>
    Spec.pure fun v hv => ?_
  · refine Spec.intro fun v hv => ?_
    obtain ⟨hpass, -⟩ := hv
    rw [hnone] at hpass
    have hall : ∀ q, Refreshed memory (s.world.seqs q) (v.world.seqs q) := by
      intro q
      have := hpass.scheduled q
      rw [if_neg List.not_mem_nil] at this
      exact this
    have hpending := any_replay_of_refreshed hall hpass.queues.1
    have hstart : ∀ w, w = v → Has v.world.seqs w ∧ HoldsDecoding v.waiting s.decoding [] w := by
      rintro w rfl
      exact ⟨rfl, rfl, hpass.queues.2 ▸ List.Perm.refl _⟩
    refine (Returns.and ((decodePhase_requests hits cfg (max 0 decodeFree) pass' hndd).pre hstart)
      (Spec.pre (decodePhase_conserves cfg memory (max 0 decodeFree) pass' hndd)
        fun w hw => (hstart w hw).2)).post fun r w hw => ?_
    obtain ⟨hpre | ⟨hbatch, hnopre, hhas⟩, hcons⟩ := hw
    · obtain ⟨victim, rfl, hreq, hguard⟩ := hpre
      cases hcons with
      | prefill hbatch => cases hbatch
      | decode hbatch hnopre => cases hnopre
      | preempt victim' front hbatch hnil hone hdec hwaits hothers =>
        cases hone
        refine .preempt victim v.world.seqs rfl hdec ?_ hall hreq fun hcompletion hsole => ?_
        · rw [hwaits]
          exact (List.perm_append_singleton victim front).trans
            ((hothers.trans hpass.queues.1).cons victim)
        · obtain ⟨hany, hprogress⟩ := hguard hcompletion hsole
          exact ⟨hpending.symm.trans hany, hprogress⟩
    · cases hcons with
      | prefill hbatch' => rw [hbatch] at hbatch'; cases hbatch'
      | preempt victim front hbatch' hnil hone => rw [hnopre] at hone; cases hone
      | decode hbatch' hnopre' hwaits hdec hdistinct hqueued =>
        refine .decode hbatch hnopre (hwaits.trans hpass.queues.1) hdec hdistinct hqueued fun q => ?_
        rw [show w.world.seqs = v.world.seqs from hhas]
        exact hall q
  · exact .prefill rfl hsome rfl hv.1.queues.1 hv.1.queues.2 hv.1.scheduled hv.1.serial
      (hdrained (hv.2 hsome))

omit [DecidableEq κ] [DecidableEq ν] hits in
/-- An outcome does not depend on the oracle's state. -/
theorem Outcome.of_seqs {s s' t t' : Scheduler σ B} {r : ScheduleResult}
    (h : Outcome memory s r t) (hs : s'.world.seqs = s.world.seqs) (hsw : s'.waiting = s.waiting)
    (hsd : s'.decoding = s.decoding) (ht : t'.world.seqs = t.world.seqs)
    (htw : t'.waiting = t.waiting) (htd : t'.decoding = t.decoding) : Outcome memory s' r t' := by
  have hpending : replayPending s' = replayPending s := by
    unfold replayPending
    rw [hs, hsw]
  cases h with
  | prefill batch some none waits decodes requests serial drained =>
    refine .prefill batch some none (htw ▸ hsw ▸ waits) (htd ▸ hsd ▸ decodes) ?_ ?_ ?_
    · intro q
      rw [ht, hs]
      exact requests q
    · rw [hs, hsw]
      exact serial
    · rw [hpending, hsd]
      exact drained
  | decode batch none waits decodes distinct queued requests =>
    refine .decode batch none (htw ▸ hsw ▸ waits) (htd ▸ hsd ▸ decodes) distinct (htd ▸ queued) ?_
    intro q
    rw [ht, hs]
    exact requests q
  | preempt victim f result decodes waits refreshed requests guard =>
    refine .preempt victim f result (htd ▸ hsd ▸ decodes) (htw ▸ hsw ▸ waits) (hs ▸ refreshed) ?_ ?_
    · rw [ht, htd]
      exact requests
    · rw [htd, hpending]
      exact guard

/-- **One pass**: a call of `schedule` that returns has one of the outcomes. -/
theorem schedule_outcome {s : Scheduler σ B} (distinct : (s.waiting ++ s.decoding).Nodup) :
    Returns (· = s) (schedule cfg memory) fun r t => Outcome memory s r t := by
  let At (t : Scheduler σ B) : Prop :=
    Has s.world.seqs t ∧ t.waiting = s.waiting ∧ t.decoding = s.decoding
  have hat : OnRequests At := (onRequests_has _).and fun _ _ _ h => h
  refine Spec.bind ((ask_reads hat hits.enterCapacitySnapshot).pre fun t ht => ?_) fun _ =>
    Spec.intro fun u hu => ?_
  · subst ht
    exact ⟨rfl, rfl, rfl⟩
  obtain ⟨hseqs, hw, hd⟩ := hu
  have hdistinct : (u.waiting ++ u.decoding).Nodup := by
    rw [hw, hd]
    exact distinct
  refine Returns.andFinally (scheduleImpl_outcome hits cfg hdistinct) fun r => ?_
  refine (ask_reads (fun t w hw h => ?_) hits.exitCapacitySnapshot).post fun _ t ht => ?_
  · exact h.of_seqs rfl rfl rfl hw rfl rfl
  · exact ht.of_seqs hseqs.symm hw.symm hd.symm rfl rfl rfl

end Pass

end SparseVllm
