import SparseVllm.Scheduler.Outcome
import SparseVllm.Scheduler.Step

/-!
# What an engine step does to the queues and the requests of its batch

`Outcome` says what scheduling does; this file says what the rest of the step does, for a model
runner that leaves the requests alone (`RunnerReads`). `postprocess` treats the requests of the
batch one after the other. What it does to one request is its landing (`PrefillLanding`,
`DecodeLanding`): the request afterwards and the queues afterwards, as a function of the request
before. `postprocess_prefill` and `postprocess_decode` are the loop rules.
-/

namespace SparseVllm

open SparseVllm.Lib

variable {ε σ B κ ν : Type}

/-! ## The engine's requests, inputs and queues -/

/-- The requests and the queues. -/
def Scheduler.Is (f : SeqId → Sequence B) (waiting decoding : List SeqId) (s : Scheduler σ B) :
    Prop :=
  s.world.seqs = f ∧ s.waiting = waiting ∧ s.decoding = decoding

/-- The requests, the inputs executed on their rows, and the queues. -/
def Engine.Is (f : SeqId → Sequence B) (ran : SeqId → List (Nat × Int))
    (waiting decoding : List SeqId) (e : Engine σ B) : Prop :=
  e.scheduler.Is f waiting decoding ∧ e.executed = ran

/-- The model runner leaves the requests alone. -/
structure RunnerReads (runner : ModelRunner ε σ B) : Prop where
  freeSlotsBatch : ∀ seqs, ReadsRequests (runner.freeSlotsBatch seqs)
  run : ∀ seqs isPrefill, ReadsRequests (runner.run seqs isPrefill)
  finishSlotsBatch : ∀ seqs, ReadsRequests (runner.finishSlotsBatch seqs)

theorem Engine.is_self (e : Engine σ B) :
    e.Is e.scheduler.world.seqs e.executed e.scheduler.waiting e.scheduler.decoding :=
  ⟨⟨rfl, rfl, rfl⟩, rfl⟩

section Programs

variable {f : SeqId → Sequence B} {ran : SeqId → List (Nat × Int)}
variable {waiting decoding : List SeqId}

theorem onScheduler_returns {α : Type} {P : Scheduler σ B → Prop}
    {Q : α → Scheduler σ B → Prop} {m : SchedM ε σ B ν α} (h : Returns P m Q) :
    Returns (fun e => P e.scheduler ∧ e.executed = ran) (onScheduler m)
      fun a e => Q a e.scheduler ∧ e.executed = ran := by
  refine Spec.zoom fun e he => (Spec.pre h ?_).conseq (fun _ h => h) ?_ fun _ _ _ => trivial
  · rintro s rfl
    exact he.1
  · exact fun a s hs => ⟨hs, he.2⟩

theorem onScheduler_is {α : Type} {m : SchedM ε σ B ν α} {f' : SeqId → Sequence B}
    {waiting' decoding' : List SeqId}
    (h : Returns (Scheduler.Is f waiting decoding) m fun _ => Scheduler.Is f' waiting' decoding') :
    Returns (Engine.Is f ran waiting decoding) (onScheduler m)
      fun _ => Engine.Is f' ran waiting' decoding' :=
  onScheduler_returns h

theorem modifySeq_is (seq : SeqId) (g : Sequence B → Sequence B) :
    Returns (Scheduler.Is f waiting decoding) (modifySeq (ε := ε) (ν := ν) (σ := σ) seq g)
      fun _ => Scheduler.Is (Function.update f seq (g (f seq))) waiting decoding := by
  rintro s ⟨rfl, rfl, rfl⟩
  exact ⟨rfl, rfl, rfl⟩

theorem eraseDecoding_is (seq : SeqId) :
    Returns (Scheduler.Is f waiting decoding)
      (modify fun s => { s with decoding := s.decoding.erase seq } : SchedM ε σ B ν Unit)
      fun _ => Scheduler.Is f waiting (decoding.erase seq) := by
  rintro s ⟨rfl, rfl, rfl⟩
  exact ⟨rfl, rfl, rfl⟩

theorem pushWaiting_is (seq : SeqId) :
    Returns (Scheduler.Is f waiting decoding)
      (modify fun s => { s with waiting := seq :: s.waiting } : SchedM ε σ B ν Unit)
      fun _ => Scheduler.Is f (seq :: waiting) decoding := by
  rintro s ⟨rfl, rfl, rfl⟩
  exact ⟨rfl, rfl, rfl⟩

theorem appendDecoding_is (seq : SeqId) :
    Returns (Scheduler.Is f waiting decoding) (appendDecoding (ε := ε) (ν := ν) (σ := σ) seq)
      fun _ => Scheduler.Is f waiting (decoding ++ [seq]) := by
  rintro s ⟨rfl, rfl, rfl⟩
  exact ⟨rfl, rfl, rfl⟩

theorem ask_is {α : Type} {m : EStateM ε (World σ B) α} (hm : ReadsRequests m) :
    Returns (Scheduler.Is f waiting decoding) (ask (ν := ν) m)
      fun _ => Scheduler.Is f waiting decoding :=
  ask_reads (fun _ _ hw h => ⟨hw.trans h.1, h.2⟩) hm

theorem call_is {α : Type} {m : EStateM ε (World σ B) α} (hm : ReadsRequests m) :
    Returns (Engine.Is f ran waiting decoding) (call (ν := ν) m)
      fun _ => Engine.Is f ran waiting decoding := by
  refine Spec.zoom fun e he => ?_
  rintro w rfl
  cases h : m e.scheduler.world with
  | error error w => trivial
  | ok a w => exact ⟨⟨(hm h).trans he.1.1, he.1.2⟩, he.2⟩

/-- A method of a request: it returned what the request becomes. -/
theorem updateSeq_is (seq : SeqId) (method : Sequence B → Except SequenceError (Sequence B)) :
    Returns (Engine.Is f ran waiting decoding)
      (updateSeq (ε := ε) (σ := σ) (ν := ν) seq method)
      fun _ e => ∃ b, method (f seq) = .ok b ∧
        Engine.Is (Function.update f seq b) ran waiting decoding e := by
  refine Spec.get_bind fun e he => ?_
  have hrequest : e.request seq = f seq := congrFun he.1.1 seq
  rw [hrequest]
  cases h : method (f seq) with
  | error error => exact Spec.throw fun _ _ => trivial
  | ok b =>
    exact (Spec.start (onScheduler_is (modifySeq_is seq fun _ => b)) he).post
      fun _ t ht => ⟨b, rfl, ht⟩

end Programs

/-! ## Landings -/

namespace Sequence

/-- `num_prefilled_tokens` after the chunk. -/
def prefilled (a : Sequence B) (chunk : Nat) : Sequence B :=
  { a with numPrefilledTokens := a.numPrefilledTokens + chunk }

/-- The replay is over. -/
def recovered (a : Sequence B) : Sequence B :=
  { a with
    recomputeReplayCursor := none
    decodeProgressCheckpoint := a.numCompletionTokens }

/-- The next accepted token has been replayed. -/
def replayed (a : Sequence B) : Sequence B :=
  { a with recomputeReplayCursor := some (a.recomputeReplayCursor.getD 0 + 1) }

end Sequence

/-- What an accepted sample does: the request stays queued, or it ends and leaves the queue. -/
inductive Acceptance (cfg : SchedulerConfig) (sample : Sample) (seq : SeqId) (a : Sequence B)
    (decoding : List SeqId) : Sequence B → List SeqId → Prop where
  | lives (live : (a.appendToken sample).endsWith cfg sample.tokenId = false) :
    Acceptance cfg sample seq a decoding (a.appendToken sample) decoding
  | ends (done : (a.appendToken sample).endsWith cfg sample.tokenId = true) :
    Acceptance cfg sample seq a decoding { a.appendToken sample with status := .finished }
      (decoding.erase seq)

/-- What `postprocess` does to a request `a` of a prefill batch. -/
inductive PrefillLanding (cfg : SchedulerConfig) (sample : Sample) (seq : SeqId) (a : Sequence B)
    (waiting decoding : List SeqId) : Sequence B → List SeqId → List SeqId → Prop where
  | more (chunk : Nat) (given : a.currentChunkSize = some chunk)
      (short : a.numPrefilledTokens + chunk < a.numPromptTokens) :
    PrefillLanding cfg sample seq a waiting decoding
      { a.prefilled chunk with status := .waiting } (seq :: waiting) decoding
  | replays (chunk : Nat) (given : a.currentChunkSize = some chunk)
      (full : a.numPromptTokens ≤ a.numPrefilledTokens + chunk)
      (replay : a.isRecomputeReplay = true) (more : 0 < a.replayDecodeTokenCount) :
    PrefillLanding cfg sample seq a waiting decoding
      { a.prefilled chunk with status := .running } waiting (decoding ++ [seq])
  | recovers (chunk : Nat) (given : a.currentChunkSize = some chunk)
      (full : a.numPromptTokens ≤ a.numPrefilledTokens + chunk)
      (replay : a.isRecomputeReplay = true) (none : a.replayDecodeTokenCount = 0) :
    PrefillLanding cfg sample seq a waiting decoding
      { a.prefilled chunk with status := .running }.recovered waiting (decoding ++ [seq])
  | accepts (chunk : Nat) (b : Sequence B) (decoding' : List SeqId)
      (given : a.currentChunkSize = some chunk)
      (full : a.numPromptTokens ≤ a.numPrefilledTokens + chunk)
      (fresh : a.isRecomputeReplay = false)
      (accepted : Acceptance cfg sample seq { a.prefilled chunk with status := .running }
        (decoding ++ [seq]) b decoding') :
    PrefillLanding cfg sample seq a waiting decoding b waiting decoding'

/-- What `postprocess` does to a request `a` of a decode batch. -/
inductive DecodeLanding (cfg : SchedulerConfig) (sample : Sample) (seq : SeqId) (a : Sequence B)
    (decoding : List SeqId) : Sequence B → List SeqId → Prop where
  | replays (replay : a.isRecomputeDecode = true)
      (more : a.recomputeReplayCursor.getD 0 + 1 < a.replayDecodeTokenCount) :
    DecodeLanding cfg sample seq a decoding a.replayed decoding
  | recovers (replay : a.isRecomputeDecode = true)
      (last : a.replayDecodeTokenCount ≤ a.recomputeReplayCursor.getD 0 + 1) :
    DecodeLanding cfg sample seq a decoding a.replayed.recovered decoding
  | accepts (b : Sequence B) (decoding' : List SeqId) (fresh : a.isRecomputeDecode = false)
      (accepted : Acceptance cfg sample seq a decoding b decoding') :
    DecodeLanding cfg sample seq a decoding b decoding'

section Postprocess

variable {f : SeqId → Sequence B} {ran : SeqId → List (Nat × Int)}
variable {waiting decoding : List SeqId}
variable (cfg : SchedulerConfig) {memory : MemoryOracle ε σ B κ ν} (hits : WritesHitsOnly memory)

theorem acceptSample_lands (seq : SeqId) (sample : Sample) :
    Returns (Engine.Is f ran waiting decoding)
      (acceptSample (ε := ε) (σ := σ) (ν := ν) cfg seq sample)
      fun _ e => ∃ b decoding', Acceptance cfg sample seq (f seq) decoding b decoding' ∧
        Engine.Is (Function.update f seq b) ran waiting decoding' e := by
  refine Spec.bind (onScheduler_is (modifySeq_is seq _)) fun _ => Spec.get_bind fun e he => ?_
  have hrequest : e.request seq = (f seq).appendToken sample := by
    unfold Engine.request
    rw [he.1.1, Function.update_self]
  refine Spec.start (P := Engine.Is _ ran waiting decoding) ?_ he
  rw [hrequest]
  refine Spec.ite (fun hends => ?_) fun hlives => Spec.pure fun t ht => ?_
  · refine Spec.bind (onScheduler_is (modifySeq_is seq _)) fun _ => ?_
    refine (onScheduler_is (eraseDecoding_is seq)).post fun _ t ht => ⟨_, _, .ends hends, ?_⟩
    rw [Function.update_self, Function.update_idem] at ht
    exact ht
  · exact ⟨_, _, .lives ((Bool.not_eq_true _).mp hlives), ht⟩

theorem finishRecomputeReplay_eq {a b : Sequence B} (h : a.finishRecomputeReplay = .ok b) :
    b = a.recovered := by
  unfold Sequence.finishRecomputeReplay at h
  split at h
  · cases h
  · exact (Except.ok.inj h).symm

theorem advancePrefill_eq {a b : Sequence B} (h : a.advancePrefill = .ok b) :
    ∃ chunk, a.currentChunkSize = some chunk ∧ b = a.prefilled chunk := by
  unfold Sequence.advancePrefill at h
  split at h
  · cases h
  · rename_i chunk hchunk
    exact ⟨chunk, hchunk, (Except.ok.inj h).symm⟩

theorem finishEmptyReplay_lands (seq : SeqId) :
    Returns (Engine.Is f ran waiting decoding)
      (finishEmptyReplay (ε := ε) (σ := σ) (ν := ν) seq)
      fun _ => Engine.Is (Function.update f seq
        (if (f seq).replayDecodeTokenCount = 0 then (f seq).recovered else f seq))
        ran waiting decoding := by
  refine Spec.get_bind fun e he => ?_
  have hrequest : e.request seq = f seq := congrFun he.1.1 seq
  refine Spec.start (P := Engine.Is f ran waiting decoding) ?_ he
  rw [hrequest]
  refine Spec.ite (fun hnone => ?_) fun hsome => Spec.pure fun t ht => ?_
  · refine (updateSeq_is seq _).post fun _ t ht => ?_
    obtain ⟨b, hb, ht⟩ := ht
    rw [if_pos hnone, ← finishRecomputeReplay_eq hb]
    exact ht
  · rw [if_neg hsome, Function.update_eq_self]
    exact ht

include hits

theorem postprocessPrefill_lands (seq : SeqId) (sample : Sample) :
    Returns (Engine.Is f ran waiting decoding) (postprocessPrefill cfg memory seq sample)
      fun _ e => ∃ b waiting' decoding',
        PrefillLanding cfg sample seq (f seq) waiting decoding b waiting' decoding' ∧
        Engine.Is (Function.update f seq b) ran waiting' decoding' e := by
  refine Spec.bind (updateSeq_is seq _) fun _ => Spec.intro fun e he => ?_
  obtain ⟨b, hb, he⟩ := he
  refine Spec.start (P := Engine.Is (Function.update f seq b) ran waiting decoding) ?_ he
  obtain ⟨chunk, hgiven, rfl⟩ : ∃ chunk, (f seq).currentChunkSize = some chunk ∧
      b = (f seq).prefilled chunk := advancePrefill_eq hb
  refine Spec.get_bind fun u hu => ?_
  have hrequest : u.request seq = (f seq).prefilled chunk := by
    unfold Engine.request
    rw [hu.1.1, Function.update_self]
  refine Spec.start (P := Engine.Is _ ran waiting decoding) ?_ hu
  rw [hrequest]
  refine Spec.ite (fun hshort => ?_) fun hfull => ?_
  · refine Spec.bind (onScheduler_is (modifySeq_is seq _)) fun _ => ?_
    refine (onScheduler_is (pushWaiting_is seq)).post fun _ t ht =>
      ⟨_, _, _, .more chunk hgiven hshort, ?_⟩
    rw [Function.update_self, Function.update_idem] at ht
    exact ht
  -- The prompt is complete: the request joins the decode queue.
  refine Spec.bind (onScheduler_is (ask_is (hits.completePrefillExecution seq))) fun _ => ?_
  refine Spec.bind (onScheduler_is (modifySeq_is seq _)) fun _ => ?_
  rw [Function.update_self, Function.update_idem]
  refine Spec.bind (onScheduler_is (appendDecoding_is seq)) fun _ => ?_
  have hfull : (f seq).numPromptTokens ≤ (f seq).numPrefilledTokens + chunk := not_lt.mp hfull
  refine Spec.get_bind fun v hv => ?_
  have hreplay : (v.request seq).isRecomputeReplay = (f seq).isRecomputeReplay := by
    unfold Engine.request
    rw [hv.1.1, Function.update_self]
    rfl
  refine Spec.start (P := Engine.Is _ ran waiting (decoding ++ [seq])) ?_ hv
  rw [hreplay]
  refine Spec.ite (fun hyes => ?_) fun hno => ?_
  · refine (finishEmptyReplay_lands seq).post fun _ t ht => ?_
    rw [Function.update_self, Function.update_idem] at ht
    by_cases hcount : (f seq).replayDecodeTokenCount = 0
    · rw [if_pos (by exact hcount)] at ht
      exact ⟨_, _, _, .recovers chunk hgiven hfull hyes hcount, ht⟩
    · rw [if_neg (by exact hcount)] at ht
      exact ⟨_, _, _, .replays chunk hgiven hfull hyes (Nat.pos_of_ne_zero hcount), ht⟩
  · refine (acceptSample_lands cfg seq sample).post fun _ t ht => ?_
    obtain ⟨b, decoding', haccept, ht⟩ := ht
    rw [Function.update_self] at haccept
    rw [Function.update_idem] at ht
    exact ⟨b, _, _, .accepts chunk b decoding' hgiven hfull ((Bool.not_eq_true _).mp hno) haccept, ht⟩

omit hits in
theorem postprocessDecode_lands (seq : SeqId) (sample : Sample) :
    Returns (Engine.Is f ran waiting decoding)
      (postprocessDecode (ε := ε) (σ := σ) (ν := ν) cfg seq sample)
      fun _ e => ∃ b decoding', DecodeLanding cfg sample seq (f seq) decoding b decoding' ∧
        Engine.Is (Function.update f seq b) ran waiting decoding' e := by
  refine Spec.get_bind fun e he => ?_
  have hrequest : e.request seq = f seq := congrFun he.1.1 seq
  refine Spec.start (P := Engine.Is f ran waiting decoding) ?_ he
  rw [hrequest]
  refine Spec.ite (fun hreplay => ?_) fun hfresh => ?_
  · refine (updateSeq_is seq _).post fun _ t ht => ?_
    obtain ⟨b, hb, ht⟩ := ht
    refine ⟨b, decoding, ?_, ht⟩
    unfold Sequence.advanceRecomputeReplay at hb
    rw [if_neg (by rw [hreplay]; exact Bool.noConfusion)] at hb
    simp only at hb
    split at hb
    · rename_i hlast
      rw [finishRecomputeReplay_eq hb]
      exact .recovers hreplay hlast
    · rename_i hmore
      rw [← Except.ok.inj hb]
      exact .replays hreplay (not_le.mp hmore)
  · refine (acceptSample_lands cfg seq sample).post fun _ t ht => ?_
    obtain ⟨b, decoding', haccept, ht⟩ := ht
    exact ⟨b, decoding', .accepts b decoding' ((Bool.not_eq_true _).mp hfresh) haccept, ht⟩

include hits in
/-- **The prefill loop**: an invariant of the requests still to treat, the requests and the queues
that each landing keeps holds at the end. -/
theorem postprocess_prefill
    {I : List SeqId → (SeqId → Sequence B) → List SeqId → List SeqId → Prop}
    {samples : SeqId → Sample}
    (step : ∀ {seq rest f w d b w' d'}, I (seq :: rest) f w d →
      PrefillLanding cfg (samples seq) seq (f seq) w d b w' d' →
      I rest (Function.update f seq b) w' d') (seqs : List SeqId) :
    Returns (fun e => ∃ f w d, I seqs f w d ∧ Engine.Is f ran w d e)
      (postprocess cfg memory seqs samples true)
      fun _ e => ∃ f w d, I [] f w d ∧ Engine.Is f ran w d e := by
  refine Spec.forEach (I := fun rest (e : Engine σ B) => ∃ f w d, I rest f w d ∧ Engine.Is f ran w d e)
    (fun seq rest => Spec.intro fun e he => ?_) seqs
  obtain ⟨f, w, d, hI, he⟩ := he
  have hlands : Returns (Engine.Is f ran w d) (postprocessPrefill cfg memory seq (samples seq)) _ :=
    postprocessPrefill_lands cfg hits seq (samples seq)
  refine (Spec.start hlands he).post fun _ t ht => ?_
  obtain ⟨b, w', d', hland, ht⟩ := ht
  exact ⟨_, w', d', step hI hland, ht⟩

omit hits in
/-- **The decode loop.** -/
theorem postprocess_decode
    {I : List SeqId → (SeqId → Sequence B) → List SeqId → List SeqId → Prop}
    {samples : SeqId → Sample}
    (step : ∀ {seq rest f w d b d'}, I (seq :: rest) f w d →
      DecodeLanding cfg (samples seq) seq (f seq) d b d' → I rest (Function.update f seq b) w d')
    (seqs : List SeqId) :
    Returns (fun e => ∃ f w d, I seqs f w d ∧ Engine.Is f ran w d e)
      (postprocess cfg memory seqs samples false)
      fun _ e => ∃ f w d, I [] f w d ∧ Engine.Is f ran w d e := by
  refine Spec.forEach (I := fun rest (e : Engine σ B) => ∃ f w d, I rest f w d ∧ Engine.Is f ran w d e)
    (fun seq rest => Spec.intro fun e he => ?_) seqs
  obtain ⟨f, w, d, hI, he⟩ := he
  have hlands : Returns (Engine.Is f ran w d)
      (postprocessDecode (ε := ε) (σ := σ) (ν := ν) cfg seq (samples seq)) _ :=
    postprocessDecode_lands cfg seq (samples seq)
  refine (Spec.start hlands he).post fun _ t ht => ?_
  obtain ⟨b, d', hland, ht⟩ := ht
  exact ⟨_, w, d', step hI hland, ht⟩

end Postprocess

/-! ## The rest of the step -/

/-- The inputs executed once the batch has run. -/
def ranBatch (f : SeqId → Sequence B) (isPrefill : Bool) (seqs : List SeqId)
    (ran : SeqId → List (Nat × Int)) : SeqId → List (Nat × Int) := fun seq =>
  if seq ∈ seqs then
    match batchInputs isPrefill (f seq) with
    | .ok inputs => ran seq ++ inputs
    | .error _ => ran seq
  else ran seq

section Step

variable {f : SeqId → Sequence B} {ran : SeqId → List (Nat × Int)}
variable {waiting decoding : List SeqId}

theorem executeSeqs_is (isPrefill : Bool) :
    ∀ (seqs : List SeqId) (ran : SeqId → List (Nat × Int)), seqs.Nodup →
      Returns (Engine.Is f ran waiting decoding)
        (forEach seqs (executeSeq (ε := ε) (σ := σ) (ν := ν) isPrefill))
        fun _ => Engine.Is f (ranBatch f isPrefill seqs ran) waiting decoding
  | [], ran, _ => Spec.pure fun e he => by
    rw [show ranBatch f isPrefill [] ran = ran from funext fun q => if_neg List.not_mem_nil]
    exact he
  | seq :: rest, ran, hnd => by
    obtain ⟨hfresh, hnd⟩ := List.nodup_cons.mp hnd
    refine Spec.bind (R := fun _ => Engine.Is f (ranBatch f isPrefill [seq] ran) waiting decoding) ?_
      fun _ => (executeSeqs_is isPrefill rest _ hnd).post fun _ e he => ?_
    · refine Spec.get_bind fun e he => ?_
      rw [show e.request seq = f seq from congrFun he.1.1 seq]
      cases hinputs : batchInputs isPrefill (f seq) with
      | error error => exact Spec.throw fun _ _ => trivial
      | ok inputs =>
        rintro t rfl
        refine ⟨he.1, ?_⟩
        show Function.update t.executed seq (t.executed seq ++ inputs) = _
        rw [he.2]
        funext q
        unfold ranBatch
        by_cases hq : q = seq
        · subst hq
          rw [Function.update_self, if_pos List.mem_cons_self, hinputs]
        · rw [Function.update_of_ne hq, if_neg (by simpa using hq)]
    · have heq : ranBatch f isPrefill rest (ranBatch f isPrefill [seq] ran) =
          ranBatch f isPrefill (seq :: rest) ran := by
        funext q
        unfold ranBatch
        by_cases hq : q = seq
        · subst hq
          rw [if_neg hfresh, if_pos List.mem_cons_self, if_pos List.mem_cons_self]
        · rw [if_neg (show q ∉ [seq] by simpa using hq)]
          simp only [List.mem_cons, hq, false_or]
      rw [← heq]
      exact he

variable {runner : ModelRunner ε σ B} (reads : RunnerReads runner)

include reads

theorem executeBatch_is (isPrefill : Bool) {seqs : List SeqId} (hnd : seqs.Nodup) :
    Returns (Engine.Is f ran waiting decoding) (executeBatch (ν := ν) runner seqs isPrefill)
      fun _ => Engine.Is f (ranBatch f isPrefill seqs ran) waiting decoding :=
  Spec.bind (executeSeqs_is isPrefill seqs ran hnd) fun _ => call_is (reads.run seqs isPrefill)

theorem releasePreemptedSequences_is (seqs : List SeqId) :
    Returns (Engine.Is f ran waiting decoding) (releasePreemptedSequences (ν := ν) runner seqs)
      fun _ => Engine.Is f (fun seq => if seq ∈ seqs then [] else ran seq) waiting decoding := by
  refine Spec.ite (fun hnone => Spec.pure fun e he => ?_) fun _ => ?_
  · subst hnone
    exact he
  · refine Spec.bind (call_is (reads.freeSlotsBatch seqs)) fun _ => Spec.modify fun e he => ?_
    refine ⟨he.1, ?_⟩
    rw [← he.2]
    rfl

/-- The requests of the batch that have ended give up their rows. -/
theorem releaseFinished_is (seqs : List SeqId) :
    Returns (Engine.Is f ran waiting decoding) (releaseFinished (ν := ν) runner seqs)
      fun _ => Engine.Is f
        (fun seq => if seq ∈ seqs ∧ (f seq).status = .finished then [] else ran seq)
        waiting decoding := by
  refine Spec.get_bind fun e he => ?_
  have hfinished : ∀ q, q ∈ (seqs.filter fun seq => (e.request seq).status = .finished) ↔
      q ∈ seqs ∧ (f q).status = .finished := by
    intro q
    rw [List.mem_filter, show e.request q = f q from congrFun he.1.1 q, decide_eq_true_iff]
  refine Spec.start (P := Engine.Is f ran waiting decoding) ?_ he
  refine Spec.ite (fun hnone => Spec.pure fun t ht => ⟨ht.1, ?_⟩) fun _ => ?_
  · rw [ht.2]
    funext q
    rw [if_neg fun hq => List.not_mem_nil (hnone ▸ (hfinished q).mpr hq)]
  · refine Spec.bind (call_is (reads.finishSlotsBatch _)) fun _ => Spec.modify fun t ht =>
      ⟨ht.1, ?_⟩
    show (fun seq => if seq ∈ _ then [] else t.executed seq) = _
    rw [ht.2]
    funext q
    simp only [hfinished]

omit reads

variable {memory : MemoryOracle ε σ B κ ν} (hits : WritesHitsOnly memory)

include hits

theorem countPrefillModes_refreshes :
    Returns (Engine.Is f ran waiting decoding) (onScheduler (countPrefillModes memory))
      fun _ e => ∃ g, (∀ q, Refreshed memory (f q) (g q)) ∧ Engine.Is g ran waiting decoding e := by
  let At (s : Scheduler σ B) : Prop :=
    AllRefreshed memory f s ∧ s.waiting = waiting ∧ s.decoding = decoding
  have hat : OnRequests At := onRequests_allRefreshed.and fun _ _ _ h => h
  have hbody : ∀ seq, Returns At (do
      refreshPrefillMetadata memory seq
      let _ ← ask (ν := ν) (memory.prefillExecutionMode seq)
      pure ()) fun _ => At := by
    intro seq
    have hrefresh : Returns At (refreshPrefillMetadata (ν := ν) memory seq) fun _ => At :=
      Returns.and ((refreshPrefillMetadata_refreshes hits seq).pre fun _ h => h.1)
        (Spec.pre (refreshPrefillMetadata_onQueues memory (fun _ _ h => h) seq) fun _ h => h.2)
    exact Spec.bind hrefresh fun _ => Spec.bind (ask_reads hat (hits.prefillExecutionMode seq))
      fun _ => Spec.pure fun _ hs => hs
  have hcount : Returns (Scheduler.Is f waiting decoding) (countPrefillModes (ν := ν) memory)
      fun _ => At := by
    refine Spec.get_bind fun s hs => ?_
    obtain ⟨hf, rfl, rfl⟩ := hs
    refine (Spec.forEach (I := fun _ => At) (fun seq _ => hbody seq) _).pre fun t ht => ?_
    subst ht
    exact ⟨fun q => hf ▸ .refl _, rfl, rfl⟩
  exact (onScheduler_returns hcount).post fun _ e he =>
    ⟨_, he.1.1, ⟨rfl, he.1.2.1, he.1.2.2⟩, he.2⟩

variable [DecidableEq κ] [DecidableEq ν] (cfg : SchedulerConfig)

include reads in
/-- The pass, and the rows of what it preempted. -/
theorem beginStep_outcome {e : Engine σ B}
    (distinct : (e.scheduler.waiting ++ e.scheduler.decoding).Nodup) :
    Returns (· = e) (beginStep cfg memory runner) fun r t =>
      Outcome memory e.scheduler r t.scheduler ∧
        t.executed = fun seq => if seq ∈ r.preempted then [] else e.executed seq := by
  refine Spec.bind (Spec.start (onScheduler_returns (schedule_outcome hits cfg distinct)) ⟨rfl, rfl⟩)
    fun r => Spec.intro fun t ht => ?_
  refine Spec.bind (Spec.start (releasePreemptedSequences_is reads r.preempted) t.is_self) fun _ =>
    Spec.pure fun u hu => ⟨?_, ?_⟩
  · exact ht.1.of_seqs rfl rfl rfl hu.1.1 hu.1.2.1 hu.1.2.2
  · rw [hu.2, ht.2]

end Step

end SparseVllm
