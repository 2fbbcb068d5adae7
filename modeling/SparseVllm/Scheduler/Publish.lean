import SparseVllm.Scheduler.Replay

/-!
# What a step publishes (`LLMEngine.step`: `last_step_token_outputs`, `last_step_logprob_outputs`)

A step decides which samples to publish before `postprocess`, from the requests as the batch ran
them; `postprocess` decides which samples to accept afterwards, from the requests as it has updated
them. `Publisher` is the engine with the outputs of its last step, and `publishingStep` is
`engineStep` with the outputs computed where the source computes them
(`publishingStep_engine`: dropping the outputs gives `engineStep`).

`Client` reads the outputs of every step. Results: `tokens_published_exactly_once`, over every run.
-/

namespace SparseVllm

open SparseVllm.Lib

variable {ε σ B κ ν : Type}

namespace Sequence

/-- `completion_token_ids`. -/
def completionTokenIds (seq : Sequence B) : List Nat :=
  seq.tokenIds.drop seq.numPromptTokens

/-- `should_publish_sample`. -/
def shouldPublishSample (seq : Sequence B) : Bool :=
  !seq.isRecomputeReplay

/-- `is_last_chunk_prefill`. -/
def isLastChunkPrefill (seq : Sequence B) : Except SequenceError Bool :=
  match seq.currentChunkSize with
  | none => .error .chunkSizeMissing
  | some chunk => .ok (decide (seq.numPromptTokens ≤ seq.numPrefilledTokens + chunk))

/-- `seq.should_publish_sample and (not is_prefill or seq.is_last_chunk_prefill)`. -/
def publishes (isPrefill : Bool) (seq : Sequence B) : Except SequenceError Bool :=
  if seq.shouldPublishSample = false then .ok false
  else if isPrefill = false then .ok true
  else seq.isLastChunkPrefill

end Sequence

/-- The log-probabilities of a token, and those of its alternatives. -/
abbrev LogprobOutput := List (Option Float) × List (Option (List (Nat × Float)))

/-- `last_step_token_outputs` and `last_step_logprob_outputs`. -/
structure StepOutputs where
  tokenOutputs : List (SeqId × List Nat) := []
  logprobOutputs : List (SeqId × LogprobOutput) := []

/-- The sample of a request, published before the others. -/
def StepOutputs.cons (seq : SeqId) (sample : Sample) (outputs : StepOutputs) : StepOutputs where
  tokenOutputs := (seq, [sample.tokenId]) :: outputs.tokenOutputs
  logprobOutputs := (seq, [sample.logprob], [sample.topLogprobs]) :: outputs.logprobOutputs

/-- The engine, with what its last step published. -/
structure Publisher (σ B : Type) where
  engine : Engine σ B
  outputs : StepOutputs := {}

section Step

variable (cfg : SchedulerConfig) (memory : MemoryOracle ε σ B κ ν) (runner : ModelRunner ε σ B)

/-- A part of the step that does not touch the outputs. -/
def onEngine {α : Type} (m : StepM ε σ B ν α) : EStateM (StepError ε ν) (Publisher σ B) α :=
  zoom Publisher.engine (fun e p => { p with engine := e }) id m

/-- The loop of `step` that collects the outputs of a batch. -/
def collectOutputs (samples : SeqId → Sample) (isPrefill : Bool) :
    List SeqId → StepM ε σ B ν StepOutputs
  | [] => pure {}
  | seq :: rest => do
    let e ← get
    match (e.request seq).publishes isPrefill with
    | .error error => throw (.sequence seq error)
    | .ok published => do
      let outputs ← collectOutputs samples isPrefill rest
      pure (if published then outputs.cons seq (samples seq) else outputs)

variable [DecidableEq κ] [DecidableEq ν]

/-- `LLMEngine.step`, with its outputs. -/
def publishingStep : EStateM (StepError ε ν) (Publisher σ B) ScheduleResult := do
  modify fun p => { p with outputs := {} }
  let result ← onEngine (beginStep cfg memory runner)
  if result.seqs = [] then do
    onEngine (idleStep memory result)
    return result
  else do
    let samples ← onEngine (executeBatch runner result.seqs result.isPrefill)
    let outputs ← onEngine (collectOutputs samples result.isPrefill result.seqs)
    onEngine (postprocess cfg memory result.seqs samples result.isPrefill)
    modify fun p => { p with outputs := outputs }
    onEngine (releaseFinished runner result.seqs)
    onEngine (onScheduler (countPrefillModes memory))
    return result

end Step

/-! ## What a client has read -/

/-- The outputs of a step that name the request. -/
def reportedFor {α : Type} (seq : SeqId) (outputs : List (SeqId × α)) : List α :=
  outputs.filterMap fun output => if output.1 = seq then some output.2 else none

/-- A client of the engine: what it has read of each request since it added it. -/
structure Client (σ B : Type) where
  publisher : Publisher σ B
  added : List SeqId := []
  tokens : SeqId → List Nat := fun _ => []
  logprobs : SeqId → List (Option Float) := fun _ => []
  topLogprobs : SeqId → List (Option (List (Nat × Float))) := fun _ => []

namespace Client

def request (c : Client σ B) (seq : SeqId) : Sequence B := c.publisher.engine.request seq

/-- The client reads the outputs of the last step. -/
def read (c : Client σ B) : Client σ B :=
  { c with
    tokens := fun seq =>
      c.tokens seq ++ (reportedFor seq c.publisher.outputs.tokenOutputs).flatten
    logprobs := fun seq =>
      c.logprobs seq ++ (reportedFor seq c.publisher.outputs.logprobOutputs).flatMap Prod.fst
    topLogprobs := fun seq =>
      c.topLogprobs seq ++ (reportedFor seq c.publisher.outputs.logprobOutputs).flatMap Prod.snd }

/-- A request is added: nothing of it has been read. -/
def opens (c : Client σ B) (seq : SeqId) (engine : Engine σ B) : Client σ B where
  publisher := { c.publisher with engine := engine }
  added := seq :: c.added
  tokens := Function.update c.tokens seq []
  logprobs := Function.update c.logprobs seq []
  topLogprobs := Function.update c.topLogprobs seq []

variable [DecidableEq κ] [DecidableEq ν]

/-- One operation: after a step the client reads its outputs. -/
def exec (cfg : SchedulerConfig) (memory : MemoryOracle ε σ B κ ν) (runner : ModelRunner ε σ B)
    (op : EngineOp) (c : Client σ B) : Client σ B :=
  match op with
  | .step => { c with publisher := stateAfter (publishingStep cfg memory runner) c.publisher }.read
  | .add seq .. => c.opens seq (op.exec cfg memory runner c.publisher.engine)

/-- A step returns, and an added request is one that the engine may add. -/
def Allowed (cfg : SchedulerConfig) (memory : MemoryOracle ε σ B κ ν) (runner : ModelRunner ε σ B)
    (c : Client σ B) (op : EngineOp) : Prop :=
  match op with
  | .step => (raises (publishingStep cfg memory runner) c.publisher).isNone = true
  | .add .. => op.Allowed cfg memory runner c.publisher.engine

end Client

/-! ## What a landing adds to a completion -/

namespace Sequence

/-- The samples are what the completion grew by. -/
structure Grown (samples : List Sample) (a b : Sequence B) : Prop where
  tokens : b.completionTokenIds = a.completionTokenIds ++ samples.map Sample.tokenId
  logprobs : b.completionTokenLogprobs = a.completionTokenLogprobs ++ samples.map Sample.logprob
  topLogprobs :
    b.completionTopLogprobs = a.completionTopLogprobs ++ samples.map Sample.topLogprobs

theorem Grown.trans {a b c : Sequence B} {first second : List Sample} (h : Grown first a b)
    (h' : Grown second b c) : Grown (first ++ second) a c := by
  refine ⟨?_, ?_, ?_⟩
  · rw [h'.tokens, h.tokens, List.map_append, List.append_assoc]
  · rw [h'.logprobs, h.logprobs, List.map_append, List.append_assoc]
  · rw [h'.topLogprobs, h.topLogprobs, List.map_append, List.append_assoc]

/-- The history and the prompt are the same: nothing was added. -/
theorem Grown.of_same {a b : Sequence B} (h : SameHistory a b)
    (prompt : b.numPromptTokens = a.numPromptTokens) : Grown [] a b := by
  refine ⟨?_, ?_, ?_⟩
  · rw [List.map_nil, List.append_nil]
    unfold completionTokenIds
    rw [h.tokenIds, prompt]
  · rw [List.map_nil, List.append_nil, h.completionTokenLogprobs]
  · rw [List.map_nil, List.append_nil, h.completionTopLogprobs]

theorem Grown.append {a : Sequence B} (prompt : a.numPromptTokens ≤ a.tokenIds.length)
    (sample : Sample) : Grown [sample] a (a.appendToken sample) :=
  ⟨List.drop_append_of_le_length prompt, rfl, rfl⟩

theorem publishes_replay {isPrefill : Bool} {a : Sequence B} (h : a.isRecomputeReplay = true) :
    a.publishes isPrefill = .ok false := by
  unfold publishes shouldPublishSample
  rw [h]
  rfl

theorem publishes_prefill {a : Sequence B} (h : a.isRecomputeReplay = false) {chunk : Nat}
    (given : a.currentChunkSize = some chunk) :
    a.publishes true = .ok (decide (a.numPromptTokens ≤ a.numPrefilledTokens + chunk)) := by
  unfold publishes shouldPublishSample isLastChunkPrefill
  rw [h, given]
  rfl

theorem publishes_decode {a : Sequence B} (h : a.isRecomputeReplay = false) :
    a.publishes false = .ok true := by
  unfold publishes shouldPublishSample
  rw [h]
  rfl

/-- What is published comes from no replay, and from no chunk but the last. -/
theorem accepted_of_publishes {isPrefill : Bool} {a : Sequence B}
    (h : a.publishes isPrefill = .ok true) : a.isRecomputeReplay = false ∧
      (isPrefill = true → ∃ chunk, a.currentChunkSize = some chunk ∧
        a.numPromptTokens ≤ a.numPrefilledTokens + chunk) := by
  cases hreplay : a.isRecomputeReplay with
  | true =>
    rw [publishes_replay hreplay] at h
    cases h
  | false =>
    refine ⟨rfl, ?_⟩
    rintro rfl
    cases hchunk : a.currentChunkSize with
    | none =>
      unfold publishes shouldPublishSample isLastChunkPrefill at h
      rw [hreplay, hchunk] at h
      cases h
    | some chunk =>
      rw [publishes_prefill hreplay hchunk] at h
      exact ⟨chunk, rfl, of_decide_eq_true (Except.ok.inj h)⟩

end Sequence

open Sequence

/-- A request landed: its completion grew by its sample if the step publishes it, and by nothing
otherwise. -/
def Landed (isPrefill : Bool) (sample : Sample) (a b : Sequence B) : Prop :=
  ∃ published, a.publishes isPrefill = .ok published ∧
    Grown (if published then [sample] else []) a b

section Landings

variable {cfg : SchedulerConfig} {sample : Sample} {seq : SeqId} {a b : Sequence B}
variable {waiting decoding waiting' decoding' : List SeqId}

theorem Acceptance.grown (land : Acceptance cfg sample seq a decoding b decoding')
    (prompt : a.numPromptTokens ≤ a.tokenIds.length) : Grown [sample] a b := by
  cases land with
  | lives => exact .append prompt sample
  | ends =>
    have happend := Grown.append prompt sample
    exact ⟨happend.tokens, happend.logprobs, happend.topLogprobs⟩

/-- Publishing and accepting agree on a prefill: both look at the end of the chunk. -/
theorem PrefillLanding.landed
    (land : PrefillLanding cfg sample seq a waiting decoding b waiting' decoding')
    (h : a.Accepted) : Landed true sample a b := by
  have hprompt : a.numPromptTokens ≤ a.tokenIds.length := h.tokens ▸ h.prompt
  cases land with
  | more chunk given short =>
    refine ⟨false, ?_, .of_same ⟨rfl, rfl, rfl, rfl⟩ rfl⟩
    cases hreplay : a.isRecomputeReplay with
    | true => exact publishes_replay hreplay
    | false => rw [publishes_prefill hreplay given, decide_eq_false (not_le.mpr short)]
  | replays chunk given full replay | recovers chunk given full replay =>
    exact ⟨false, publishes_replay replay, .of_same ⟨rfl, rfl, rfl, rfl⟩ rfl⟩
  | accepts chunk b decoding' given full fresh accepted =>
    refine ⟨true, ?_, ?_⟩
    · rw [publishes_prefill fresh given, decide_eq_true full]
    · have hgrown := accepted.grown hprompt
      exact ⟨hgrown.tokens, hgrown.logprobs, hgrown.topLogprobs⟩

/-- They agree on a decode, where publishing looks at the cursor alone: the prompt is complete. -/
theorem DecodeLanding.landed (land : DecodeLanding cfg sample seq a decoding b decoding')
    (h : Generates a) : Landed false sample a b := by
  have hprompt : a.numPromptTokens ≤ a.tokenIds.length := h.accepted.tokens ▸ h.accepted.prompt
  have hdecode : a.isRecomputeDecode = a.isRecomputeReplay := by
    unfold isRecomputeDecode
    rw [h.prefilled, decide_eq_true (le_refl _), Bool.and_true]
  cases land with
  | replays replay | recovers replay =>
    exact ⟨false, publishes_replay (hdecode ▸ replay), .of_same ⟨rfl, rfl, rfl, rfl⟩ rfl⟩
  | accepts b decoding' fresh accepted =>
    exact ⟨true, publishes_decode (hdecode ▸ fresh), accepted.grown hprompt⟩

end Landings

/-! ### Scheduling adds nothing -/

section Scheduling

variable {memory : MemoryOracle ε σ B κ ν}

theorem Refreshed.numPromptTokens {a b : Sequence B} (h : Refreshed memory a b) :
    b.numPromptTokens = a.numPromptTokens := by
  rcases h with rfl | ⟨-, -, len, count, last, -, rfl⟩
  · rfl
  · rfl

theorem Chunked.numPromptTokens {a b : Sequence B} (h : Chunked memory a b) :
    b.numPromptTokens = a.numPromptTokens := by
  obtain ⟨request, remaining, tokens, hrefresh, -, -, -, rfl⟩ := h
  refine Eq.trans ?_ hrefresh.numPromptTokens
  unfold Sequence.withChunk Sequence.startedAtPrefixHit
  split
  · split <;> rfl
  · rfl

theorem Outcome.numPromptTokens {s t : Scheduler σ B} {r : ScheduleResult}
    (out : Outcome memory s r t) (q : SeqId) :
    (t.world.seqs q).numPromptTokens = (s.world.seqs q).numPromptTokens := by
  cases out with
  | prefill batch some none waits decodes requests =>
    have hq := requests q
    split at hq
    · exact hq.numPromptTokens
    · exact hq.numPromptTokens
  | decode batch none waits decodes distinct queued requests => exact (requests q).numPromptTokens
  | preempt victim g result decodes waits refreshed requests =>
    refine Eq.trans ?_ (refreshed q).numPromptTokens
    rw [requests]
    by_cases hq : q = victim
    · subst hq
      rw [Function.update_self]
      unfold Sequence.restarted
      split <;> rfl
    · rw [Function.update_of_ne hq]
      unfold handOff
      split <;> rfl

theorem Refreshed.grown {a b : Sequence B} (h : Refreshed memory a b) : Grown [] a b :=
  .of_same h.sameHistory h.numPromptTokens

theorem Outcome.grown {s t : Scheduler σ B} {r : ScheduleResult} (out : Outcome memory s r t)
    (q : SeqId) : Grown [] (s.world.seqs q) (t.world.seqs q) :=
  .of_same (out.sameHistory q) (out.numPromptTokens q)

end Scheduling

/-! ## One step -/

/-- The samples of some requests, published. -/
def StepOutputs.ofSamples (samples : SeqId → Sample) (reported : List SeqId) : StepOutputs where
  tokenOutputs := reported.map fun seq => (seq, [(samples seq).tokenId])
  logprobOutputs := reported.map fun seq =>
    (seq, [(samples seq).logprob], [(samples seq).topLogprobs])

/-- What the step reports of a batch: the requests whose sample it publishes. -/
structure Reports (isPrefill : Bool) (f : SeqId → Sequence B) (batch reported : List SeqId) :
    Prop where
  sub : reported.Sublist batch
  exact : ∀ q ∈ batch, (f q).publishes isPrefill = .ok (decide (q ∈ reported))

section Loops

variable {f : SeqId → Sequence B} {ran : SeqId → List (Nat × Int)}
variable {waiting decoding : List SeqId} {isPrefill : Bool}

theorem Reports.cons {batch reported : List SeqId} (h : Reports isPrefill f batch reported)
    {seq : SeqId} (fresh : seq ∉ batch) {published : Bool}
    (publishes : (f seq).publishes isPrefill = .ok published) :
    Reports isPrefill f (seq :: batch) (if published then seq :: reported else reported) := by
  have hout : seq ∉ reported := fun hin => fresh (h.sub.subset hin)
  cases published with
  | true =>
    refine ⟨h.sub.cons_cons seq, fun q hq => ?_⟩
    rcases List.mem_cons.mp hq with rfl | hq
    · rw [publishes]
      simp
    · have hne : q ≠ seq := fun heq => fresh (heq ▸ hq)
      rw [h.exact q hq]
      simp [hne]
  | false =>
    refine ⟨h.sub.cons seq, fun q hq => ?_⟩
    rcases List.mem_cons.mp hq with rfl | hq
    · rw [publishes]
      simp [hout]
    · exact h.exact q hq

/-- Collecting the outputs reads the requests. -/
theorem collectOutputs_reads (samples : SeqId → Sample) (isPrefill : Bool) (batch : List SeqId)
    (e : Engine σ B) :
    Returns (· = e) (collectOutputs (ε := ε) (ν := ν) samples isPrefill batch)
      fun _ t => t = e := by
  induction batch with
  | nil => exact Spec.pure fun _ he => he
  | cons seq rest ih =>
    refine Spec.get_bind fun u hu => ?_
    rw [hu]
    cases (e.request seq).publishes isPrefill with
    | error error => exact Spec.throw fun _ _ => trivial
    | ok published => exact Spec.bind ih fun outputs => Spec.pure fun t ht => ht

theorem collectOutputs_reports (isPrefill : Bool) (samples : SeqId → Sample) (e : Engine σ B) :
    ∀ (batch : List SeqId), batch.Nodup →
      Returns (· = e) (collectOutputs (ε := ε) (ν := ν) samples isPrefill batch)
        fun outputs _ => ∃ reported, Reports isPrefill e.request batch reported ∧
          outputs = .ofSamples samples reported
  | [], _ => Spec.pure fun _ _ => ⟨[], ⟨.refl _, nofun⟩, rfl⟩
  | seq :: rest, hnd => by
    obtain ⟨hfresh, hnd⟩ := List.nodup_cons.mp hnd
    refine Spec.get_bind fun _ he => ?_
    rw [he]
    cases hpublishes : (e.request seq).publishes isPrefill with
    | error error => exact Spec.throw fun _ _ => trivial
    | ok published =>
      refine Spec.bind (collectOutputs_reports isPrefill samples e rest hnd) fun outputs =>
        Spec.pure fun t ht => ?_
      obtain ⟨reported, hreports, rfl⟩ := ht
      refine ⟨_, hreports.cons hfresh hpublishes, ?_⟩
      cases published <;> rfl

/-- Inside `postprocess`, which has `rest` of the batch still to treat. -/
structure Landing (isPrefill : Bool) (samples : SeqId → Sample) (batch : List SeqId)
    (f : SeqId → Sequence B) (rest : List SeqId) (g : SeqId → Sequence B) : Prop where
  apart : rest.Nodup
  ready : ∀ q ∈ rest, q ∈ batch ∧ g q = f q ∧ Ready isPrefill (f q)
  others : ∀ q ∉ batch, g q = f q
  landed : ∀ q ∈ batch, q ∉ rest → Landed isPrefill (samples q) (f q) (g q)

theorem Landing.treat {samples : SeqId → Sample} {batch rest : List SeqId}
    {g : SeqId → Sequence B} {seq : SeqId} {b : Sequence B}
    (h : Landing isPrefill samples batch f (seq :: rest) g)
    (land : Landed isPrefill (samples seq) (g seq) b) :
    Landing isPrefill samples batch f rest (Function.update g seq b) := by
  obtain ⟨hfresh, hapart⟩ := List.nodup_cons.mp h.apart
  obtain ⟨hmember, hsame, -⟩ := h.ready seq List.mem_cons_self
  refine ⟨hapart, fun q hq => ?_, fun q hq => ?_, fun q hq hout => ?_⟩
  · have hne : q ≠ seq := fun heq => hfresh (heq ▸ hq)
    rw [Function.update_of_ne hne]
    exact h.ready q (List.mem_cons_of_mem _ hq)
  · have hne : q ≠ seq := fun heq => hq (heq ▸ hmember)
    rw [Function.update_of_ne hne]
    exact h.others q hq
  · by_cases heq : q = seq
    · subst heq
      rw [Function.update_self, ← hsame]
      exact land
    · rw [Function.update_of_ne heq]
      exact h.landed q hq (by simp [heq, hout])

theorem postprocess_lands (cfg : SchedulerConfig) {memory : MemoryOracle ε σ B κ ν}
    (hits : WritesHitsOnly memory) (samples : SeqId → Sample) {batch : List SeqId}
    (apart : batch.Nodup) (ready : ∀ q ∈ batch, Ready isPrefill (f q)) :
    Returns (Engine.Is f ran waiting decoding) (postprocess cfg memory batch samples isPrefill)
      fun _ e => (∀ q ∉ batch, e.request q = f q) ∧
        ∀ q ∈ batch, Landed isPrefill (samples q) (f q) (e.request q) := by
  have hpost : Returns
      (fun e => ∃ g w d, Landing isPrefill samples batch f batch g ∧ Engine.Is g ran w d e)
      (postprocess cfg memory batch samples isPrefill)
      fun _ e => ∃ g w d, Landing isPrefill samples batch f [] g ∧ Engine.Is g ran w d e := by
    cases isPrefill with
    | true =>
      refine postprocess_prefill (I := fun rest g _ _ => Landing true samples batch f rest g)
        cfg hits (fun hlanding land => ?_) batch
      obtain ⟨-, hsame, hready⟩ := hlanding.ready _ List.mem_cons_self
      have hprefills : Prefills _ := hsame ▸ hready
      exact hlanding.treat (land.landed hprefills.accepted)
    | false =>
      refine postprocess_decode (I := fun rest g _ _ => Landing false samples batch f rest g)
        cfg (fun hlanding land => ?_) batch
      obtain ⟨-, hsame, hready⟩ := hlanding.ready _ List.mem_cons_self
      have hgenerates : Generates _ := hsame ▸ hready
      exact hlanding.treat (land.landed hgenerates)
  have hstart : Landing isPrefill samples batch f batch f :=
    ⟨apart, fun q hq => ⟨hq, rfl, ready q hq⟩, fun _ _ => rfl, fun q hq hout => absurd hq hout⟩
  refine (hpost.pre fun e he => ⟨f, waiting, decoding, hstart, he⟩).post fun _ e he => ?_
  obtain ⟨g, w, d, hlanding, he⟩ := he
  have hrequest : ∀ q, e.request q = g q := fun q => congrFun he.1.1 q
  exact ⟨fun q hq => (hrequest q).trans (hlanding.others q hq), fun q hq =>
    (hrequest q) ▸ hlanding.landed q hq List.not_mem_nil⟩

end Loops

theorem onEngine_runs {α : Type} {m : StepM ε σ B ν α} {p : Publisher σ B} :
    Returns (· = p) (onEngine m) fun a q =>
      m p.engine = .ok a q.engine ∧ q.outputs = p.outputs := by
  rintro _ rfl
  unfold onEngine zoom
  cases h : m _ with
  | ok a e => exact ⟨rfl, rfl⟩
  | error error e => trivial

section Step

variable {cfg : SchedulerConfig} {memory : MemoryOracle ε σ B κ ν} {runner : ModelRunner ε σ B}
variable [DecidableEq κ] [DecidableEq ν]

/-- The parts of a step that returned. -/
inductive StepRun (cfg : SchedulerConfig) (memory : MemoryOracle ε σ B κ ν)
    (runner : ModelRunner ε σ B) (start : Engine σ B) (result : ScheduleResult)
    (p : Publisher σ B) : Prop
  | idle (t : Engine σ B) (begun : beginStep cfg memory runner start = .ok result t)
      (none : result.seqs = []) (rest : idleStep memory result t = .ok () p.engine)
      (outputs : p.outputs = {})
  | batch (t u v w x : Engine σ B) (samples : SeqId → Sample)
      (begun : beginStep cfg memory runner start = .ok result t)
      (some : result.seqs ≠ [])
      (executed : executeBatch (ν := ν) runner result.seqs result.isPrefill t = .ok samples u)
      (collected : collectOutputs (ε := ε) (ν := ν) samples result.isPrefill result.seqs u = .ok p.outputs v)
      (landed : postprocess cfg memory result.seqs samples result.isPrefill v = .ok () w)
      (released : releaseFinished (ν := ν) runner result.seqs w = .ok () x)
      (counted : onScheduler (countPrefillModes memory) x = .ok () p.engine)

theorem publishingStep_runs (cfg : SchedulerConfig) (memory : MemoryOracle ε σ B κ ν)
    (runner : ModelRunner ε σ B) (p : Publisher σ B) :
    Returns (· = p) (publishingStep cfg memory runner) fun r q =>
      StepRun cfg memory runner p.engine r q := by
  refine Spec.bind (R := fun _ q => q = { p with outputs := {} })
    (Spec.modify fun q hq => hq ▸ rfl) fun _ => ?_
  refine Spec.bind onEngine_runs fun r => Spec.intro fun t ht => ?_
  obtain ⟨hbegin, houtputs⟩ := ht
  refine Spec.ite (fun hnone => ?_) fun hsome => ?_
  · refine Spec.bind onEngine_runs fun _ => Spec.pure fun q hq => ?_
    exact .idle t.engine hbegin hnone hq.1 (hq.2.trans houtputs)
  refine Spec.bind onEngine_runs fun samples => Spec.intro fun u hu => ?_
  refine Spec.bind onEngine_runs fun outputs => Spec.intro fun v hv => ?_
  refine Spec.bind onEngine_runs fun _ => Spec.intro fun w hw => ?_
  refine Spec.bind (R := fun _ q => q = { w with outputs := outputs })
    (Spec.modify fun q hq => hq ▸ rfl) fun _ => ?_
  refine Spec.bind onEngine_runs fun _ => Spec.intro fun x hx => ?_
  refine Spec.bind onEngine_runs fun _ => Spec.pure fun q hq => ?_
  obtain rfl : q.outputs = outputs := hq.2.trans hx.2
  exact .batch _ _ _ _ _ samples hbegin hsome hu.1 hv.1 hw.1 hx.1 hq.1

/-- Dropping the outputs gives the engine's step. -/
theorem StepRun.engine {start : Engine σ B} {r : ScheduleResult} {p : Publisher σ B}
    (run : StepRun cfg memory runner start r p) :
    engineStep cfg memory runner start = .ok r p.engine := by
  unfold engineStep
  cases run with
  | idle t begun none rest =>
    rw [bind_ok begun, if_pos none, bind_ok rest]
    rfl
  | batch t u v w x samples begun some executed collected landed released counted =>
    have hread : v = u := by
      have := collectOutputs_reads (ε := ε) (ν := ν) samples r.isPrefill r.seqs u u rfl
      rw [collected] at this
      exact this
    subst hread
    have hbatch : runBatch cfg memory runner r t = .ok () w := by
      unfold runBatch
      rw [bind_ok executed]
      exact landed
    rw [bind_ok begun, if_neg some, bind_ok hbatch, bind_ok released, bind_ok counted]
    rfl

variable (hits : WritesHitsOnly memory) (fits : RemainsInPrompt memory) (reads : RunnerReads runner)

omit [DecidableEq κ] [DecidableEq ν] in
include hits in
theorem countPrefillModes_grown {e t : Engine σ B}
    (run : onScheduler (countPrefillModes memory) e = .ok () t) (q : SeqId) :
    Grown [] (e.request q) (t.request q) := by
  have hcount := (Spec.start (countPrefillModes_refreshes (ε := ε) (ν := ν) hits) e.is_self) e rfl
  rw [run] at hcount
  obtain ⟨g, hrefresh, ht⟩ := hcount
  rw [show t.request q = g q from congrFun ht.1.1 q]
  exact (hrefresh q).grown

omit [DecidableEq κ] [DecidableEq ν] in
include reads in
theorem releaseFinished_request {seqs : List SeqId} {e t : Engine σ B}
    (run : releaseFinished (ν := ν) runner seqs e = .ok () t) (q : SeqId) :
    t.request q = e.request q := by
  have hrelease := (Spec.start (releaseFinished_is (ν := ν) reads seqs) e.is_self) e rfl
  rw [run] at hrelease
  exact congrFun hrelease.1.1 q

omit [DecidableEq κ] [DecidableEq ν] in
include hits in
theorem idleStep_grown {r : ScheduleResult} {e t : Engine σ B}
    (run : idleStep memory r e = .ok () t) (q : SeqId) :
    Grown [] (e.request q) (t.request q) := by
  have hidle : Returns (· = e) (idleStep memory r) fun _ u =>
      onScheduler (countPrefillModes memory) e = .ok () u := by
    refine Spec.get_bind fun u hu => Spec.raiseIf_bind (fun _ _ _ => trivial) fun _ => ?_
    subst hu
    rintro _ rfl
    cases h : onScheduler (countPrefillModes memory) _ with
    | ok a t => rfl
    | error error t => trivial
  have hcount := hidle e rfl
  rw [run] at hcount
  exact countPrefillModes_grown hits hcount q

/-- **Publishing and accepting agree**, over one step: the requests reported are those whose sample
the step publishes, and each completion grows by what is reported of it. -/
structure StepPublished (cfg : SchedulerConfig) (memory : MemoryOracle ε σ B κ ν)
    (runner : ModelRunner ε σ B) (start : Engine σ B) (r : ScheduleResult) (p : Publisher σ B)
    (samples : SeqId → Sample) (reported : List SeqId) : Prop where
  outputs : p.outputs = .ofSamples samples reported
  distinct : reported.Nodup
  reports : ∀ t, beginStep cfg memory runner start = .ok r t →
    Reports r.isPrefill t.request r.seqs reported
  grown : ∀ q, Grown (if q ∈ reported then [samples q] else []) (start.request q)
    (p.engine.request q)

include hits fits reads in
theorem StepRun.published {start : Engine σ B} {r : ScheduleResult} {p : Publisher σ B}
    (run : StepRun cfg memory runner start r p) (coherent : start.Coherent memory) :
    ∃ samples reported, StepPublished cfg memory runner start r p samples reported := by
  have houtcome := beginStep_outcome reads hits cfg coherent.distinct start rfl
  cases run with
  | idle t begun none rest outputs =>
    rw [begun] at houtcome
    refine ⟨fun _ => { tokenId := 0 }, [], outputs, List.nodup_nil, fun u hu => ?_, fun q => ?_⟩
    · rw [none]
      exact ⟨.refl _, nofun⟩
    · exact (houtcome.1.grown q).trans (idleStep_grown hits rest q)
  | batch t u v w x samples begun some executed collected landed released counted =>
    rw [begun] at houtcome
    obtain ⟨hout, hran⟩ := houtcome
    have hbegun := hout.begun fits coherent some
    have hready : ∀ q ∈ r.seqs, Ready r.isPrefill (t.request q) := fun q hq => (hbegun.ready q hq).1
    -- The batch runs, and the outputs are collected, on the requests as the pass left them.
    have hexecuted := Spec.start (executeBatch_is (ν := ν) reads r.isPrefill hbegun.apart) t.is_self t rfl
    rw [executed] at hexecuted
    have hcollected := collectOutputs_reports (ε := ε) (ν := ν) r.isPrefill
      samples u r.seqs hbegun.apart u rfl
    have hread := collectOutputs_reads (ε := ε) (ν := ν) samples r.isPrefill r.seqs u u rfl
    rw [collected] at hcollected hread
    obtain rfl : v = u := hread
    obtain ⟨reported, hreports, houtputs⟩ := hcollected
    have hsame : v.request = t.request := hexecuted.1.1
    rw [hsame] at hreports
    have hlanded := Spec.start (postprocess_lands cfg hits samples hbegun.apart hready) hexecuted v rfl
    rw [landed] at hlanded
    refine ⟨samples, reported, houtputs, hbegun.apart.sublist hreports.sub, fun t' ht' => ?_,
      fun q => ?_⟩
    · rw [begun] at ht'
      cases ht'
      exact hreports
    have hland : Grown (if q ∈ reported then [samples q] else []) (t.request q) (w.request q) := by
      by_cases hq : q ∈ r.seqs
      · obtain ⟨published, hpublishes, hgrown⟩ := hlanded.2 q hq
        obtain rfl : published = decide (q ∈ reported) :=
          Except.ok.inj (hpublishes.symm.trans (hreports.exact q hq))
        simpa only [decide_eq_true_iff] using hgrown
      · rw [if_neg fun hin => hq (hreports.sub.subset hin), hlanded.1 q hq]
        exact .of_same (.refl _) rfl
    have hafter : Grown [] (w.request q) (p.engine.request q) := by
      rw [← releaseFinished_request reads released q]
      exact countPrefillModes_grown hits counted q
    have hgrown := ((hout.grown q).trans hland).trans hafter
    rw [List.nil_append, List.append_nil] at hgrown
    exact hgrown

end Step

/-! ## Runs -/

/-- Distinct requests: at most one output names a request. -/
theorem reportedFor_map {α : Type} (seq : SeqId) (output : SeqId → α) {reported : List SeqId}
    (distinct : reported.Nodup) :
    reportedFor seq (reported.map fun q => (q, output q)) =
      if seq ∈ reported then [output seq] else [] := by
  unfold reportedFor
  induction reported with
  | nil => rfl
  | cons q rest ih =>
    obtain ⟨hfresh, hrest⟩ := List.nodup_cons.mp distinct
    by_cases hq : q = seq
    · subst hq
      have hnone := ih hrest
      rw [if_neg hfresh] at hnone
      simp [hnone]
    · have hne : seq ≠ q := fun heq => hq heq.symm
      rw [List.map_cons, List.filterMap_cons_none (by simp [hq]), ih hrest]
      simp [hne]

/-- The client has read the completion of the request. -/
structure Client.HasRead (c : Client σ B) (seq : SeqId) : Prop where
  tokens : c.tokens seq = (c.request seq).completionTokenIds
  logprobs : c.logprobs seq = (c.request seq).completionTokenLogprobs
  topLogprobs : c.topLogprobs seq = (c.request seq).completionTopLogprobs

section Runs

variable (cfg : SchedulerConfig) {memory : MemoryOracle ε σ B κ ν} {runner : ModelRunner ε σ B}
variable [DecidableEq κ] [DecidableEq ν]

/-- Reading the outputs of a step reads what it added. -/
theorem Client.HasRead.step {c : Client σ B} {r : ScheduleResult} {p : Publisher σ B}
    {samples : SeqId → Sample} {reported : List SeqId} {seq : SeqId} (h : c.HasRead seq)
    (step : StepPublished cfg memory runner c.publisher.engine r p samples reported) :
    Client.HasRead (Client.read { c with publisher := p }) seq := by
  have hgrown := step.grown seq
  have htokens : (reportedFor seq p.outputs.tokenOutputs).flatten =
      (if seq ∈ reported then [samples seq] else []).map Sample.tokenId := by
    rw [step.outputs]
    unfold StepOutputs.ofSamples
    rw [reportedFor_map seq _ step.distinct]
    split <;> rfl
  have hlogprobs : reportedFor seq p.outputs.logprobOutputs =
      (if seq ∈ reported then [samples seq] else []).map
        fun sample => ([sample.logprob], [sample.topLogprobs]) := by
    rw [step.outputs]
    unfold StepOutputs.ofSamples
    rw [reportedFor_map seq _ step.distinct]
    split <;> rfl
  refine ⟨?_, ?_, ?_⟩
  · show c.tokens seq ++ _ = _
    rw [h.tokens, htokens]
    exact hgrown.tokens.symm
  · show c.logprobs seq ++ _ = _
    rw [h.logprobs, hlogprobs, List.flatMap_map]
    refine Eq.trans ?_ hgrown.logprobs.symm
    split <;> rfl
  · show c.topLogprobs seq ++ _ = _
    rw [h.topLogprobs, hlogprobs, List.flatMap_map]
    refine Eq.trans ?_ hgrown.topLogprobs.symm
    split <;> rfl

omit [DecidableEq κ] [DecidableEq ν] in
theorem addRequest_self (seq : SeqId) (request : Sequence B) (reused : Nat) (e : Engine σ B) :
    (addRequest seq request reused e).request seq =
      { request with numPrefilledTokens := reused, prefixCacheHitLen := reused } :=
  Function.update_self ..

omit [DecidableEq κ] [DecidableEq ν] in
theorem addRequest_of_ne {seq q : SeqId} (hq : q ≠ seq) (request : Sequence B) (reused : Nat)
    (e : Engine σ B) : (addRequest seq request reused e).request q = e.request q :=
  Function.update_of_ne hq ..

omit [DecidableEq κ] [DecidableEq ν] in
/-- A request is added without a completion, and the others are as they were. -/
theorem Client.HasRead.add {c : Client σ B} {seq q : SeqId} {request : Sequence B} {reused : Nat}
    (tokens : request.completionTokenIds = []) (logprobs : request.completionTokenLogprobs = [])
    (topLogprobs : request.completionTopLogprobs = []) (h : q ≠ seq → c.HasRead q) :
    (c.opens seq (addRequest seq request reused c.publisher.engine)).HasRead q := by
  by_cases hq : q = seq
  · subst hq
    have hrequest : (c.opens q (addRequest q request reused c.publisher.engine)).request q =
        { request with numPrefilledTokens := reused, prefixCacheHitLen := reused } :=
      addRequest_self ..
    refine ⟨(Function.update_self ..).trans ?_, (Function.update_self ..).trans ?_,
      (Function.update_self ..).trans ?_⟩
    · rw [hrequest]
      exact tokens.symm
    · rw [hrequest]
      exact logprobs.symm
    · rw [hrequest]
      exact topLogprobs.symm
  · have hread := h hq
    have hrequest : (c.opens seq (addRequest seq request reused c.publisher.engine)).request q =
        c.request q := addRequest_of_ne hq ..
    refine ⟨(Function.update_of_ne hq ..).trans ?_, (Function.update_of_ne hq ..).trans ?_,
      (Function.update_of_ne hq ..).trans ?_⟩
    · rw [hrequest]
      exact hread.tokens
    · rw [hrequest]
      exact hread.logprobs
    · rw [hrequest]
      exact hread.topLogprobs

variable (hits : WritesHitsOnly memory) (fits : RemainsInPrompt memory) (reads : RunnerReads runner)

/-- What holds between two operations of a client. -/
structure Client.Faithful (memory : MemoryOracle ε σ B κ ν) (c : Client σ B) : Prop where
  coherent : c.publisher.engine.Coherent memory
  read : ∀ q ∈ c.added, c.HasRead q

include hits fits reads

/-- One operation of a client. -/
theorem Client.Faithful.exec {c : Client σ B} (h : c.Faithful memory) {op : EngineOp}
    (allowed : c.Allowed cfg memory runner op) :
    (Client.exec cfg memory runner op c).Faithful memory := by
  cases op with
  | step =>
    have hruns := publishingStep_runs cfg memory runner c.publisher c.publisher rfl
    unfold Client.Allowed raises at allowed
    unfold Client.exec
    cases hstep : publishingStep cfg memory runner c.publisher with
    | error error p =>
      rw [hstep] at allowed
      cases allowed
    | ok r p =>
      rw [hstep] at hruns
      rw [stateAfter_ok hstep]
      have hengine := engineStep_coherent cfg hits fits reads c.publisher.engine h.coherent
      rw [StepRun.engine hruns] at hengine
      obtain ⟨samples, reported, hpublished⟩ :=
        StepRun.published hits fits reads hruns h.coherent
      exact ⟨hengine, fun q hq => (h.read q hq).step cfg hpublished⟩
  | add seq tokenIds params positionDelta hasDigest fullPrefill reused =>
    have hengine : Engine.Coherent memory (EngineOp.exec cfg memory runner
        (.add seq tokenIds params positionDelta hasDigest fullPrefill reused)
        c.publisher.engine) :=
      addRequest_coherent cfg h.coherent params positionDelta hasDigest fullPrefill allowed.1
        allowed.2
    refine ⟨hengine, fun q hq => ?_⟩
    exact Client.HasRead.add List.drop_length rfl rfl fun hne =>
      h.read q ((List.mem_cons.mp hq).resolve_left hne)

/-- **Each accepted token is published exactly once.** In every run, what a client has read of a
request, step by step, is its completion, with the log-probabilities of each token. In every step
of the run, an output reports one token of one request of the batch, which was not replaying and
whose prefill chunk was the last; no request is reported twice; and the logprob outputs have one
entry for each reported token. -/
theorem tokens_published_exactly_once {init c : Client σ B}
    (emptyWaiting : init.publisher.engine.scheduler.waiting = [])
    (emptyDecoding : init.publisher.engine.scheduler.decoding = []) (noneAdded : init.added = [])
    (run : Reachable (Client.exec cfg memory runner) (Client.Allowed cfg memory runner) init c) :
    (∀ q ∈ c.added, c.tokens q = (c.request q).completionTokenIds ∧
      c.logprobs q = (c.request q).completionTokenLogprobs ∧
      c.topLogprobs q = (c.request q).completionTopLogprobs) ∧
    ∀ r p e, publishingStep cfg memory runner c.publisher = .ok r p →
      beginStep cfg memory runner c.publisher.engine = .ok r e →
      (p.outputs.tokenOutputs.map Prod.fst).Nodup ∧
      (p.outputs.logprobOutputs.map fun output =>
          (output.1, output.2.1.length, output.2.2.length)) =
        (p.outputs.tokenOutputs.map fun output =>
          (output.1, output.2.length, output.2.length)) ∧
      ∀ output ∈ p.outputs.tokenOutputs, output.1 ∈ r.seqs ∧ output.2.length = 1 ∧
        (e.request output.1).isRecomputeReplay = false ∧
        (r.isPrefill = true → ∃ chunk, (e.request output.1).currentChunkSize = some chunk ∧
          (e.request output.1).numPromptTokens ≤
            (e.request output.1).numPrefilledTokens + chunk) := by
  have hfaithful : c.Faithful memory := by
    refine run.invariant (I := Client.Faithful memory) ?_ fun t op ht hok =>
      ht.exec cfg hits fits reads hok
    refine ⟨?_, fun q hq => ?_⟩
    · unfold Engine.Coherent
      rw [emptyWaiting, emptyDecoding]
      exact ⟨List.nodup_nil, nofun, nofun, nofun⟩
    · rw [noneAdded] at hq
      cases hq
  refine ⟨fun q hq => ?_, fun r p e hstep hbegin => ?_⟩
  · have hread := hfaithful.read q hq
    exact ⟨hread.tokens, hread.logprobs, hread.topLogprobs⟩
  have hruns := publishingStep_runs cfg memory runner c.publisher c.publisher rfl
  rw [hstep] at hruns
  obtain ⟨samples, reported, hpublished⟩ :=
    StepRun.published hits fits reads hruns hfaithful.coherent
  have hreports := hpublished.reports e hbegin
  rw [hpublished.outputs]
  unfold StepOutputs.ofSamples
  refine ⟨?_, ?_, fun output houtput => ?_⟩
  · rw [List.map_map]
    exact (List.map_id _).symm ▸ hpublished.distinct
  · rw [List.map_map, List.map_map]
    rfl
  · obtain ⟨q, hq, rfl⟩ := List.mem_map.mp houtput
    have hbatch := hreports.sub.subset hq
    have hpublishes := hreports.exact q hbatch
    rw [decide_eq_true hq] at hpublishes
    obtain ⟨hfresh, hlast⟩ := accepted_of_publishes hpublishes
    exact ⟨hbatch, rfl, hfresh, hlast⟩

end Runs

/-! ### A run with a preemption -/

instance (cfg : SchedulerConfig) [DecidableEq κ] [DecidableEq ν] (memory : MemoryOracle ε σ B κ ν)
    (runner : ModelRunner ε σ B) (c : Client σ B) :
    ∀ op : EngineOp, Decidable (c.Allowed cfg memory runner op)
  | .step => inferInstanceAs (Decidable ((raises (publishingStep cfg memory runner)
      c.publisher).isNone = true))
  | .add seq tokenIds params positionDelta hasDigest fullPrefill reused =>
    inferInstanceAs (Decidable (EngineOp.Allowed cfg memory runner c.publisher.engine
      (.add seq tokenIds params positionDelta hasDigest fullPrefill reused)))

/-- A client without requests. -/
def idleClient : Client Unit Unit where
  publisher := { engine := idleEngine }

/-- A run of a client on a pool of 8 slots. -/
def pooledClient (steps : Nat) : Client Unit Unit :=
  runAll (Client.exec smallConfig (pooledOracle 8) constantRunner) idleClient (twoRequests steps)

theorem pooledClient_allowed : Along (Client.exec smallConfig (pooledOracle 8) constantRunner)
    (Client.Allowed smallConfig (pooledOracle 8) constantRunner) idleClient (twoRequests 9) := by
  decide +kernel

/-- Request 1 publishes two tokens, is preempted by the third step, publishes nothing while the sixth
and the seventh step rebuild its rows, and publishes its last two tokens. -/
theorem tokens_published_exactly_once_pool :
    (pooledClient 2).tokens 1 = [9, 9] ∧ (pooledClient 7).tokens 1 = [9, 9] ∧
      (pooledClient 9).tokens 1 = [9, 9, 9, 9] ∧
      (pooledClient 9).tokens 1 = ((pooledClient 9).request 1).completionTokenIds := by
  have hadded : 1 ∈ (pooledClient 9).added := by decide +kernel
  have hrun : Reachable (Client.exec smallConfig (pooledOracle 8) constantRunner)
      (Client.Allowed smallConfig (pooledOracle 8) constantRunner) idleClient (pooledClient 9) :=
    Reachable.runAll .init pooledClient_allowed
  refine ⟨by decide +kernel, by decide +kernel, by decide +kernel, ?_⟩
  exact ((tokens_published_exactly_once smallConfig (pooledOracle_writesHitsOnly 8)
    (pooledOracle_remainsInPrompt 8) constantRunner_reads rfl rfl rfl hrun).1 1 hadded).1

end SparseVllm
