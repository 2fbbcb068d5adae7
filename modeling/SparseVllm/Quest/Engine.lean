import SparseVllm.Quest.View
import SparseVllm.Scheduler.LongText
import SparseVllm.Scheduler.Replay

/-!
# QuEST rows along a run of the engine

The engine's step with a `QuestCacheManager` under it: rows are freed for the preempted and the
finished requests and grow with the batch. `QuestEngine.Sound` is what holds between two steps: a
row is as long as the inputs executed on it.

Results: `quest_views_valid_iff`, over every run and every decode batch.
-/

namespace SparseVllm

open SparseVllm.Lib

variable {ε σ B κ ν : Type}

/-- The engine and its cache manager. -/
structure QuestEngine (σ B : Type) where
  engine : Engine σ B
  cache : QuestCache

/-- What a step raises. -/
inductive QuestStepError (ε ν : Type) where
  | engine (error : StepError ε ν)
  | cache (error : QuestError)

section Step

variable (g : QuestGeometry)

/-- `prepare_step` of the cache manager: `graph` is the context capacity of the captured graph that
runs a decode batch, if one does. -/
def prepareQuest (graph : Option Nat) (requests : SeqId → Sequence B) (result : ScheduleResult) :
    QuestM Unit :=
  if result.isPrefill then
    forEach result.seqs fun seq =>
      preparePrefillRow g seq (requests seq).numPrefilledTokens
        ((requests seq).currentChunkSize.getD 0)
  else
    match graph with
    | some contextCapacity => prepareDecodeGraphStep g contextCapacity result.seqs
    | none => allocateBatch g result.seqs

/-- The rows of the preempted requests are freed, and the batch is prepared. -/
def beginQuest (graph : Option Nat) (requests : SeqId → Sequence B) (result : ScheduleResult) :
    QuestM Unit := do
  forEach result.preempted (freeSeq g)
  if result.seqs = [] then pure () else prepareQuest g graph requests result

/-- The requests of the batch that have ended. -/
def finishedSeqs (requests : SeqId → Sequence B) (seqs : List SeqId) : List SeqId :=
  seqs.filter fun seq => (requests seq).status = .finished

/-- A method of the engine. -/
def onQuestEngine {α : Type} (m : StepM ε σ B ν α) :
    EStateM (QuestStepError ε ν) (QuestEngine σ B) α :=
  zoom QuestEngine.engine (fun e q => { q with engine := e }) .engine m

/-- A method of the cache manager. -/
def onQuestCache {α : Type} (m : QuestM α) : EStateM (QuestStepError ε ν) (QuestEngine σ B) α :=
  zoom QuestEngine.cache (fun c q => { q with cache := c }) .cache m

variable [DecidableEq κ] [DecidableEq ν]
variable (cfg : SchedulerConfig) (memory : MemoryOracle ε σ B κ ν) (runner : ModelRunner ε σ B)

/-- `LLMEngine.step`, with the rows of the cache manager. -/
def questStep (graph : Option Nat) : EStateM (QuestStepError ε ν) (QuestEngine σ B) ScheduleResult := do
  let result ← onQuestEngine (beginStep cfg memory runner)
  let q ← get
  onQuestCache (beginQuest g graph q.engine.request result)
  if result.seqs = [] then do
    onQuestEngine (idleStep memory result)
    return result
  else do
    onQuestEngine (runBatch cfg memory runner result)
    let q ← get
    onQuestCache (forEach (finishedSeqs q.engine.request result.seqs) (freeSeq g))
    onQuestEngine (releaseFinished runner result.seqs)
    onQuestEngine (onScheduler (countPrefillModes memory))
    return result

/-- What the engine is asked to do. QuEST resumes no chain, so a request starts with no tokens. -/
inductive QuestOp where
  | step (graph : Option Nat)
  | add (seq : SeqId) (tokenIds : List Nat) (params : SamplingParams) (positionDelta : Int)
      (hasDigest fullPrefill : Bool)

/-- One operation. -/
def QuestOp.exec : QuestOp → QuestEngine σ B → QuestEngine σ B
  | .step graph, q => stateAfter (questStep g cfg memory runner graph) q
  | .add seq tokenIds params positionDelta hasDigest fullPrefill, q =>
    let request : EngineOp := .add seq tokenIds params positionDelta hasDigest fullPrefill 0
    { q with engine := request.exec cfg memory runner q.engine }

/-- A step returns (a raise ends the run), and an id is not added twice. -/
def QuestOp.Allowed (q : QuestEngine σ B) : QuestOp → Prop
  | .step graph => (raises (questStep g cfg memory runner graph) q).isNone = true
  | .add seq .. => seq ∉ q.engine.scheduler.waiting ++ q.engine.scheduler.decoding ∧
      q.cache.seqIdToRow seq = none

instance QuestOp.decidableAllowed (q : QuestEngine σ B) (op : QuestOp) :
    Decidable (QuestOp.Allowed g cfg memory runner q op) := by
  cases op <;> (unfold QuestOp.Allowed; infer_instance)

/-- A decode batch whose rows are prepared: the pass returned `result` and left the engine `t`, and
the cache manager is `c`. -/
structure DecodePrepared (q : QuestEngine σ B) (result : ScheduleResult) (t : Engine σ B)
    (c : QuestCache) : Prop where
  begun : beginStep cfg memory runner q.engine = .ok result t
  decode : result.isPrefill = false
  nonempty : result.seqs ≠ []
  prepared : ∃ graph, beginQuest g graph t.request result q.cache = .ok () c

end Step

/-! ## Rows and executed inputs -/

/-- What holds between two steps: a row is as long as the inputs executed on it. -/
structure QuestEngine.Sound (g : QuestGeometry) (memory : MemoryOracle ε σ B κ ν)
    (q : QuestEngine σ B) : Prop where
  coherent : q.engine.Coherent memory
  formed : q.cache.WellFormed g
  rows : ∀ s, q.cache.rowLen s = (q.engine.executed s).length

section Rows

variable {g : QuestGeometry} {c : QuestCache}

open QuestCache

/-- Distinct requests give their rows back. -/
theorem freeSeqs_release (seqs : List SeqId) : ∀ {c : QuestCache}, c.WellFormed g →
    Returns (· = c) (forEach seqs (freeSeq g)) fun _ c' => c'.WellFormed g ∧
      ∀ s, c'.rowLen s = if s ∈ seqs then 0 else c.rowLen s := by
  induction seqs with
  | nil =>
    intro c h
    refine Spec.pure fun u hu => ?_
    obtain rfl : c = u := hu.symm
    exact ⟨h, fun s => (if_neg List.not_mem_nil).symm⟩
  | cons seq seqs ih =>
    intro c h
    refine Spec.bind (freeSeq_releases h seq).returns fun _ => Spec.intro fun u hu => ?_
    obtain ⟨hu, hlen, -⟩ := hu
    refine (ih hu).post fun _ v hv => ⟨hv.1, fun s => ?_⟩
    rw [hv.2, hlen]
    by_cases hs : s ∈ seqs
    · rw [if_pos hs, if_pos (List.mem_cons_of_mem _ hs)]
    · simp only [List.mem_cons, hs, if_false, or_false]

/-- The requests of a prefill batch grow by their chunks. -/
theorem preparePrefillRows_append (requests : SeqId → Sequence B) (seqs : List SeqId) :
    ∀ {c : QuestCache}, c.WellFormed g → seqs.Nodup →
      Returns (· = c) (forEach seqs fun seq => preparePrefillRow g seq
          (requests seq).numPrefilledTokens ((requests seq).currentChunkSize.getD 0))
        fun _ c' => c'.WellFormed g ∧ ∀ s, c'.rowLen s =
          c.rowLen s + if s ∈ seqs then (requests s).currentChunkSize.getD 0 else 0 := by
  induction seqs with
  | nil =>
    intro c h _
    refine Spec.pure fun u hu => ?_
    obtain rfl : c = u := hu.symm
    exact ⟨h, fun s => by rw [if_neg List.not_mem_nil, Nat.add_zero]⟩
  | cons seq seqs ih =>
    intro c h hnd
    obtain ⟨hfresh, hnd⟩ := List.nodup_cons.mp hnd
    refine Spec.bind (preparePrefillRow_appends h seq _ _).returns fun _ => Spec.intro fun u hu => ?_
    refine (ih hu.formed hnd).post fun _ v hv => ⟨hv.1, fun s => ?_⟩
    rw [hv.2, hu.rowLen]
    by_cases hs : s = seq
    · subst hs
      rw [if_pos (List.mem_singleton_self _), if_neg hfresh, if_pos List.mem_cons_self, Nat.add_zero]
    · rw [if_neg (by simpa using hs), Nat.add_zero]
      simp only [List.mem_cons, hs, false_or]

/-- The requests of a batch grow by what the batch runs for them. -/
theorem prepareQuest_appends (graph : Option Nat) (requests : SeqId → Sequence B)
    {result : ScheduleResult} (h : c.WellFormed g) (hnd : result.seqs.Nodup) :
    Returns (· = c) (prepareQuest g graph requests result) fun _ c' => c'.WellFormed g ∧
      (∀ s, c'.rowLen s = c.rowLen s + if s ∈ result.seqs then
        (if result.isPrefill then (requests s).currentChunkSize.getD 0 else 1) else 0) ∧
      (result.isPrefill = false → ∀ s ∈ result.seqs, ∃ row, c'.seqIdToRow s = some row) := by
  unfold prepareQuest
  cases hprefill : result.isPrefill with
  | true =>
    exact (preparePrefillRows_append requests result.seqs h hnd).post fun _ u hu =>
      ⟨hu.1, hu.2, nofun⟩
  | false =>
    cases graph with
    | none =>
      exact (allocateBatch_appends h hnd).returns.post fun _ u hu =>
        ⟨hu.formed, hu.rowLen, fun _ => hu.placed⟩
    | some contextCapacity =>
      exact (prepareDecodeGraphStep_appends h contextCapacity hnd).post fun _ u hu =>
        ⟨hu.formed, hu.rowLen, fun _ => hu.placed⟩

/-- The rows of the preempted requests are empty, and the batch is prepared on the others. -/
theorem beginQuest_appends (graph : Option Nat) (requests : SeqId → Sequence B)
    {result : ScheduleResult} (h : c.WellFormed g) (hnd : result.seqs.Nodup) :
    Returns (· = c) (beginQuest g graph requests result) fun _ c' => c'.WellFormed g ∧
      (∀ s, c'.rowLen s = (if s ∈ result.preempted then 0 else c.rowLen s) +
        if s ∈ result.seqs then
          (if result.isPrefill then (requests s).currentChunkSize.getD 0 else 1) else 0) ∧
      (result.isPrefill = false → ∀ s ∈ result.seqs, ∃ row, c'.seqIdToRow s = some row) := by
  refine Spec.bind (freeSeqs_release result.preempted h) fun _ => Spec.intro fun u hu => ?_
  obtain ⟨hu, hlen⟩ := hu
  refine Spec.ite (fun hnone => Spec.pure fun v hv => ?_) fun _ =>
    (prepareQuest_appends graph requests hu hnd).post fun _ v hv => ⟨hv.1, fun s => ?_, hv.2.2⟩
  · obtain rfl : u = v := hv.symm
    refine ⟨hu, fun s => ?_, fun _ s hs => ?_⟩
    · rw [hlen, hnone, if_neg List.not_mem_nil, Nat.add_zero]
    · rw [hnone] at hs
      cases hs
  · rw [hv.2.1, hlen]

end Rows

section Runs

variable {memory : MemoryOracle ε σ B κ ν} {runner : ModelRunner ε σ B}

theorem onQuestEngine_returns {α : Type} {m : StepM ε σ B ν α} {P : Engine σ B → Prop}
    {Q : α → Engine σ B → Prop} {c : QuestCache} (h : Returns P m Q) :
    Returns (fun q => P q.engine ∧ q.cache = c) (onQuestEngine m)
      fun a q => Q a q.engine ∧ q.cache = c := by
  refine Spec.zoom fun q hq => (Spec.pre h ?_).conseq (fun _ h => h) ?_ fun _ _ _ => trivial
  · rintro e rfl
    exact hq.1
  · exact fun a e he => ⟨he, hq.2⟩

theorem onQuestCache_returns {α : Type} {m : QuestM α} {P : QuestCache → Prop}
    {Q : α → QuestCache → Prop} {e : Engine σ B} (h : Returns P m Q) :
    Returns (fun q => P q.cache ∧ q.engine = e) (onQuestCache (ε := ε) (ν := ν) m)
      fun a q => Q a q.cache ∧ q.engine = e := by
  refine Spec.zoom fun q hq => (Spec.pre h ?_).conseq (fun _ h => h) ?_ fun _ _ _ => trivial
  · rintro c rfl
    exact hq.1
  · exact fun a c hc => ⟨hc, hq.2⟩

/-- The scheduler does not execute. -/
theorem onScheduler_executed {α : Type} (m : SchedM ε σ B ν α) (ran : SeqId → List (Nat × Int)) :
    Returns (fun e => e.executed = ran) (onScheduler m) fun _ e => e.executed = ran :=
  ((onScheduler_returns (P := fun _ => True) (Spec.trivial m)).pre fun _ h => ⟨trivial, h⟩).post
    fun _ _ h => h.2

/-- What a batch runs for a request is what its row grows by. -/
theorem ranBatch_length {isPrefill : Bool} {f : SeqId → Sequence B} {seqs : List SeqId}
    {ran : SeqId → List (Nat × Int)} (ready : ∀ s ∈ seqs, Ready isPrefill (f s)) (s : SeqId) :
    (ranBatch f isPrefill seqs ran s).length = (ran s).length +
      if s ∈ seqs then (if isPrefill then (f s).currentChunkSize.getD 0 else 1) else 0 := by
  unfold ranBatch
  by_cases hs : s ∈ seqs
  · rw [if_pos hs, if_pos hs, (ready s hs).inputs, List.length_append]
    congr 1
    unfold Sequence.inputsFrom Sequence.stopPoint
    rw [List.length_map, List.length_range', Nat.add_sub_cancel_left]
  · rw [if_neg hs, if_neg hs, Nat.add_zero]

variable [DecidableEq κ] [DecidableEq ν] (g : QuestGeometry) (cfg : SchedulerConfig)
variable (hits : WritesHitsOnly memory) (fits : RemainsInPrompt memory) (reads : RunnerReads runner)

omit [DecidableEq κ] [DecidableEq ν] in
include hits in
theorem idleStep_coherent (result : ScheduleResult) (ran : SeqId → List (Nat × Int)) :
    Returns (fun e => e.Coherent memory ∧ e.executed = ran) (idleStep memory result)
      fun _ e => e.Coherent memory ∧ e.executed = ran := by
  refine Spec.get_bind fun e he => Spec.raiseIf_bind (fun _ _ _ => trivial) fun _ => ?_
  exact Returns.and ((countPrefillModes_coherent hits).pre fun t ht => ht ▸ he.1)
    ((onScheduler_executed _ ran).pre fun t ht => ht ▸ he.2)

include hits fits reads

/-- A step keeps the rows as long as the inputs executed on them. -/
theorem questStep_sound (graph : Option Nat) :
    Returns (QuestEngine.Sound g memory) (questStep g cfg memory runner graph)
      fun _ => QuestEngine.Sound g memory := by
  refine Spec.intro fun q hq => ?_
  refine Spec.bind (Spec.start (onQuestEngine_returns
    (beginStep_outcome reads hits cfg hq.coherent.distinct)) ⟨rfl, rfl⟩) fun r => ?_
  refine Spec.get_bind fun t ht => ?_
  obtain ⟨⟨hout, hran⟩, hcache⟩ := ht
  have hnd : r.seqs.Nodup := by
    by_cases hnone : r.seqs = []
    · rw [hnone]
      exact List.nodup_nil
    · exact (hout.begun fits hq.coherent hnone).apart
  refine Spec.bind (Spec.start (onQuestCache_returns (beginQuest_appends graph t.engine.request
    (hcache ▸ hq.formed : t.cache.WellFormed g) hnd)) ⟨rfl, rfl⟩) fun _ => Spec.intro fun u hu => ?_
  obtain ⟨⟨hformed, hrows, -⟩, hengine⟩ := hu
  have hkept : ∀ s, (if s ∈ r.preempted then 0 else t.cache.rowLen s) = (t.engine.executed s).length := by
    intro s
    rw [hran, hcache]
    simp only
    split
    · rfl
    · exact hq.rows s
  refine Spec.ite (fun hnone => ?_) fun hsome => ?_
  · refine Spec.bind (Spec.start (onQuestEngine_returns (idleStep_coherent hits r t.engine.executed))
      ⟨⟨?_, ?_⟩, rfl⟩) fun _ => Spec.pure fun v hv => ⟨hv.1.1, ?_, fun s => ?_⟩
    · rw [hengine]
      have := hout.idle hq.coherent hnone
      unfold Engine.Coherent
      rw [hran]
      exact this
    · rw [hengine]
    · rw [hv.2]
      exact hformed
    · rw [hv.2, hv.1.2, hrows, hkept, hnone, if_neg List.not_mem_nil, Nat.add_zero]
  have hbegun := hout.begun fits hq.coherent hsome
  have his : u.engine.Is t.engine.scheduler.world.seqs (keptRows r q.engine.executed)
      t.engine.scheduler.waiting t.engine.scheduler.decoding := by
    rw [hengine]
    exact ⟨⟨rfl, rfl, rfl⟩, hran⟩
  refine Spec.bind (Spec.start (onQuestEngine_returns (runBatch_rebuilds cfg hits reads hbegun))
    ⟨his, rfl⟩) fun _ => ?_
  refine Spec.get_bind fun v hv => ?_
  obtain ⟨⟨hcoherent, -, hexecuted⟩, hcache'⟩ := hv
  have hlens : ∀ s, v.cache.rowLen s = (v.engine.executed s).length := by
    intro s
    rw [hcache', hexecuted, hrows, hkept, hran, ranBatch_length fun s hs => (hbegun.ready s hs).1]
    rfl
  refine Spec.bind (Spec.start (onQuestCache_returns (freeSeqs_release
    (finishedSeqs v.engine.request r.seqs) (hcache' ▸ hformed : v.cache.WellFormed g))) ⟨rfl, rfl⟩)
    fun _ => Spec.intro fun w hw => ?_
  obtain ⟨⟨hformed', hrows'⟩, hengine'⟩ := hw
  have hfinished : ∀ s, s ∈ finishedSeqs v.engine.request r.seqs ↔
      s ∈ r.seqs ∧ (v.engine.request s).status = .finished := by
    intro s
    unfold finishedSeqs
    rw [List.mem_filter, decide_eq_true_iff]
  have hrelease : Returns (· = v.engine) (releaseFinished (ν := ν) runner r.seqs) fun _ e =>
      e.Coherent memory ∧ e.Is v.engine.scheduler.world.seqs (fun s =>
        if s ∈ r.seqs ∧ (v.engine.request s).status = .finished then [] else v.engine.executed s)
        v.engine.scheduler.waiting v.engine.scheduler.decoding :=
    Returns.and (Spec.start (releaseFinished_coherent reads r.seqs) hcoherent)
      (Spec.start (releaseFinished_is reads r.seqs) v.engine.is_self)
  refine Spec.bind (Spec.start (onQuestEngine_returns hrelease) ⟨hengine', rfl⟩) fun _ =>
    Spec.intro fun x hx => ?_
  obtain ⟨⟨hcoherent', hreleased⟩, hcache''⟩ := hx
  have hcount : Returns (· = x.engine) (onScheduler (countPrefillModes (ν := ν) memory)) fun _ e =>
      e.Coherent memory ∧ e.executed = x.engine.executed :=
    Returns.and (Spec.start (countPrefillModes_coherent hits) hcoherent')
      (Spec.start (onScheduler_executed _ _) rfl)
  refine Spec.bind (Spec.start (onQuestEngine_returns hcount) ⟨rfl, rfl⟩) fun _ =>
    Spec.pure fun y hy => ⟨hy.1.1, ?_, fun s => ?_⟩
  · rw [hy.2, hcache'']
    exact hformed'
  · rw [hy.2, hcache'', hy.1.2, hrows', hreleased.2]
    simp only [hfinished]
    split
    · rfl
    · exact hlens s

/-- Every state of a run is sound. -/
theorem reachable_quest_sound {init q : QuestEngine σ B} {numPages numRows : Nat}
    (emptyWaiting : init.engine.scheduler.waiting = [])
    (emptyDecoding : init.engine.scheduler.decoding = [])
    (unexecuted : init.engine.executed = fun _ => [])
    (cache : init.cache = .initial numPages numRows)
    (run : Reachable (QuestOp.exec g cfg memory runner) (QuestOp.Allowed g cfg memory runner)
      init q) : q.Sound g memory := by
  refine run.invariant (I := QuestEngine.Sound g memory) ⟨?_, ?_, fun s => ?_⟩ fun t op ht hok => ?_
  · unfold Engine.Coherent
    rw [emptyWaiting, emptyDecoding]
    exact ⟨List.nodup_nil, nofun, nofun, nofun⟩
  · rw [cache]
    exact QuestCache.wellFormed_initial numPages numRows
  · rw [cache, unexecuted]
    rfl
  · cases op with
    | step graph =>
      have hstep := questStep_sound g cfg hits fits reads graph t ht
      have hok : (raises (questStep g cfg memory runner graph) t).isNone = true := hok
      unfold raises at hok
      show QuestEngine.Sound g memory (stateAfter (questStep g cfg memory runner graph) t)
      cases hrun : questStep g cfg memory runner graph t with
      | ok r u =>
        rw [hrun] at hstep
        rw [stateAfter_ok hrun]
        exact hstep
      | error error u => rw [hrun] at hok; cases hok
    | add seq tokenIds params positionDelta hasDigest fullPrefill =>
      have hcoherent : (EngineOp.exec cfg memory runner
          (.add seq tokenIds params positionDelta hasDigest fullPrefill 0) t.engine).Coherent memory :=
        addRequest_coherent cfg ht.coherent params positionDelta hasDigest fullPrefill hok.1
          (Or.inl rfl)
      refine ⟨hcoherent, ht.formed, fun s => ?_⟩
      show t.cache.rowLen s = (Function.update t.engine.executed seq [] s).length
      by_cases hs : s = seq
      · subst hs
        rw [Function.update_self]
        unfold QuestCache.rowLen
        rw [hok.2]
        rfl
      · rw [Function.update_of_ne hs]
        exact ht.rows s

/-- The rows of a decode batch: as long as the inputs run, this one included, so no longer than the
requests. A replay has a shorter one. -/
theorem DecodePrepared.rows {q : QuestEngine σ B} {result : ScheduleResult} {t : Engine σ B}
    {c : QuestCache} (h : DecodePrepared g cfg memory runner q result t c)
    (sound : q.Sound g memory) : c.WellFormed g ∧ ∀ s ∈ result.seqs,
      (∃ row, c.seqIdToRow s = some row) ∧ 0 < c.rowLen s ∧
        c.rowLen s ≤ (t.request s).numTokens := by
  obtain ⟨graph, hprepared⟩ := h.prepared
  have houtcome := beginStep_outcome reads hits cfg sound.coherent.distinct q.engine rfl
  rw [h.begun] at houtcome
  obtain ⟨hout, hran⟩ := houtcome
  have hbegun := hout.begun fits sound.coherent h.nonempty
  have hrows := beginQuest_appends graph t.request sound.formed hbegun.apart q.cache rfl
  rw [hprepared] at hrows
  obtain ⟨hformed, hlens, hplaced⟩ := hrows
  refine ⟨hformed, fun s hs => ⟨hplaced h.decode s hs, ?_⟩⟩
  obtain ⟨hready, hhit, hexecuted⟩ := hbegun.ready s hs
  rw [h.decode] at hready
  have hbounds := Generates.reached_bounds hready
  have hlen : c.rowLen s = ((t.request s).reached - (t.request s).prefixCacheHitLen) + 1 := by
    have hkept : (if s ∈ result.preempted then 0 else q.cache.rowLen s) =
        (keptRows result q.engine.executed s).length := by
      unfold keptRows
      split
      · rfl
      · exact sound.rows s
    rw [hlens, hkept, hexecuted, if_pos hs, h.decode]
    unfold Sequence.inputsFrom
    rw [List.length_map, List.length_range']
    rfl
  have hreached : (t.request s).reached < (t.request s).numTokens := hbounds.2
  omega

variable {S : Type} [LinearOrder S]

/-- **When the views of a decode batch are valid.** In every run, for every decode batch the
scheduler returns and the flag the batch has, every pinned context length that covers its rows, every
`batchSize` (a graph pads the batch) and every layer from the skipped ones on: the paged view of each
row is valid exactly when each row meets `PagedCovers`, and the token view exactly when each row meets
`TokenCovers`. -/
theorem quest_views_valid_iff {init q : QuestEngine σ B} {numPages numRows : Nat}
    (emptyWaiting : init.engine.scheduler.waiting = [])
    (emptyDecoding : init.engine.scheduler.decoding = [])
    (unexecuted : init.engine.executed = fun _ => [])
    (cache : init.cache = .initial numPages numRows)
    (run : Reachable (QuestOp.exec g cfg memory runner) (QuestOp.Allowed g cfg memory runner) init q)
    (method : cfg.sparseMethod = .quest) (budget : 0 < decodeSparseLongTextThreshold cfg)
    {result : ScheduleResult} {t : Engine σ B} {c : QuestCache}
    (batch : DecodePrepared g cfg memory runner q result t c) {maxContextLen : Nat}
    (covers : ∀ s ∈ result.seqs, c.rowLen s ≤ maxContextLen) (batchSize : Nat) :
    ∃ isLong, isLongTextBatch cfg t.request result.seqs = some isLong ∧
      ∀ (topk : TopK S) (scores : SeqId → Nat → S) (skipLayers layer : Nat), skipLayers ≤ layer →
        ((∀ s ∈ result.seqs, ∃ row, c.seqIdToRow s = some row ∧
            (pagedDecodeView g (decodeSparseLongTextThreshold cfg) topk (scores s) c row
              maxContextLen isLong skipLayers layer).Valid g (decodeSparseLongTextThreshold cfg) c
              row) ↔
          ∀ s ∈ result.seqs, PagedCovers g (decodeSparseLongTextThreshold cfg) maxContextLen isLong
            (c.rowLen s)) ∧
        ((∀ s ∈ result.seqs, ∃ row, c.seqIdToRow s = some row ∧
            ∃ v, tokenDecodeView g (decodeSparseLongTextThreshold cfg) topk (scores s) c row
              maxContextLen isLong batchSize skipLayers layer = some v ∧
              v.Valid g (decodeSparseLongTextThreshold cfg) c row) ↔
          ∀ s ∈ result.seqs, TokenCovers g (decodeSparseLongTextThreshold cfg) maxContextLen batchSize
            isLong (c.rowLen s)) := by
  have hsound := reachable_quest_sound g cfg hits fits reads emptyWaiting emptyDecoding unexecuted
    cache run
  obtain ⟨hformed, hrows⟩ := batch.rows g cfg hits fits reads hsound
  obtain ⟨isLong, hside⟩ := beginStep_uniform hits cfg reads batch.begun batch.decode
  refine ⟨isLong, isLongTextBatch_of_uniform batch.nonempty hside, fun topk scores skipLayers layer
    hlayer => ?_⟩
  -- A short row is no longer than its request, which is within the budget.
  have hshort : ∀ s ∈ result.seqs, isLong = false →
      c.rowLen s ≤ decodeSparseLongTextThreshold cfg := by
    intro s hs hfalse
    have hlong := hside s hs
    unfold isLongText at hlong
    rw [method, hfalse] at hlong
    exact (hrows s hs).2.2.trans (not_lt.mp (of_decide_eq_false hlong))
  constructor
  · refine forall₂_congr fun s hs => ?_
    obtain ⟨⟨row, hrow⟩, hpos, -⟩ := hrows s hs
    have hlen := QuestCache.rowLen_of_row hrow
    have hcovers := covers s hs
    have hfits := hshort s hs
    simp only [hrow, Option.some.injEq, exists_eq_left']
    rw [hlen] at hpos hcovers hfits ⊢
    exact pagedDecodeView_valid_iff topk (scores s) hformed hpos hcovers budget hlayer hfits
  · refine forall₂_congr fun s hs => ?_
    obtain ⟨⟨row, hrow⟩, hpos, -⟩ := hrows s hs
    have hlen := QuestCache.rowLen_of_row hrow
    have hcovers := covers s hs
    have hfits := hshort s hs
    simp only [hrow, Option.some.injEq, exists_eq_left']
    rw [hlen] at hpos hcovers hfits ⊢
    exact tokenDecodeView_valid_iff topk (scores s) hformed hpos hcovers budget hlayer hfits batchSize

end Runs

/-! ### A replay with a short row -/

/-- Pages of one token, rows of at most eight. -/
def tokenPages : QuestGeometry where
  pageSize := 1
  maxModelLen := 8

/-- A budget of three tokens. -/
def questConfig : SchedulerConfig :=
  { smallConfig with
    sparseMethod := .quest
    sinkKeepTokens := 1
    recentKeepTokens := 1
    decodeKeepTokens := 1 }

/-- Two requests of one prompt token and six completion tokens, then `steps` steps. -/
def questOps (steps : Nat) : List QuestOp :=
  [.add 1 [7] { maxTokens := 6 } 0 false false, .add 2 [7] { maxTokens := 6 } 0 false false] ++
    List.replicate steps (.step none)

def idleQuest : QuestEngine Unit Unit where
  engine := idleEngine
  cache := .initial 12 2

/-- A run on a pool of 8 slots: the fourth step preempts request 1 with three completion tokens, and
the eighth prefills its prompt again. -/
def questRun (steps : Nat) : QuestEngine Unit Unit :=
  runAll (QuestOp.exec tokenPages questConfig (pooledOracle 8) constantRunner) idleQuest
    (questOps steps)

theorem questRun_reachable : Reachable
    (QuestOp.exec tokenPages questConfig (pooledOracle 8) constantRunner)
    (QuestOp.Allowed tokenPages questConfig (pooledOracle 8) constantRunner) idleQuest
    (questRun 8) := by
  refine Reachable.runAll .init ?_
  decide +kernel

/-- The next step decodes request 1, which has four tokens, on a row of two, and its paged view lists
`pages`. -/
def decodesShortRow (pages : List Int) (q : QuestEngine Unit Unit) : Bool :=
  match beginStep questConfig (pooledOracle 8) constantRunner q.engine with
  | .error _ _ => false
  | .ok r t =>
    match beginQuest tokenPages none t.request r q.cache with
    | .error _ _ => false
    | .ok _ c =>
      decide (r = ⟨[1], false, []⟩) && decide (isLongTextBatch questConfig t.request [1] = some true) &&
        decide ((t.request 1).numTokens = 4) && decide (c.seqIdToRow 1 = some 0) &&
        decide (c.rowLen 1 = 2) &&
        decide ((pagedDecodeView tokenPages 3 (stableTopK Nat) (fun _ => 0) c 0 8 true 0 0).pages =
          pages)

theorem decodesShortRow_prepared (pages : List Int) (q : QuestEngine Unit Unit)
    (h : decodesShortRow pages q = true) :
    ∃ t c, DecodePrepared tokenPages questConfig (pooledOracle 8) constantRunner q
        ⟨[1], false, []⟩ t c ∧
      isLongTextBatch questConfig t.request [1] = some true ∧ (t.request 1).numTokens = 4 ∧
      c.seqIdToRow 1 = some 0 ∧ c.rowLen 1 = 2 ∧
      (pagedDecodeView tokenPages 3 (stableTopK Nat) (fun _ => 0) c 0 8 true 0 0).pages = pages := by
  unfold decodesShortRow at h
  split at h
  · cases h
  · rename_i r t hbegin
    split at h
    · cases h
    · rename_i u c hprepare
      simp only [Bool.and_eq_true, decide_eq_true_iff] at h
      obtain ⟨⟨⟨⟨⟨rfl, hlong⟩, htokens⟩, hrow⟩, hlen⟩, hpages⟩ := h
      exact ⟨t, c, ⟨hbegin, rfl, nofun, none, hprepare⟩, hlong, htokens, hrow, hlen, hpages⟩

/-- **A replay lists a page that is none of its own.** The ninth step decodes the first replayed
token: the request has four tokens, so its batch is long, but its row has two pages, one of which
precedes the last. The view of three pages takes that one and `-1`. -/
theorem quest_view_lists_no_page :
    Reachable (QuestOp.exec tokenPages questConfig (pooledOracle 8) constantRunner)
      (QuestOp.Allowed tokenPages questConfig (pooledOracle 8) constantRunner) idleQuest
      (questRun 8) ∧
    ∃ t c, DecodePrepared tokenPages questConfig (pooledOracle 8) constantRunner (questRun 8)
        ⟨[1], false, []⟩ t c ∧
      isLongTextBatch questConfig t.request [1] = some true ∧ (t.request 1).numTokens = 4 ∧
      c.seqIdToRow 1 = some 0 ∧ c.rowLen 1 = 2 ∧
      (pagedDecodeView tokenPages 3 (stableTopK Nat) (fun _ => 0) c 0 8 true 0 0).pages =
        [11, -1, 9] ∧
      ¬ (pagedDecodeView tokenPages 3 (stableTopK Nat) (fun _ => 0) c 0 8 true 0 0).Valid tokenPages
        3 c 0 := by
  refine ⟨questRun_reachable, ?_⟩
  have hsound := reachable_quest_sound tokenPages questConfig (pooledOracle_writesHitsOnly 8)
    (pooledOracle_remainsInPrompt 8) constantRunner_reads rfl rfl rfl rfl questRun_reachable
  obtain ⟨t, c, hbatch, hlong, htokens, hrow, hlen, hpages⟩ :=
    decodesShortRow_prepared [11, -1, 9] (questRun 8) (by decide +kernel)
  refine ⟨t, c, hbatch, hlong, htokens, hrow, hlen, hpages, fun hvalid => ?_⟩
  obtain ⟨hformed, -⟩ := hbatch.rows tokenPages questConfig (pooledOracle_writesHitsOnly 8)
    (pooledOracle_remainsInPrompt 8) constantRunner_reads hsound
  -- `-1` is the page of no column.
  obtain ⟨col, hcol, hpage⟩ := hvalid.lists.own (-1) (by rw [hpages]; decide)
  obtain ⟨page, hslot, -⟩ := hformed.owned hcol
  omega

/-- On the same run the row of two pages does not cover the three places of its view. -/
theorem quest_views_valid_iff_run : ∃ t c, DecodePrepared tokenPages questConfig (pooledOracle 8)
      constantRunner (questRun 8) ⟨[1], false, []⟩ t c ∧ c.rowLen 1 = 2 ∧
    ¬ ∀ s ∈ [1], ∃ row, c.seqIdToRow s = some row ∧
      (pagedDecodeView tokenPages 3 (stableTopK Nat) (fun _ => 0) c row 8 true 0 0).Valid tokenPages
        3 c row := by
  obtain ⟨t, c, hbatch, hlong, htokens, hrow, hlen, -⟩ :=
    decodesShortRow_prepared [11, -1, 9] (questRun 8) (by decide +kernel)
  refine ⟨t, c, hbatch, hlen, fun hvalid => ?_⟩
  have hcovered : ∀ s ∈ [1], c.rowLen s ≤ 8 := by
    intro s hs
    rw [List.mem_singleton.mp hs, hlen]
    decide
  obtain ⟨isLong, hflag, hviews⟩ := quest_views_valid_iff tokenPages questConfig
    (pooledOracle_writesHitsOnly 8) (pooledOracle_remainsInPrompt 8) constantRunner_reads rfl rfl rfl rfl
    questRun_reachable rfl (by decide) (S := Nat) hbatch hcovered 1
  obtain rfl : true = isLong := Option.some.inj (hlong.symm.trans hflag)
  have hcovers := (hviews (stableTopK Nat) (fun _ _ => 0) 0 0 (le_refl _)).1.mp hvalid 1
    (List.mem_singleton_self 1)
  rw [hlen] at hcovers
  exact absurd hcovers (by decide)

end SparseVllm
