import SparseVllm.Scheduler.Replay

/-!
# Preemption makes progress

Two requests that each fill the cache could preempt each other forever. `_preempt_decode_victim`
refuses to preempt a sole decode unless a replay waits and the victim has published since its
checkpoint; the checkpoint is written when a replay starts, when it ends, and at the handoff to the
survivors of a preemption.

`potential` decreases by one with every preemption: three for every token a queued request may still
publish, one for every decode, one more for every decode that has published since its checkpoint, and
one while the decode queue is empty. A replay prefill pays for the decode it adds with the empty
queue, which is why `_can_continue_prefill_batch` serializes replays.

Results: `preemptions_bounded`.
-/

namespace SparseVllm

open SparseVllm.Lib

variable {ε σ B κ ν : Type}

/-! ## What the guard reads -/

namespace Sequence

/-- The tokens a request may still publish. -/
def tokensLeft (a : Sequence B) : Nat := a.maxTokens - a.numCompletionTokens

/-- It has published since its checkpoint. -/
def hasProgressed (a : Sequence B) : Bool :=
  decide (a.decodeProgressCheckpoint < a.numCompletionTokens)

end Sequence

/-- The fields the guard and the measure read are the same. -/
structure Alike (a b : Sequence B) : Prop where
  numTokens : b.numTokens = a.numTokens
  numPromptTokens : b.numPromptTokens = a.numPromptTokens
  maxTokens : b.maxTokens = a.maxTokens
  cursor : b.recomputeReplayCursor = a.recomputeReplayCursor
  checkpoint : b.decodeProgressCheckpoint = a.decodeProgressCheckpoint

/-- A queued request: it may publish another token, and a replay has a completion and nothing
published since its checkpoint. -/
structure Live (a : Sequence B) : Prop where
  prompt : a.numPromptTokens ≤ a.numTokens
  budget : a.numCompletionTokens < a.maxTokens
  replay : a.isRecomputeReplay = true →
    a.decodeProgressCheckpoint = a.numCompletionTokens ∧ 0 < a.numCompletionTokens

namespace Alike

variable {a b c : Sequence B}

theorem refl (a : Sequence B) : Alike a a := ⟨rfl, rfl, rfl, rfl, rfl⟩

theorem trans (h : Alike a b) (h' : Alike b c) : Alike a c :=
  ⟨h'.1.trans h.1, h'.2.trans h.2, h'.3.trans h.3, h'.4.trans h.4, h'.5.trans h.5⟩

theorem numCompletionTokens (h : Alike a b) : b.numCompletionTokens = a.numCompletionTokens := by
  unfold Sequence.numCompletionTokens
  rw [h.numTokens, h.numPromptTokens]

theorem isRecomputeReplay (h : Alike a b) : b.isRecomputeReplay = a.isRecomputeReplay := by
  unfold Sequence.isRecomputeReplay
  rw [h.cursor]

theorem tokensLeft (h : Alike a b) : b.tokensLeft = a.tokensLeft := by
  unfold Sequence.tokensLeft
  rw [h.maxTokens, h.numCompletionTokens]

theorem hasProgressed (h : Alike a b) : b.hasProgressed = a.hasProgressed := by
  unfold Sequence.hasProgressed
  rw [h.checkpoint, h.numCompletionTokens]

theorem live (h : Alike a b) (ha : Live a) : Live b := by
  refine ⟨?_, ?_, fun hreplay => ?_⟩
  · rw [h.numTokens, h.numPromptTokens]
    exact ha.prompt
  · rw [h.numCompletionTokens, h.maxTokens]
    exact ha.budget
  · rw [h.checkpoint, h.numCompletionTokens]
    exact ha.replay (h.isRecomputeReplay ▸ hreplay)

end Alike

section Outcomes

variable {memory : MemoryOracle ε σ B κ ν} {a b : Sequence B}

theorem Refreshed.alike (h : Refreshed memory a b) : Alike a b := by
  rcases h with rfl | ⟨-, -, len, count, last, -, rfl⟩
  · exact .refl _
  · exact ⟨rfl, rfl, rfl, rfl, rfl⟩

theorem Chunked.alike (h : Chunked memory a b) : Alike a b := by
  obtain ⟨request, remaining, tokens, hrefresh, -, -, -, rfl⟩ := h
  refine hrefresh.alike.trans ?_
  unfold Sequence.withChunk Sequence.startedAtPrefixHit
  split
  · split
    · exact ⟨rfl, rfl, rfl, rfl, rfl⟩
    · exact ⟨rfl, rfl, rfl, rfl, rfl⟩
  · exact ⟨rfl, rfl, rfl, rfl, rfl⟩

/-- The handoff takes the progress of a survivor away, and nothing else the measure reads. -/
theorem Live.handedOff (h : Live a) : Live a.handedOff :=
  ⟨h.prompt, h.budget, fun hreplay => ⟨rfl, (h.replay hreplay).2⟩⟩

theorem Sequence.handedOff_hasProgressed (a : Sequence B) : a.handedOff.hasProgressed = false :=
  decide_eq_false (lt_irrefl _)

theorem Live.restarted (h : Live a) : Live a.restarted := by
  unfold Sequence.restarted
  split
  · exact ⟨h.prompt, h.budget, fun _ => ⟨rfl, ‹_›⟩⟩
  · exact ⟨h.prompt, h.budget, h.replay⟩

theorem Sequence.restarted_numCompletionTokens (a : Sequence B) :
    a.restarted.numCompletionTokens = a.numCompletionTokens := by
  unfold Sequence.restarted
  split
  · rfl
  · rfl

theorem Sequence.restarted_tokensLeft (a : Sequence B) : a.restarted.tokensLeft = a.tokensLeft := by
  unfold Sequence.restarted
  split
  · rfl
  · rfl

end Outcomes

/-! ## The measure -/

/-- The tokens the requests of a list may still publish. -/
def tokensLeftOf (f : SeqId → Sequence B) (seqs : List SeqId) : Nat :=
  (seqs.map fun q => (f q).tokensLeft).sum

/-- The requests of a list that have published since their checkpoint. -/
def progressedOf (f : SeqId → Sequence B) (seqs : List SeqId) : Nat :=
  seqs.countP fun q => (f q).hasProgressed

/-- One while the queue is empty. -/
def emptyCost (decoding : List SeqId) : Nat := if decoding = [] then 1 else 0

/-- What is left to pay for preemptions; `held` is the part of a prefill batch out of the queues. -/
def potential (f : SeqId → Sequence B) (held waiting decoding : List SeqId) : Nat :=
  3 * tokensLeftOf f (held ++ waiting ++ decoding) + decoding.length + progressedOf f decoding +
    emptyCost decoding

section Measure

variable {f g : SeqId → Sequence B} {held waiting decoding : List SeqId} {seq : SeqId}

theorem tokensLeftOf_perm {l l' : List SeqId} (h : l.Perm l') :
    tokensLeftOf f l = tokensLeftOf f l' :=
  (h.map _).sum_nat

theorem tokensLeftOf_cons (q : SeqId) (l : List SeqId) :
    tokensLeftOf f (q :: l) = (f q).tokensLeft + tokensLeftOf f l := by
  unfold tokensLeftOf
  rw [List.map_cons, List.sum_cons]

theorem tokensLeftOf_congr {l : List SeqId} (h : ∀ q ∈ l, (g q).tokensLeft = (f q).tokensLeft) :
    tokensLeftOf g l = tokensLeftOf f l := by
  unfold tokensLeftOf
  rw [List.map_congr_left h]

theorem progressedOf_congr {l : List SeqId}
    (h : ∀ q ∈ l, (g q).hasProgressed = (f q).hasProgressed) :
    progressedOf g l = progressedOf f l :=
  List.countP_congr fun q hq => by rw [h q hq]

theorem emptyCost_perm {l l' : List SeqId} (h : l.Perm l') : emptyCost l = emptyCost l' := by
  unfold emptyCost
  have : l = [] ↔ l' = [] := by rw [← List.length_eq_zero_iff, h.length_eq, List.length_eq_zero_iff]
  simp only [this]

theorem potential_congr {held' waiting' decoding' : List SeqId}
    (alike : ∀ q ∈ held' ++ waiting' ++ decoding', Alike (f q) (g q))
    (all : (held' ++ waiting' ++ decoding').Perm (held ++ waiting ++ decoding))
    (decodes : decoding'.Perm decoding) :
    potential g held' waiting' decoding' = potential f held waiting decoding := by
  unfold potential
  rw [tokensLeftOf_congr fun q hq => (alike q hq).tokensLeft, tokensLeftOf_perm all,
    progressedOf_congr fun q hq => (alike q (List.mem_append_right _ hq)).hasProgressed,
    decodes.length_eq, emptyCost_perm decodes]
  unfold progressedOf
  rw [decodes.countP_eq]

theorem potential_update {b : Sequence B} (h : seq ∉ held ++ waiting ++ decoding) :
    potential (Function.update f seq b) held waiting decoding = potential f held waiting decoding := by
  refine potential_congr (fun q hq => ?_) (.refl _) (.refl _)
  have hne : q ≠ seq := fun heq => h (heq ▸ hq)
  rw [Function.update_of_ne hne]
  exact .refl _

theorem potential_held (f : SeqId → Sequence B) (seq : SeqId) (held waiting decoding : List SeqId) :
    potential f (seq :: held) waiting decoding =
      3 * (f seq).tokensLeft + potential f held waiting decoding := by
  unfold potential
  rw [List.cons_append, List.cons_append, tokensLeftOf_cons]
  omega

/-- One decode among the others. -/
theorem potential_decode (f : SeqId → Sequence B) (held waiting : List SeqId)
    {decoding' : List SeqId} (h : decoding.Perm (seq :: decoding')) :
    potential f held waiting decoding + emptyCost decoding' =
      3 * (f seq).tokensLeft + 1 + (if (f seq).hasProgressed then 1 else 0) +
        potential f held waiting decoding' := by
  unfold potential
  have hall : (held ++ waiting ++ decoding).Perm (seq :: (held ++ waiting ++ decoding')) :=
    ((List.Perm.refl _).append h).trans List.perm_middle
  have hsome : emptyCost decoding = 0 := by
    rw [emptyCost_perm h]
    exact if_neg (List.cons_ne_nil _ _)
  have hcount : progressedOf f decoding =
      progressedOf f decoding' + if (f seq).hasProgressed then 1 else 0 := by
    unfold progressedOf
    rw [h.countP_eq, List.countP_cons]
  rw [tokensLeftOf_perm hall, tokensLeftOf_cons, h.length_eq, List.length_cons, hsome, hcount]
  omega

end Measure

/-! ## What a landing costs -/

/-- A decode has a complete prompt and a completion. -/
structure Running (a : Sequence B) : Prop where
  prefilled : a.numPromptTokens ≤ a.numPrefilledTokens
  completion : 0 < a.numCompletionTokens

/-- One more token is published. -/
structure Publishes (a b : Sequence B) : Prop where
  left : b.tokensLeft + 1 = a.tokensLeft
  count : b.numCompletionTokens = a.numCompletionTokens + 1

/-- A replay went on: nothing is published, and nothing counts as progress. -/
structure Replays (a b : Sequence B) : Prop where
  left : b.tokensLeft = a.tokensLeft
  count : b.numCompletionTokens = a.numCompletionTokens
  checked : b.hasProgressed = false

section Landings

variable {cfg : SchedulerConfig} {sample : Sample} {seq : SeqId} {a b : Sequence B}
variable {waiting decoding waiting' decoding' : List SeqId}

theorem Live.published (h : Live a) (sample : Sample) : Publishes a (a.appendToken sample) := by
  have hprompt := h.prompt
  have hbudget := h.budget
  have hcount : (a.appendToken sample).numCompletionTokens = a.numCompletionTokens + 1 := by
    show a.numTokens + 1 - a.numPromptTokens = a.numTokens - a.numPromptTokens + 1
    omega
  refine ⟨?_, hcount⟩
  unfold Sequence.tokensLeft
  rw [hcount]
  show a.maxTokens - (a.numCompletionTokens + 1) + 1 = _
  omega

theorem Acceptance.paces (land : Acceptance cfg sample seq a decoding b decoding') (h : Live a)
    (fresh : a.isRecomputeReplay = false) : Publishes a b ∧
      b.numPrefilledTokens = a.numPrefilledTokens ∧ b.numPromptTokens = a.numPromptTokens ∧
      b.isRecomputeReplay = false ∧
      (decoding' = decoding ∧ Live b ∨ decoding' = decoding.erase seq) := by
  have hpublishes := h.published sample
  cases land with
  | lives live =>
    refine ⟨hpublishes, rfl, rfl, fresh, Or.inl ⟨rfl, ?_⟩⟩
    refine ⟨Nat.le_succ_of_le h.prompt, ?_, fun hreplay => ?_⟩
    · -- The request did not end, so its last token was not its last one.
      unfold Sequence.endsWith at live
      have hne := (Bool.or_eq_false_iff.mp live).2
      rw [beq_eq_false_iff_ne] at hne
      have hbudget := h.budget
      refine lt_of_le_of_ne ?_ hne
      rw [hpublishes.count]
      exact hbudget
    · rw [show (a.appendToken sample).isRecomputeReplay = false from fresh] at hreplay
      cases hreplay
  | ends done => exact ⟨⟨hpublishes.left, hpublishes.count⟩, rfl, rfl, fresh, Or.inr rfl⟩

/-- What `postprocess` does to a request of a prefill batch, for the measure. -/
inductive PrefillPace (seq : SeqId) (a b : Sequence B) (waiting decoding : List SeqId) :
    List SeqId → List SeqId → Prop where
  | waits (alike : Alike a b) : PrefillPace seq a b waiting decoding (seq :: waiting) decoding
  | replays (replay : a.isRecomputeReplay = true) (replayed : Replays a b) (live : Live b)
      (running : Running b) :
    PrefillPace seq a b waiting decoding waiting (decoding ++ [seq])
  | lives (fresh : a.isRecomputeReplay = false) (publishes : Publishes a b) (live : Live b)
      (running : Running b) :
    PrefillPace seq a b waiting decoding waiting (decoding ++ [seq])
  | ends (fresh : a.isRecomputeReplay = false) (publishes : Publishes a b) :
    PrefillPace seq a b waiting decoding waiting ((decoding ++ [seq]).erase seq)

theorem PrefillLanding.paces
    (land : PrefillLanding cfg sample seq a waiting decoding b waiting' decoding') (h : Live a) :
    PrefillPace seq a b waiting decoding waiting' decoding' := by
  cases land with
  | more chunk given short => exact .waits ⟨rfl, rfl, rfl, rfl, rfl⟩
  | replays chunk given full replay more =>
    obtain ⟨hcheck, hpos⟩ := h.replay replay
    have hchecked : ¬ a.decodeProgressCheckpoint < a.numCompletionTokens := by omega
    exact .replays replay ⟨rfl, rfl, decide_eq_false hchecked⟩ ⟨h.prompt, h.budget, h.replay⟩
      ⟨full, hpos⟩
  | recovers chunk given full replay none =>
    obtain ⟨hcheck, hpos⟩ := h.replay replay
    exact .replays replay ⟨rfl, rfl, decide_eq_false (lt_irrefl _)⟩ ⟨h.prompt, h.budget, nofun⟩
      ⟨full, hpos⟩
  | accepts chunk b decoding' given full fresh accepted =>
    obtain ⟨hpublishes, hprefilled, hprompt, -, ⟨rfl, hlive⟩ | rfl⟩ :=
      accepted.paces ⟨h.prompt, h.budget, h.replay⟩ fresh
    · refine .lives fresh ⟨hpublishes.left, hpublishes.count⟩ hlive ⟨?_, ?_⟩
      · rw [hprefilled, hprompt]
        exact full
      · rw [hpublishes.count]
        exact Nat.succ_pos _
    · exact .ends fresh ⟨hpublishes.left, hpublishes.count⟩

/-- What `postprocess` does to a request of a decode batch, for the measure. -/
inductive DecodePace (seq : SeqId) (a b : Sequence B) (decoding : List SeqId) :
    List SeqId → Prop where
  | replays (replayed : Replays a b) (live : Live b) (running : Running b) :
    DecodePace seq a b decoding decoding
  | lives (publishes : Publishes a b) (live : Live b) (running : Running b) :
    DecodePace seq a b decoding decoding
  | ends (publishes : Publishes a b) : DecodePace seq a b decoding (decoding.erase seq)

theorem DecodeLanding.paces (land : DecodeLanding cfg sample seq a decoding b decoding')
    (h : Live a) (running : Running a) : DecodePace seq a b decoding decoding' := by
  have hreplay : a.isRecomputeDecode = a.isRecomputeReplay := by
    unfold Sequence.isRecomputeDecode
    rw [decide_eq_true running.prefilled, Bool.and_true]
  cases land with
  | replays replay more =>
    obtain ⟨hcheck, -⟩ := h.replay (hreplay ▸ replay)
    have hchecked : ¬ a.decodeProgressCheckpoint < a.numCompletionTokens := by omega
    exact .replays ⟨rfl, rfl, decide_eq_false hchecked⟩
      ⟨h.prompt, h.budget, fun _ => h.replay (hreplay ▸ replay)⟩ ⟨running.1, running.2⟩
  | recovers replay last =>
    exact .replays ⟨rfl, rfl, decide_eq_false (lt_irrefl _)⟩ ⟨h.prompt, h.budget, nofun⟩
      ⟨running.1, running.2⟩
  | accepts b decoding' fresh accepted =>
    rw [hreplay] at fresh
    obtain ⟨hpublishes, hprefilled, hprompt, -, ⟨rfl, hlive⟩ | rfl⟩ := accepted.paces h fresh
    · refine .lives hpublishes hlive ⟨?_, ?_⟩
      · rw [hprefilled, hprompt]
        exact running.prefilled
      · rw [hpublishes.count]
        exact Nat.succ_pos _
    · exact .ends hpublishes

end Landings

/-! ## The queues -/

/-- What holds of the queues and of the part of a prefill batch that is out of them. -/
structure Paced (f : SeqId → Sequence B) (held waiting decoding : List SeqId) : Prop where
  distinct : (held ++ waiting ++ decoding).Nodup
  live : ∀ q ∈ held ++ waiting ++ decoding, Live (f q)
  running : ∀ q ∈ decoding, Running (f q)

/-- While a replay waits, no decode counts as progressed. -/
def Settled (f : SeqId → Sequence B) (waiting decoding : List SeqId) : Prop :=
  (waiting.any fun q => (f q).isRecomputeReplay) = true →
    ∀ q ∈ decoding, (f q).hasProgressed = false

/-- The decode queue holds requests that no preemption can drain before one of them publishes. -/
def Quiet (f : SeqId → Sequence B) (waiting decoding : List SeqId) : Prop :=
  decoding ≠ [] ∧ Settled f waiting decoding

/-- No request lost a published token. -/
def Grows (f g : SeqId → Sequence B) : Prop :=
  ∀ q, (f q).numCompletionTokens ≤ (g q).numCompletionTokens

/-- A request published a token. -/
def Published (f g : SeqId → Sequence B) : Prop :=
  ∃ q, (f q).numCompletionTokens < (g q).numCompletionTokens

theorem Grows.trans {f g h : SeqId → Sequence B} (hfg : Grows f g) (hgh : Grows g h) : Grows f h :=
  fun q => (hfg q).trans (hgh q)

theorem Published.of_grows {f g h : SeqId → Sequence B} (hfg : Published f g) (hgh : Grows g h) :
    Published f h := by
  obtain ⟨q, hq⟩ := hfg
  exact ⟨q, hq.trans_le (hgh q)⟩

theorem Grows.published {f g h : SeqId → Sequence B} (hfg : Grows f g) (hgh : Published g h) :
    Published f h := by
  obtain ⟨q, hq⟩ := hgh
  exact ⟨q, (hfg q).trans_lt hq⟩

section Queues

variable {memory : MemoryOracle ε σ B κ ν} {f g : SeqId → Sequence B}
variable {held waiting decoding waiting' decoding' : List SeqId}

theorem Grows.of_alike (h : ∀ q, Alike (f q) (g q)) : Grows f g :=
  fun q => le_of_eq (h q).numCompletionTokens.symm

theorem Grows.update {b : Sequence B} {seq : SeqId}
    (h : (f seq).numCompletionTokens ≤ b.numCompletionTokens) :
    Grows f (Function.update f seq b) := by
  intro q
  by_cases hq : q = seq
  · subst hq
    rw [Function.update_self]
    exact h
  · rw [Function.update_of_ne hq]

theorem Published.update {b : Sequence B} {seq : SeqId}
    (h : (f seq).numCompletionTokens < b.numCompletionTokens) :
    Published f (Function.update f seq b) := by
  refine ⟨seq, ?_⟩
  rw [Function.update_self]
  exact h

theorem Settled.alike (h : Settled f waiting decoding) (alike : ∀ q, Alike (f q) (g q))
    (hw : waiting'.Perm waiting) (hd : decoding'.Perm decoding) : Settled g waiting' decoding' := by
  intro hpending q hq
  rw [(alike q).hasProgressed]
  refine h ?_ q (hd.mem_iff.mp hq)
  obtain ⟨v, hv, hreplay⟩ := List.any_eq_true.mp hpending
  rw [(alike v).isRecomputeReplay] at hreplay
  exact List.any_eq_true.mpr ⟨v, hw.mem_iff.mp hv, hreplay⟩

theorem Quiet.alike (h : Quiet f waiting decoding) (alike : ∀ q, Alike (f q) (g q))
    (hw : waiting'.Perm waiting) (hd : decoding'.Perm decoding) : Quiet g waiting' decoding' := by
  refine ⟨fun hnil => ?_, h.2.alike alike hw hd⟩
  subst hnil
  exact h.1 hd.symm.eq_nil

theorem Running.refreshed {a b : Sequence B} (h : Running a) (hrefresh : Refreshed memory a b) :
    b = a := by
  rcases hrefresh with rfl | ⟨-, hnone, -⟩
  · rfl
  · have := h.completion
    omega

theorem Paced.refreshed (h : Paced f [] waiting decoding)
    (hrefresh : ∀ q, Refreshed memory (f q) (g q)) (hw : waiting'.Perm waiting)
    (hd : decoding'.Perm decoding) : Paced g [] waiting' decoding' := by
  have hall : ([] ++ waiting' ++ decoding').Perm ([] ++ waiting ++ decoding) := hw.append hd
  refine ⟨hall.nodup_iff.mpr h.distinct, fun q hq => ?_, fun q hq => ?_⟩
  · exact (hrefresh q).alike.live (h.live q (hall.mem_iff.mp hq))
  · have hrunning := h.running q (hd.mem_iff.mp hq)
    rw [hrunning.refreshed (hrefresh q)]
    exact hrunning

end Queues

/-! ## A prefill batch -/

/-- What holds inside the prefill loop of `postprocess`, since the requests were `start` and the
decode queue `decoding₀`: the requests out of the queues are new ones and no replay waits, or they
are one replay and nothing decodes. -/
structure PrefillMidway (start : SeqId → Sequence B) (bound : Nat) (decoding₀ rest : List SeqId)
    (f : SeqId → Sequence B) (waiting decoding : List SeqId) : Prop where
  paced : Paced f rest waiting decoding
  falls : potential f rest waiting decoding ≤ bound
  grows : Grows start f
  fed : decoding₀ ≠ [] → decoding ≠ []
  serial : (∀ q ∈ rest ++ waiting, (f q).isRecomputeReplay = false) ∨
    (rest = [] ∧ ∀ q ∈ decoding, (f q).hasProgressed = false) ∨
    ∃ v, rest = [v] ∧ (f v).isRecomputeReplay = true ∧ decoding = []

/-- A request joins the decode queue. -/
theorem Paced.join {f : SeqId → Sequence B} {seq : SeqId} {rest waiting decoding : List SeqId}
    {b : Sequence B} (h : Paced f (seq :: rest) waiting decoding) (live : Live b)
    (running : Running b) :
    Paced (Function.update f seq b) rest waiting (decoding ++ [seq]) := by
  have hmove : (rest ++ waiting ++ (decoding ++ [seq])).Perm (seq :: rest ++ waiting ++ decoding) := by
    rw [← List.append_assoc]
    exact List.perm_append_singleton seq _
  refine ⟨hmove.nodup_iff.mpr h.distinct, fun q hq => ?_, fun q hq => ?_⟩
  · by_cases heq : q = seq
    · subst heq
      rw [Function.update_self]
      exact live
    · rw [Function.update_of_ne heq]
      exact h.live q (hmove.mem_iff.mp hq)
  · by_cases heq : q = seq
    · subst heq
      rw [Function.update_self]
      exact running
    · rw [Function.update_of_ne heq]
      exact h.running q ((List.mem_append.mp hq).resolve_right fun hs =>
        heq (List.mem_singleton.mp hs))

theorem Paced.out {f : SeqId → Sequence B} {seq : SeqId} {rest waiting decoding : List SeqId}
    (h : Paced f (seq :: rest) waiting decoding) : seq ∉ rest ++ waiting ++ decoding :=
  (List.nodup_cons.mp h.distinct).1

/-- A request leaves the batch without being queued again. -/
theorem Paced.leave {f : SeqId → Sequence B} {seq : SeqId} {rest waiting decoding : List SeqId}
    {b : Sequence B} (h : Paced f (seq :: rest) waiting decoding) :
    Paced (Function.update f seq b) rest waiting decoding := by
  have hother : ∀ q ∈ rest ++ waiting ++ decoding, Function.update f seq b q = f q := by
    intro q hq
    have hne : q ≠ seq := fun heq => h.out (heq ▸ hq)
    exact Function.update_of_ne hne b f
  refine ⟨(List.nodup_cons.mp h.distinct).2, fun q hq => ?_, fun q hq => ?_⟩
  · rw [hother q hq]
    exact h.live q (List.mem_cons_of_mem _ hq)
  · rw [hother q (List.mem_append_right _ hq)]
    exact h.running q hq

section PrefillBatch

variable {start f : SeqId → Sequence B} {bound : Nat} {seq : SeqId} {b : Sequence B}
variable {decoding₀ rest waiting decoding waiting' decoding' : List SeqId}

theorem PrefillMidway.waits (h : PrefillMidway start bound decoding₀ (seq :: rest) f waiting decoding)
    (alike : Alike (f seq) b) :
    PrefillMidway start bound decoding₀ rest (Function.update f seq b) (seq :: waiting) decoding := by
  have hout := h.paced.out
  have halike : ∀ q, Alike (f q) (Function.update f seq b q) := by
    intro q
    by_cases heq : q = seq
    · subst heq
      rw [Function.update_self]
      exact alike
    · rw [Function.update_of_ne heq]
      exact .refl _
  have hmove : (rest ++ seq :: waiting ++ decoding).Perm (seq :: rest ++ waiting ++ decoding) := by
    rw [List.append_assoc, List.cons_append, List.append_assoc]
    exact List.perm_middle
  refine ⟨⟨hmove.nodup_iff.mpr h.paced.distinct, fun q hq => ?_, fun q hq => ?_⟩, ?_,
    h.grows.trans (.of_alike halike), h.fed, ?_⟩
  · exact (halike q).live (h.paced.live q (hmove.mem_iff.mp hq))
  · have hne : q ≠ seq := fun heq => hout (heq ▸ List.mem_append_right _ hq)
    rw [Function.update_of_ne hne]
    exact h.paced.running q hq
  · rw [potential_congr (fun q _ => halike q) hmove (.refl _)]
    exact h.falls
  · rcases h.serial with hplain | ⟨hnil, -⟩ | ⟨v, hv, -, hd⟩
    · refine Or.inl fun q hq => ?_
      rw [(halike q).isRecomputeReplay]
      refine hplain q ?_
      rw [List.cons_append]
      exact List.perm_middle.mem_iff.mp hq
    · cases hnil
    · obtain ⟨rfl, rfl⟩ := List.cons_eq_cons.mp hv
      subst hd
      exact Or.inr (Or.inl ⟨rfl, nofun⟩)

theorem PrefillMidway.replays
    (h : PrefillMidway start bound decoding₀ (seq :: rest) f waiting decoding)
    (replay : (f seq).isRecomputeReplay = true) (replayed : Replays (f seq) b) (live : Live b)
    (running : Running b) :
    PrefillMidway start bound decoding₀ rest (Function.update f seq b) waiting
      (decoding ++ [seq]) := by
  have hout := h.paced.out
  -- A replay is the whole batch, and nothing decodes.
  obtain ⟨rfl, rfl⟩ : rest = [] ∧ decoding = [] := by
    rcases h.serial with hplain | ⟨hnil, -⟩ | ⟨v, hv, -, hd⟩
    · rw [hplain seq (List.mem_append_left _ List.mem_cons_self)] at replay
      cases replay
    · cases hnil
    · exact ⟨(List.cons_eq_cons.mp hv).2, hd⟩
  have hself : Function.update f seq b seq = b := Function.update_self ..
  refine ⟨h.paced.join live running, ?_, h.grows.trans (.update (le_of_eq replayed.count.symm)),
    fun _ => List.cons_ne_nil _ _, Or.inr (Or.inl ⟨rfl, fun q hq => ?_⟩)⟩
  · have hjoin := potential_decode (Function.update f seq b) [] waiting (List.Perm.refl [seq])
    have hheld := potential_held f seq [] waiting []
    have hsame := potential_update (f := f) (b := b) hout
    have hfalls := h.falls
    rw [hself, replayed.left, replayed.checked, if_neg Bool.noConfusion, hsame] at hjoin
    rw [hheld] at hfalls
    change potential (Function.update f seq b) [] waiting [seq] ≤ bound
    have hempty : emptyCost ([] : List SeqId) = 1 := rfl
    omega
  · obtain rfl := List.mem_singleton.mp hq
    rw [hself]
    exact replayed.checked

theorem PrefillMidway.fresh_serial
    (h : PrefillMidway start bound decoding₀ (seq :: rest) f waiting decoding)
    (fresh : (f seq).isRecomputeReplay = false) :
    ∀ q ∈ rest ++ waiting, (Function.update f seq b q).isRecomputeReplay = false := by
  have hout := h.paced.out
  intro q hq
  have hne : q ≠ seq := fun heq => hout (heq ▸ List.mem_append_left _ hq)
  rw [Function.update_of_ne hne]
  rcases h.serial with hplain | ⟨hnil, -⟩ | ⟨v, hv, hreplay, -⟩
  · exact hplain q (List.mem_cons_of_mem _ hq)
  · cases hnil
  · obtain ⟨rfl, -⟩ := List.cons_eq_cons.mp hv
    rw [fresh] at hreplay
    cases hreplay

/-- **One request of a prefill batch**: the measure does not grow. -/
theorem PrefillMidway.step
    (h : PrefillMidway start bound decoding₀ (seq :: rest) f waiting decoding)
    (pace : PrefillPace seq (f seq) b waiting decoding waiting' decoding') :
    PrefillMidway start bound decoding₀ rest (Function.update f seq b) waiting' decoding' := by
  have hout := h.paced.out
  have hself : Function.update f seq b seq = b := Function.update_self ..
  have hheld := potential_held f seq rest waiting decoding
  have hsame := potential_update (f := f) (b := b) hout
  have hfalls := h.falls
  rw [hheld] at hfalls
  cases pace with
  | waits alike => exact h.waits alike
  | replays replay replayed live running => exact h.replays replay replayed live running
  | lives fresh publishes live running =>
    refine ⟨h.paced.join live running, ?_, h.grows.trans (.update ?_),
      fun _ => List.append_ne_nil_of_right_ne_nil _ (List.cons_ne_nil _ _),
      Or.inl (h.fresh_serial fresh)⟩
    · have hjoin := potential_decode (Function.update f seq b) rest waiting
        (List.perm_append_singleton seq decoding)
      have hleft := publishes.left
      rw [hself, hsame] at hjoin
      split at hjoin
      · omega
      · omega
    · rw [publishes.count]
      exact Nat.le_succ _
  | ends fresh publishes =>
    have herase : (decoding ++ [seq]).erase seq = decoding := by
      rw [List.erase_append_right _ fun hin => hout (List.mem_append_right _ hin),
        List.erase_cons_head, List.append_nil]
    rw [herase]
    refine ⟨h.paced.leave, ?_, h.grows.trans (.update ?_), h.fed, Or.inl (h.fresh_serial fresh)⟩
    · rw [hsame]
      omega
    · rw [publishes.count]
      exact Nat.le_succ _

end PrefillBatch

/-! ## A decode batch -/

/-- What holds inside the decode loop of `postprocess`, since the requests were `start`. -/
structure DecodeMidway (start : SeqId → Sequence B) (bound : Nat) (waiting decoding₀ rest : List SeqId)
    (f : SeqId → Sequence B) (decoding : List SeqId) : Prop where
  paced : Paced f [] waiting decoding
  apart : rest.Nodup
  queued : ∀ q ∈ rest, q ∈ decoding
  falls : potential f [] waiting decoding ≤ bound
  grows : Grows start f
  quiet : Quiet start waiting decoding₀ → Quiet f waiting decoding ∨ Published start f

section DecodeBatch

variable {start f : SeqId → Sequence B} {bound : Nat} {seq : SeqId} {b : Sequence B}
variable {decoding₀ rest waiting decoding decoding' : List SeqId}

/-- A decode is replaced by what it became. -/
theorem Paced.stay (h : Paced f [] waiting decoding) (live : Live b) (running : Running b) :
    Paced (Function.update f seq b) [] waiting decoding := by
  refine ⟨h.distinct, fun q hq => ?_, fun q hq => ?_⟩
  · by_cases heq : q = seq
    · subst heq
      rw [Function.update_self]
      exact live
    · rw [Function.update_of_ne heq]
      exact h.live q hq
  · by_cases heq : q = seq
    · subst heq
      rw [Function.update_self]
      exact running
    · rw [Function.update_of_ne heq]
      exact h.running q hq

/-- A decode that has ended is dropped. -/
theorem Paced.drop (h : Paced f [] waiting decoding) (hin : seq ∈ decoding) :
    Paced (Function.update f seq b) [] waiting (decoding.erase seq) := by
  have hsub : (waiting ++ decoding.erase seq).Sublist (waiting ++ decoding) :=
    List.erase_sublist.append_left _
  have hnd : (waiting ++ decoding).Nodup := h.distinct
  have hne : ∀ q ∈ waiting ++ decoding.erase seq, q ≠ seq := by
    rintro q hq rfl
    rcases List.mem_append.mp hq with hw | hd
    · exact (List.nodup_append.mp hnd).2.2 q hw q hin rfl
    · exact (List.nodup_append.mp hnd).2.1.not_mem_erase hd
  refine ⟨hnd.sublist hsub, fun q hq => ?_, fun q hq => ?_⟩
  · rw [Function.update_of_ne (hne q hq)]
    exact h.live q (hsub.subset hq)
  · rw [Function.update_of_ne (hne q (List.mem_append_right _ hq))]
    exact h.running q (List.mem_of_mem_erase hq)

/-- The measure with one decode taken out. -/
theorem Paced.potential_erase (h : Paced f [] waiting decoding) (hin : seq ∈ decoding) :
    potential f [] waiting decoding + emptyCost (decoding.erase seq) =
        3 * (f seq).tokensLeft + 1 + (if (f seq).hasProgressed then 1 else 0) +
          potential f [] waiting (decoding.erase seq) ∧
      potential (Function.update f seq b) [] waiting decoding + emptyCost (decoding.erase seq) =
        3 * b.tokensLeft + 1 + (if b.hasProgressed then 1 else 0) +
          potential f [] waiting (decoding.erase seq) ∧
      potential (Function.update f seq b) [] waiting (decoding.erase seq) =
        potential f [] waiting (decoding.erase seq) := by
  have hperm := List.perm_cons_erase hin
  have hout : seq ∉ [] ++ waiting ++ decoding.erase seq := by
    have hnd : (waiting ++ decoding).Nodup := h.distinct
    intro hq
    rcases List.mem_append.mp hq with hw | hd
    · exact (List.nodup_append.mp hnd).2.2 seq hw seq hin rfl
    · exact (List.nodup_append.mp hnd).2.1.not_mem_erase hd
  have hsame := potential_update (f := f) (b := b) hout
  have hafter := potential_decode (Function.update f seq b) [] waiting hperm
  rw [Function.update_self, hsame] at hafter
  exact ⟨potential_decode f [] waiting hperm, hafter, hsame⟩

/-- **One request of a decode batch**: the measure does not grow. -/
theorem DecodeMidway.step
    (h : DecodeMidway start bound waiting decoding₀ (seq :: rest) f decoding)
    (pace : DecodePace seq (f seq) b decoding decoding') :
    DecodeMidway start bound waiting decoding₀ rest (Function.update f seq b) decoding' := by
  have hin := h.queued seq List.mem_cons_self
  obtain ⟨hnew, hapart⟩ := List.nodup_cons.mp h.apart
  have hqueued : ∀ q ∈ rest, q ∈ decoding := fun q hq => h.queued q (List.mem_cons_of_mem _ hq)
  obtain ⟨hbefore, hafter, hdropped⟩ := h.paced.potential_erase (b := b) hin
  have hfalls := h.falls
  have hpublished : Publishes (f seq) b → Grows start (Function.update f seq b) ∧
      Published start (Function.update f seq b) := fun publishes =>
    ⟨h.grows.trans (.update (by rw [publishes.count]; exact Nat.le_succ _)),
      h.grows.published (.update (by rw [publishes.count]; exact Nat.lt_succ_self _))⟩
  cases pace with
  | replays replayed live running =>
    have hgrows : Grows f (Function.update f seq b) := .update (le_of_eq replayed.count.symm)
    refine ⟨h.paced.stay live running, hapart, hqueued, ?_, h.grows.trans hgrows, fun hstart => ?_⟩
    · rw [replayed.left, replayed.checked, if_neg Bool.noConfusion] at hafter
      omega
    · -- Nothing was published: what had not progressed has not progressed.
      refine (h.quiet hstart).imp (fun hquiet => ⟨hquiet.1, fun hpending q hq => ?_⟩)
        fun hpub => hpub.of_grows hgrows
      have hwaiting : ∀ v ∈ waiting, Function.update f seq b v = f v := by
        intro v hv
        have hnd : (waiting ++ decoding).Nodup := h.paced.distinct
        have hne : v ≠ seq := fun heq =>
          (List.nodup_append.mp hnd).2.2 v hv seq hin heq
        exact Function.update_of_ne hne b f
      obtain ⟨v, hv, hreplay⟩ := List.any_eq_true.mp hpending
      rw [hwaiting v hv] at hreplay
      by_cases heq : q = seq
      · subst heq
        rw [Function.update_self]
        exact replayed.checked
      · rw [Function.update_of_ne heq]
        exact hquiet.2 (List.any_eq_true.mpr ⟨v, hv, hreplay⟩) q hq
  | lives publishes live running =>
    obtain ⟨hgrows, hpub⟩ := hpublished publishes
    refine ⟨h.paced.stay live running, hapart, hqueued, ?_, hgrows, fun _ => Or.inr hpub⟩
    have hleft := publishes.left
    split at hafter
    · omega
    · omega
  | ends publishes =>
    obtain ⟨hgrows, hpub⟩ := hpublished publishes
    refine ⟨h.paced.drop hin, hapart, fun q hq => ?_, ?_, hgrows, fun _ => Or.inr hpub⟩
    · have hne : q ≠ seq := fun heq => hnew (heq ▸ hq)
      exact (List.mem_erase_of_ne hne).mpr (hqueued q hq)
    · have hleft := publishes.left
      have hempty : emptyCost (decoding.erase seq) ≤ 1 := by
        unfold emptyCost
        split
        · exact le_refl _
        · exact Nat.zero_le _
      rw [hdropped]
      omega

end DecodeBatch

/-! ## Steps -/

namespace Engine

/-- What is left to pay for preemptions between two steps. -/
def potential (e : Engine σ B) : Nat :=
  SparseVllm.potential e.scheduler.world.seqs [] e.scheduler.waiting e.scheduler.decoding

def Paced (e : Engine σ B) : Prop :=
  SparseVllm.Paced e.scheduler.world.seqs [] e.scheduler.waiting e.scheduler.decoding

def Quiet (e : Engine σ B) : Prop :=
  SparseVllm.Quiet e.scheduler.world.seqs e.scheduler.waiting e.scheduler.decoding

end Engine

/-- What a step that returned has done. -/
structure Paces (e : Engine σ B) (r : ScheduleResult) (e' : Engine σ B) : Prop where
  paced : e'.Paced
  falls : r.preempted.length + e'.potential ≤ e.potential
  grows : Grows e.scheduler.world.seqs e'.scheduler.world.seqs
  /-- A sole decode is preempted only after it has published since its checkpoint. -/
  sole : ∀ v, e.scheduler.decoding = [v] → v ∈ r.preempted →
    (e.request v).decodeProgressCheckpoint < (e.request v).numCompletionTokens
  quiet : e.Quiet → e'.Quiet ∨ Published e.scheduler.world.seqs e'.scheduler.world.seqs
  refilled : e.scheduler.decoding = [] → e'.scheduler.decoding ≠ [] → e'.Quiet

section Steps

variable {memory : MemoryOracle ε σ B κ ν} {e u : Engine σ B} {r : ScheduleResult}

theorem Paces.refreshed {e' : Engine σ B} (h : Paces e r u)
    (hrefresh : ∀ q, Refreshed memory (u.scheduler.world.seqs q) (e'.scheduler.world.seqs q))
    (hw : e'.scheduler.waiting = u.scheduler.waiting)
    (hd : e'.scheduler.decoding = u.scheduler.decoding) : Paces e r e' := by
  have halike : ∀ q, Alike (u.scheduler.world.seqs q) (e'.scheduler.world.seqs q) := fun q =>
    (hrefresh q).alike
  have hgrows := Grows.of_alike halike
  have hquiet : u.Quiet → e'.Quiet := fun hu => hu.alike halike (hw ▸ .refl _) (hd ▸ .refl _)
  refine ⟨h.paced.refreshed hrefresh (hw ▸ .refl _) (hd ▸ .refl _), ?_, h.grows.trans hgrows, h.sole,
    fun he => (h.quiet he).imp hquiet fun hpub => hpub.of_grows hgrows, fun hnil hsome => ?_⟩
  · have hsame : e'.potential = u.potential :=
      potential_congr (fun q _ => halike q) (by rw [hw, hd]) (by rw [hd])
    rw [hsame]
    exact h.falls
  · exact hquiet (h.refilled hnil (hd ▸ hsome))

theorem PrefillMidway.paces (h : PrefillMidway e.scheduler.world.seqs e.potential
      e.scheduler.decoding [] u.scheduler.world.seqs u.scheduler.waiting u.scheduler.decoding)
    (none : r.preempted = []) : Paces e r u := by
  have hsettled : Settled u.scheduler.world.seqs u.scheduler.waiting u.scheduler.decoding := by
    intro hpending
    rcases h.serial with hplain | ⟨-, hchecked⟩ | ⟨v, hv, -⟩
    · obtain ⟨v, hv, hreplay⟩ := List.any_eq_true.mp hpending
      rw [hplain v hv] at hreplay
      cases hreplay
    · exact hchecked
    · cases hv
  refine ⟨h.paced, ?_, h.grows, fun v _ hv => ?_, fun he => Or.inl ⟨h.fed he.1, hsettled⟩,
    fun _ hsome => ⟨hsome, hsettled⟩⟩
  · rw [none, List.length_nil, Nat.zero_add]
    exact h.falls
  · rw [none] at hv
    cases hv

/-- A pass that returned no prefill batch. -/
theorem Outcome.paces (out : Outcome memory e.scheduler r u.scheduler) (he : e.Paced)
    (batch : r.isPrefill = false) : Paces e r u := by
  cases out with
  | prefill batch' => rw [batch] at batch'; cases batch'
  | decode _ none waits decodes distinct queued requests =>
    have halike : ∀ q, Alike (e.scheduler.world.seqs q) (u.scheduler.world.seqs q) := fun q =>
      (requests q).alike
    refine ⟨he.refreshed requests waits decodes, ?_, .of_alike halike, fun v _ hv => ?_,
      fun hquiet => Or.inl (hquiet.alike halike waits decodes), fun hnil hsome => ?_⟩
    · have hsame : u.potential = e.potential :=
        potential_congr (fun q _ => halike q) (waits.append decodes) decodes
      rw [none, hsame, List.length_nil, Nat.zero_add]
    · rw [none] at hv
      cases hv
    · rw [hnil] at decodes
      exact absurd decodes.eq_nil hsome
  | preempt victim g result decodes waits refreshed requests guard =>
    subst result
    have halike : ∀ q, Alike (e.scheduler.world.seqs q) (g q) := fun q => (refreshed q).alike
    have hg : Paced g [] e.scheduler.waiting e.scheduler.decoding :=
      he.refreshed refreshed (.refl _) (.refl _)
    have hvictim : victim ∈ e.scheduler.decoding := decodes.mem_iff.mp List.mem_cons_self
    have hperm : (u.scheduler.waiting ++ u.scheduler.decoding).Perm
        (e.scheduler.waiting ++ e.scheduler.decoding) :=
      (waits.append_right _).trans
        (List.perm_middle.symm.trans ((List.Perm.refl _).append decodes))
    have hnd : (u.scheduler.waiting ++ u.scheduler.decoding).Nodup :=
      hperm.nodup_iff.mpr hg.distinct
    have hout : victim ∉ u.scheduler.decoding :=
      (List.nodup_cons.mp (decodes.nodup_iff.mpr (List.nodup_append.mp hg.distinct).2.1)).1
    have hself : u.scheduler.world.seqs victim = (g victim).restarted := by
      rw [requests, Function.update_self]
    have hsurvivor : ∀ q ∈ u.scheduler.decoding, u.scheduler.world.seqs q = (g q).handedOff := by
      intro q hq
      have hne : q ≠ victim := fun heq => hout (heq ▸ hq)
      rw [requests, Function.update_of_ne hne]
      exact if_pos hq
    have hother : ∀ q ∈ u.scheduler.waiting, q ≠ victim → u.scheduler.world.seqs q = g q := by
      intro q hq hne
      rw [requests, Function.update_of_ne hne]
      exact if_neg fun hd => (List.nodup_append.mp hnd).2.2 q hq q hd rfl
    have hcount : ∀ q, (u.scheduler.world.seqs q).numCompletionTokens = (g q).numCompletionTokens ∧
        (u.scheduler.world.seqs q).tokensLeft = (g q).tokensLeft := by
      intro q
      by_cases heq : q = victim
      · subst heq
        rw [hself]
        exact ⟨(g q).restarted_numCompletionTokens, (g q).restarted_tokensLeft⟩
      · rw [requests, Function.update_of_ne heq]
        unfold handOff
        split
        · exact ⟨rfl, rfl⟩
        · exact ⟨rfl, rfl⟩
    have hrunning := hg.running victim hvictim
    have hsame : g victim = e.scheduler.world.seqs victim :=
      (he.running victim hvictim).refreshed (refreshed victim)
    have hchecked : progressedOf u.scheduler.world.seqs u.scheduler.decoding = 0 := by
      unfold progressedOf
      refine List.countP_eq_zero.mpr fun q hq => ?_
      rw [hsurvivor q hq, Sequence.handedOff_hasProgressed]
      exact Bool.noConfusion
    refine ⟨⟨hnd, fun q hq => ?_, fun q hq => ?_⟩, ?_, fun q => ?_, fun v hv hin => ?_,
      fun hquiet => Or.inl ⟨fun hnil => ?_, fun _ q hq => ?_⟩, fun hnil _ => ?_⟩
    · by_cases heq : q = victim
      · subst heq
        rw [hself]
        exact (hg.live q (hperm.mem_iff.mp hq)).restarted
      · rcases List.mem_append.mp (show q ∈ u.scheduler.waiting ++ u.scheduler.decoding from hq)
          with hw | hd
        · rw [hother q hw heq]
          exact hg.live q (hperm.mem_iff.mp hq)
        · rw [hsurvivor q hd]
          exact (hg.live q (hperm.mem_iff.mp hq)).handedOff
    · rw [hsurvivor q hq]
      have := hg.running q (decodes.mem_iff.mp (List.mem_cons_of_mem _ hq))
      exact ⟨this.prefilled, this.completion⟩
    · -- The preempted decode pays, and a sole one also pays with its progress.
      have hpotential : e.potential = SparseVllm.potential g [] e.scheduler.waiting
          e.scheduler.decoding := (potential_congr (fun q _ => halike q) (.refl _) (.refl _)).symm
      have hleft : tokensLeftOf u.scheduler.world.seqs
          ([] ++ u.scheduler.waiting ++ u.scheduler.decoding) =
            tokensLeftOf g ([] ++ e.scheduler.waiting ++ e.scheduler.decoding) :=
        (tokensLeftOf_congr fun q _ => (hcount q).2).trans (tokensLeftOf_perm hperm)
      have hlength := decodes.length_eq
      have hprogressed : progressedOf g e.scheduler.decoding =
          progressedOf g u.scheduler.decoding + if (g victim).hasProgressed then 1 else 0 := by
        unfold progressedOf
        rw [← decodes.countP_eq, List.countP_cons]
      have hempty : emptyCost e.scheduler.decoding = 0 :=
        if_neg fun hnil => List.not_mem_nil (hnil ▸ hvictim)
      rw [hpotential]
      unfold Engine.potential SparseVllm.potential
      rw [hleft, hchecked, hempty, hprogressed]
      simp only [List.length_cons, List.length_nil] at hlength ⊢
      by_cases hsole : u.scheduler.decoding = []
      · have hprogress : (g victim).hasProgressed = true :=
          decide_eq_true (guard hrunning.completion hsole).2
        rw [hprogress, if_pos rfl, hsole]
        show 0 + 1 + (_ + 0 + 0 + 1) ≤ _
        omega
      · rw [show emptyCost u.scheduler.decoding = 0 from if_neg hsole]
        omega
    · rw [(hcount q).1, (halike q).numCompletionTokens]
    · obtain rfl := List.mem_singleton.mp hin
      have hsole : u.scheduler.decoding = [] := by
        have hlength := decodes.length_eq
        rw [hv] at hlength
        exact List.length_eq_zero_iff.mp (by simpa using hlength)
      have hprogress := (guard hrunning.completion hsole).2
      rw [hsame] at hprogress
      exact hprogress
    · -- A quiet queue has no sole decode that the guard lets go.
      obtain ⟨hpending, hprogress⟩ := guard hrunning.completion hnil
      have hstill := hquiet.2 hpending victim hvictim
      rw [hsame] at hprogress
      exact absurd hprogress (of_decide_eq_false hstill)
    · rw [hsurvivor q hq]
      exact Sequence.handedOff_hasProgressed _
    · rw [hnil] at hvictim
      cases hvictim

/-- A prefill batch is about to run. -/
theorem Outcome.prefillMidway (out : Outcome memory e.scheduler r u.scheduler) (he : e.Paced)
    (batch : r.isPrefill = true) :
    PrefillMidway e.scheduler.world.seqs e.potential e.scheduler.decoding r.seqs
      u.scheduler.world.seqs u.scheduler.waiting u.scheduler.decoding ∧ r.preempted = [] := by
  cases out with
  | decode batch' => rw [batch] at batch'; cases batch'
  | preempt victim g result => rw [result] at batch; cases batch
  | prefill batch' some none waits decodes requests serial drained =>
    have halike : ∀ q, Alike (e.scheduler.world.seqs q) (u.scheduler.world.seqs q) := by
      intro q
      have hq := requests q
      split at hq
      · exact hq.alike
      · exact hq.alike
    have hall : (r.seqs ++ u.scheduler.waiting ++ u.scheduler.decoding).Perm
        (e.scheduler.waiting ++ e.scheduler.decoding) := by
      rw [decodes]
      exact waits.append_right _
    have hnd : (r.seqs ++ u.scheduler.waiting ++ u.scheduler.decoding).Nodup :=
      hall.nodup_iff.mpr he.distinct
    refine ⟨⟨⟨hnd, fun q hq => ?_, fun q hq => ?_⟩, ?_, .of_alike halike, fun hsome => ?_, ?_⟩, none⟩
    · exact (halike q).live (he.live q (hall.mem_iff.mp hq))
    · have hrefreshed := requests q
      rw [if_neg fun hin => (List.nodup_append.mp hnd).2.2 q (List.mem_append_left _ hin) q hq rfl]
        at hrefreshed
      rw [decodes] at hq
      have hrunning := he.running q hq
      rw [hrunning.refreshed hrefreshed]
      exact hrunning
    · exact le_of_eq (potential_congr (fun q _ => halike q) hall (by rw [decodes]))
    · rw [decodes]
      exact hsome
    · rcases serial with hnil | hplain | ⟨v, hv, hreplay⟩
      · exact absurd hnil some
      · refine Or.inl fun q hq => ?_
        rw [(halike q).isRecomputeReplay]
        exact (Bool.not_eq_true _).mp (List.any_eq_false.mp hplain q (waits.mem_iff.mp hq))
      · have hwaiting : v ∈ e.scheduler.waiting :=
          waits.mem_iff.mp (List.mem_append_left _ (hv ▸ List.mem_cons_self))
        refine Or.inr (Or.inr ⟨v, hv, ?_, ?_⟩)
        · rw [(halike v).isRecomputeReplay]
          exact hreplay
        · rw [decodes]
          exact drained (List.any_eq_true.mpr ⟨v, hwaiting, hreplay⟩)

/-- A decode batch is about to run. -/
theorem Outcome.decodeMidway (out : Outcome memory e.scheduler r u.scheduler) (he : e.Paced)
    (batch : r.isPrefill = false) (hsome : r.seqs ≠ []) :
    DecodeMidway u.scheduler.world.seqs u.potential u.scheduler.waiting u.scheduler.decoding r.seqs
      u.scheduler.world.seqs u.scheduler.decoding ∧ e.scheduler.decoding ≠ [] := by
  have hpaced := (out.paces he batch).paced
  cases out with
  | prefill batch' => rw [batch] at batch'; cases batch'
  | preempt victim g result => rw [result] at hsome; exact absurd rfl hsome
  | decode batch' none waits decodes distinct queued requests =>
    refine ⟨⟨hpaced, distinct, queued, le_refl _, fun q => le_refl _, Or.inl⟩, fun hnil => ?_⟩
    obtain ⟨q, hq⟩ := List.exists_mem_of_ne_nil _ hsome
    have hin := decodes.mem_iff.mp (queued q hq)
    rw [hnil] at hin
    cases hin

/-- The decode batch has landed. -/
theorem DecodeMidway.paces {v : Engine σ B}
    (h : DecodeMidway u.scheduler.world.seqs u.potential u.scheduler.waiting u.scheduler.decoding []
      v.scheduler.world.seqs v.scheduler.decoding) (hu : Paces e r u)
    (waits : v.scheduler.waiting = u.scheduler.waiting) (decodes : e.scheduler.decoding ≠ []) :
    Paces e r v := by
  have hpaced : v.Paced := by
    unfold Engine.Paced
    rw [waits]
    exact h.paced
  have hpotential : v.potential ≤ u.potential := by
    unfold Engine.potential
    rw [waits]
    exact h.falls
  have hquiet : u.Quiet → v.Quiet ∨ Published u.scheduler.world.seqs v.scheduler.world.seqs := by
    unfold Engine.Quiet
    rw [waits]
    exact h.quiet
  refine ⟨hpaced, (Nat.add_le_add_left hpotential _).trans hu.falls, hu.grows.trans h.grows, hu.sole,
    fun he => ?_, fun hnil => absurd hnil decodes⟩
  rcases hu.quiet he with hq | hpub
  · exact (hquiet hq).imp_right hu.grows.published
  · exact Or.inr (hpub.of_grows h.grows)

variable {runner : ModelRunner ε σ B} (cfg : SchedulerConfig)
variable [DecidableEq κ] [DecidableEq ν]
variable (hits : WritesHitsOnly memory) (reads : RunnerReads runner)

include hits reads

omit [DecidableEq κ] [DecidableEq ν] in
/-- The batch runs and lands. -/
theorem runBatch_paces (out : Outcome memory e.scheduler r u.scheduler) (he : e.Paced)
    (hsome : r.seqs ≠ []) :
    Returns (· = u) (runBatch (ν := ν) cfg memory runner r) fun _ v => Paces e r v := by
  cases hbatch : r.isPrefill with
  | true =>
    obtain ⟨hmidway, hnone⟩ := out.prefillMidway he hbatch
    have hnd : r.seqs.Nodup :=
      (List.nodup_append.mp (List.nodup_append.mp hmidway.paced.distinct).1).1
    refine Spec.bind (Spec.start (executeBatch_is reads r.isPrefill hnd) u.is_self) fun samples => ?_
    rw [hbatch]
    let ran := ranBatch u.scheduler.world.seqs true r.seqs u.executed
    let I := PrefillMidway e.scheduler.world.seqs e.potential e.scheduler.decoding
    have hpost : Returns (fun v => ∃ f w d, I r.seqs f w d ∧ Engine.Is f ran w d v)
        (postprocess (ν := ν) cfg memory r.seqs samples true)
        fun _ v => ∃ f w d, I [] f w d ∧ Engine.Is f ran w d v :=
      postprocess_prefill cfg hits (fun {seq rest f w d b w' d'} hm land =>
        hm.step (land.paces (hm.paced.live seq (List.mem_append_left _ (List.mem_append_left _
          List.mem_cons_self))))) r.seqs
    refine (hpost.pre fun v hv => ⟨_, _, _, hmidway, hv⟩).post fun _ v hv => ?_
    obtain ⟨f, w, d, hm, ⟨⟨rfl, rfl, rfl⟩, -⟩⟩ := hv
    exact hm.paces hnone
  | false =>
    obtain ⟨hmidway, hdecodes⟩ := out.decodeMidway he hbatch hsome
    refine Spec.bind (Spec.start (executeBatch_is reads r.isPrefill hmidway.apart) u.is_self)
      fun samples => ?_
    rw [hbatch]
    let ran := ranBatch u.scheduler.world.seqs false r.seqs u.executed
    let I (rest : List SeqId) (f : SeqId → Sequence B) (w d : List SeqId) : Prop :=
      w = u.scheduler.waiting ∧ DecodeMidway u.scheduler.world.seqs u.potential u.scheduler.waiting
        u.scheduler.decoding rest f d
    have hpost : Returns (fun v => ∃ f w d, I r.seqs f w d ∧ Engine.Is f ran w d v)
        (postprocess (ν := ν) cfg memory r.seqs samples false)
        fun _ v => ∃ f w d, I [] f w d ∧ Engine.Is f ran w d v :=
      postprocess_decode cfg (fun {seq rest f w d b d'} hm land => ⟨hm.1, hm.2.step (land.paces
        (hm.2.paced.live seq (List.mem_append_right _ (hm.2.queued seq List.mem_cons_self)))
        (hm.2.paced.running seq (hm.2.queued seq List.mem_cons_self)))⟩) r.seqs
    refine (hpost.pre fun v hv => ⟨_, _, _, ⟨rfl, hmidway⟩, hv⟩).post fun _ v hv => ?_
    obtain ⟨f, w, d, ⟨hw, hm⟩, ⟨⟨rfl, rfl, rfl⟩, -⟩⟩ := hv
    exact hm.paces (out.paces he hbatch) hw hdecodes

/-- **One step.** -/
theorem engineStep_paces (he : e.Paced) :
    Returns (· = e) (engineStep cfg memory runner) fun r e' => Paces e r e' := by
  refine Spec.bind (beginStep_outcome reads hits cfg he.distinct) fun r => Spec.intro fun u hu => ?_
  obtain ⟨hout, -⟩ := hu
  have hcount : ∀ v, Paces e r v →
      Returns (· = v) (onScheduler (countPrefillModes (ν := ν) memory)) fun _ e' => Paces e r e' := by
    intro v hv
    refine (Spec.start (countPrefillModes_refreshes hits) v.is_self).post fun _ e' he' => ?_
    obtain ⟨g, hrefresh, ⟨⟨rfl, hw, hd⟩, -⟩⟩ := he'
    exact hv.refreshed hrefresh hw hd
  refine Spec.ite (fun hnone => ?_) fun hsome => ?_
  · have hbatch : r.isPrefill = false := by
      cases hout with
      | prefill batch some => exact absurd hnone some
      | decode batch => exact batch
      | preempt victim g result => rw [result]
    refine Spec.bind (R := fun _ e' => Paces e r e') ?_ fun _ => Spec.pure fun _ h => h
    refine Spec.get_bind fun v hv => Spec.raiseIf_bind (fun _ _ _ => trivial) fun _ => ?_
    subst hv
    exact hcount v (hout.paces he hbatch)
  · refine Spec.bind (runBatch_paces cfg hits reads hout he hsome) fun _ => ?_
    refine Spec.intro fun v hv => ?_
    refine Spec.bind (Spec.start (releaseFinished_is reads r.seqs) v.is_self) fun _ => ?_
    refine Spec.intro fun w hw => ?_
    obtain ⟨⟨hf, hwaits, hdecodes⟩, -⟩ := hw
    have hsame : ∀ q, Refreshed memory (v.scheduler.world.seqs q) (w.scheduler.world.seqs q) := by
      intro q
      rw [hf]
      exact .refl _
    exact Spec.bind (hcount w (hv.refreshed hsame hwaits hdecodes)) fun _ => Spec.pure fun _ h => h

/-! ## Runs -/

omit [DecidableEq κ] [DecidableEq ν] hits reads in
theorem potential_le (f : SeqId → Sequence B) (waiting decoding : List SeqId) :
    potential f [] waiting decoding ≤
      3 * tokensLeftOf f (waiting ++ decoding) + 2 * (waiting ++ decoding).length + 1 := by
  have hprogressed : progressedOf f decoding ≤ decoding.length := List.countP_le_length
  have hempty : emptyCost decoding ≤ 1 := by
    unfold emptyCost
    split
    · exact le_refl _
    · exact Nat.zero_le _
  unfold potential
  rw [List.nil_append, List.length_append]
  omega

omit hits reads in
theorem addRequest_paced (he : e.Paced) {seq : SeqId} (tokenIds : List Nat) (params : SamplingParams)
    (positionDelta : Int) (hasDigest fullPrefill : Bool) (reused : Nat)
    (fresh : seq ∉ e.scheduler.waiting ++ e.scheduler.decoding) :
    Engine.Paced (EngineOp.exec cfg memory runner
      (.add seq tokenIds params positionDelta hasDigest fullPrefill reused) e) := by
  obtain ⟨added, hadded⟩ : ∃ added : Sequence B, added = { Sequence.ofRequest tokenIds params
    positionDelta with
      hasMultimodalDigest := hasDigest
      multimodalFullPrefill := fullPrefill
      numPrefilledTokens := reused
      prefixCacheHitLen := reused } := ⟨_, rfl⟩
  have hlive : Live added := by
    subst hadded
    refine ⟨le_refl _, ?_, nofun⟩
    show tokenIds.length - tokenIds.length < params.maxTokens
    rw [Nat.sub_self]
    exact params.positive
  have hmove : (e.scheduler.waiting ++ [seq] ++ e.scheduler.decoding).Perm
      (seq :: (e.scheduler.waiting ++ e.scheduler.decoding)) := by
    rw [List.append_assoc]
    exact List.perm_middle
  have hother : ∀ q ∈ e.scheduler.waiting ++ e.scheduler.decoding,
      Function.update e.scheduler.world.seqs seq added q = e.scheduler.world.seqs q := by
    intro q hq
    have hne : q ≠ seq := fun heq => fresh (heq ▸ hq)
    exact Function.update_of_ne hne ..
  have hpaced : SparseVllm.Paced (Function.update e.scheduler.world.seqs seq added) []
      (e.scheduler.waiting ++ [seq]) e.scheduler.decoding := by
    refine ⟨hmove.nodup_iff.mpr (List.nodup_cons.mpr ⟨fresh, he.distinct⟩), fun q hq => ?_,
      fun q hq => ?_⟩
    · rcases List.mem_cons.mp (hmove.mem_iff.mp hq) with rfl | hq
      · rw [Function.update_self]
        exact hlive
      · rw [hother q hq]
        exact he.live q hq
    · rw [hother q (List.mem_append_right _ hq)]
      exact he.running q hq
  subst hadded
  exact hpaced

theorem reachable_paced {init : Engine σ B} (emptyWaiting : init.scheduler.waiting = [])
    (emptyDecoding : init.scheduler.decoding = [])
    (run : Reachable (EngineOp.exec cfg memory runner) (EngineOp.Allowed cfg memory runner) init e) :
    e.Paced := by
  refine run.invariant (I := Engine.Paced) ?_ fun t op ht hok => ?_
  · unfold Engine.Paced
    rw [emptyWaiting, emptyDecoding]
    exact ⟨List.nodup_nil, nofun, nofun⟩
  · cases op with
    | step =>
      have hstep := engineStep_paces cfg hits reads ht t rfl
      unfold EngineOp.Allowed raises at hok
      show Engine.Paced (stateAfter (engineStep cfg memory runner) t)
      cases hrun : engineStep cfg memory runner t with
      | ok r u =>
        rw [hrun] at hstep
        rw [stateAfter_ok hrun]
        exact hstep.paced
      | error error u => rw [hrun] at hok; cases hok
    | add seq tokenIds params positionDelta hasDigest fullPrefill reused =>
      exact addRequest_paced cfg ht tokenIds params positionDelta hasDigest fullPrefill reused hok.1

/-- The steps of a closed workload: nothing is added. -/
def Steps (cfg : SchedulerConfig) (memory : MemoryOracle ε σ B κ ν) (runner : ModelRunner ε σ B) :
    Engine σ B → List ScheduleResult → Engine σ B → Prop :=
  Trace fun e r e' => engineStep cfg memory runner e = .ok r e'

theorem engineStep_ok (he : e.Paced) {e' : Engine σ B}
    (h : engineStep cfg memory runner e = .ok r e') : Paces e r e' := by
  have hstep := engineStep_paces cfg hits reads he e rfl
  rw [h] at hstep
  exact hstep

/-- A quiet decode queue is not drained before a token is published. -/
theorem Steps.publishes {results : List ScheduleResult} {e' : Engine σ B}
    (run : Steps cfg memory runner e results e') (he : e.Paced) (quiet : e.Quiet)
    (drained : e'.scheduler.decoding = []) :
    Published e.scheduler.world.seqs e'.scheduler.world.seqs := by
  have hgrows : ∀ {s t : Engine σ B} {results : List ScheduleResult},
      Steps cfg memory runner s results t → s.Paced →
        Grows s.scheduler.world.seqs t.scheduler.world.seqs := by
    intro s t results hrun
    induction hrun with
    | nil s => exact fun _ q => le_refl _
    | cons first run ih =>
      intro hs
      have hpaces := engineStep_ok cfg hits reads hs first
      exact hpaces.grows.trans (ih hpaces.paced)
  induction run with
  | nil s => exact absurd drained quiet.1
  | cons first run ih =>
    have hpaces := engineStep_ok cfg hits reads he first
    rcases hpaces.quiet quiet with hquiet | hpub
    · exact hpaces.grows.published (ih hpaces.paced hquiet drained)
    · exact hpub.of_grows (hgrows run hpaces.paced)

/-- **Preemption cannot livelock.** From any state a run reaches, a closed run preempts at most
three times for every token its requests may still publish, twice for every request, and once more.
A sole decode is preempted only when it has published since its checkpoint, and between a refill of
the decode queue and the next time it is empty a token is published. -/
theorem preemptions_bounded {init : Engine σ B} (emptyWaiting : init.scheduler.waiting = [])
    (emptyDecoding : init.scheduler.decoding = [])
    (run : Reachable (EngineOp.exec cfg memory runner) (EngineOp.Allowed cfg memory runner) init e) :
    (∀ results e', Steps cfg memory runner e results e' →
      (results.map fun r => r.preempted.length).sum ≤
        3 * tokensLeftOf e.scheduler.world.seqs (e.scheduler.waiting ++ e.scheduler.decoding) +
          2 * (e.scheduler.waiting ++ e.scheduler.decoding).length + 1) ∧
    ∀ r e', engineStep cfg memory runner e = .ok r e' →
      (∀ v, e.scheduler.decoding = [v] → v ∈ r.preempted →
        (e.request v).decodeProgressCheckpoint < (e.request v).numCompletionTokens) ∧
      (e.scheduler.decoding = [] → e'.scheduler.decoding ≠ [] →
        ∀ results e'', Steps cfg memory runner e' results e'' → e''.scheduler.decoding = [] →
          Published e'.scheduler.world.seqs e''.scheduler.world.seqs) := by
  have he := reachable_paced cfg hits reads emptyWaiting emptyDecoding run
  refine ⟨fun results e' hrun => ?_, fun r e' hstep => ?_⟩
  · have hpays : ∀ {s : Engine σ B} {r : ScheduleResult} {t : Engine σ B}, s.Paced →
        engineStep cfg memory runner s = .ok r t →
          t.Paced ∧ r.preempted.length + t.potential ≤ s.potential := fun hs hstep =>
      ⟨(engineStep_ok cfg hits reads hs hstep).paced, (engineStep_ok cfg hits reads hs hstep).falls⟩
    have hcost : e'.Paced ∧
        (results.map fun r => r.preempted.length).sum + e'.potential ≤ e.potential :=
      Trace.cost_le hrun hpays he
    have hbound : e.potential ≤ _ := potential_le _ _ _
    exact (Nat.le_add_right _ _).trans (hcost.2.trans hbound)
  · have hpaces := engineStep_ok cfg hits reads he hstep
    refine ⟨hpaces.sole, fun hnil hsome results e'' hrun hdrained => ?_⟩
    exact hrun.publishes cfg hits reads hpaces.paced (hpaces.refilled hnil hsome) hdrained

end Steps

/-- On a pool of 8 slots the third step of the two requests preempts one of them. -/
theorem preemptions_bounded_pool :
    ∃ e', Steps smallConfig (pooledOracle 8) constantRunner (pooledRun 2) [⟨[], false, [1]⟩] e' ∧
      ([⟨[], false, [1]⟩].map fun r : ScheduleResult => r.preempted.length).sum ≤
        3 * tokensLeftOf (pooledRun 2).scheduler.world.seqs
            ((pooledRun 2).scheduler.waiting ++ (pooledRun 2).scheduler.decoding) +
          2 * ((pooledRun 2).scheduler.waiting ++ (pooledRun 2).scheduler.decoding).length + 1 := by
  have hallowed : Along (EngineOp.exec smallConfig (pooledOracle 8) constantRunner)
      (EngineOp.Allowed smallConfig (pooledOracle 8) constantRunner) idleEngine
      (twoRequests 2) := by
    decide +kernel
  have hpreempts : (engineStep smallConfig (pooledOracle 8) constantRunner).run' (pooledRun 2) =
      some ⟨[], false, [1]⟩ := by
    decide +kernel
  obtain ⟨e', hstep⟩ := run'_eq_some.mp hpreempts
  have hrun : Steps smallConfig (pooledOracle 8) constantRunner (pooledRun 2) [⟨[], false, [1]⟩] e' :=
    Trace.cons hstep (Trace.nil e')
  have hreached : Reachable (EngineOp.exec smallConfig (pooledOracle 8) constantRunner)
      (EngineOp.Allowed smallConfig (pooledOracle 8) constantRunner) idleEngine (pooledRun 2) :=
    Reachable.runAll .init hallowed
  exact ⟨e', hrun, (preemptions_bounded smallConfig (pooledOracle_writesHitsOnly 8)
    constantRunner_reads rfl rfl hreached).1 _ _ hrun⟩

end SparseVllm
