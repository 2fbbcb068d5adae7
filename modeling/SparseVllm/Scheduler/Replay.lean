import SparseVllm.Scheduler.History

/-!
# Recompute replay rebuilds the accepted history

A preempted request loses its rows. The scheduler prefills its prompt again, then feeds it the
accepted completion tokens one by one, and only then lets it sample. `Coherent` is what holds of
the queues between two steps; a step keeps it whatever it preempts (`engineStep_coherent`).

Results: `replay_rebuilds_history`, over every run of `step` and `add_request`.
-/

namespace SparseVllm

open SparseVllm.Lib

variable {ε σ B κ ν : Type}

open Sequence

/-! ## The queues between two steps -/

/-- What holds between two steps, of the requests, the inputs on their rows and the queues. -/
structure Coherent (memory : MemoryOracle ε σ B κ ν) (f : SeqId → Sequence B)
    (ran : SeqId → List (Nat × Int)) (waiting decoding : List SeqId) : Prop where
  distinct : (waiting ++ decoding).Nodup
  live : ∀ q ∈ waiting ++ decoding, (f q).status ≠ .finished
  waits : ∀ q ∈ waiting, Waits memory (f q) (ran q)
  decodes : ∀ q ∈ decoding, Decodes (f q) (ran q)

/-- The requests of a batch are out of the queues (prefill) or in the decode queue. -/
def Held (isPrefill : Bool) (waiting decoding : List SeqId) (q : SeqId) : Prop :=
  if isPrefill then q ∉ waiting ++ decoding else q ∈ decoding

/-- What holds inside `postprocess`, which has `rest` of the batch still to treat; the requests of
the batch were `start` when they ran. -/
structure Midway (memory : MemoryOracle ε σ B κ ν) (isPrefill : Bool) (batch : List SeqId)
    (start : SeqId → Sequence B) (ran : SeqId → List (Nat × Int)) (rest : List SeqId)
    (f : SeqId → Sequence B) (waiting decoding : List SeqId) : Prop where
  distinct : (waiting ++ decoding).Nodup
  live : ∀ q ∈ waiting ++ decoding, (f q).status ≠ .finished
  apart : rest.Nodup
  held : ∀ q ∈ rest, Held isPrefill waiting decoding q
  waits : ∀ q ∈ waiting, Waits memory (f q) (ran q)
  decodes : ∀ q ∈ decoding, q ∉ rest → Decodes (f q) (ran q)
  ready : ∀ q ∈ rest, f q = start q ∧ Ready isPrefill (f q) ∧
    ran q = (f q).inputsFrom (f q).prefixCacheHitLen ((f q).stopPoint isPrefill)
  done : ∀ q ∈ batch, q ∉ rest → Rebuilt (f q) (ran q) ∧ Advanced (start q) (f q)

/-- A batch that is about to run. -/
structure Begun (memory : MemoryOracle ε σ B κ ν) (isPrefill : Bool) (batch : List SeqId)
    (f : SeqId → Sequence B) (ran : SeqId → List (Nat × Int)) (waiting decoding : List SeqId) :
    Prop where
  distinct : (waiting ++ decoding).Nodup
  live : ∀ q ∈ waiting ++ decoding, (f q).status ≠ .finished
  apart : batch.Nodup
  held : ∀ q ∈ batch, Held isPrefill waiting decoding q
  waits : ∀ q ∈ waiting, Waits memory (f q) (ran q)
  decodes : ∀ q ∈ decoding, q ∉ batch → Decodes (f q) (ran q)
  ready : ∀ q ∈ batch, Ready isPrefill (f q) ∧ (f q).prefixCacheHitLen ≤ (f q).reached ∧
    ran q = (f q).inputsFrom (f q).prefixCacheHitLen (f q).reached

section Queues

variable {memory : MemoryOracle ε σ B κ ν} {f : SeqId → Sequence B}
variable {ran : SeqId → List (Nat × Int)} {waiting decoding : List SeqId}

theorem Begun.midway {isPrefill : Bool} {batch : List SeqId}
    (h : Begun memory isPrefill batch f ran waiting decoding) :
    Midway memory isPrefill batch f (ranBatch f isPrefill batch ran) batch f waiting decoding := by
  have hkeep : ∀ q, q ∉ batch → ranBatch f isPrefill batch ran q = ran q := fun q hq => if_neg hq
  refine ⟨h.distinct, h.live, h.apart, h.held, fun q hq => ?_, fun q hq hout => ?_, fun q hq => ?_,
    fun q hq hout => absurd hq hout⟩
  · have hout : q ∉ batch := by
      intro hin
      have hheld := h.held q hin
      cases isPrefill with
      | true => exact hheld (List.mem_append_left _ hq)
      | false => exact (List.nodup_append.mp h.distinct).2.2 q hq q hheld rfl
    rw [hkeep q hout]
    exact h.waits q hq
  · rw [hkeep q hout]
    exact h.decodes q hq hout
  · obtain ⟨hready, hhit, hran⟩ := h.ready q hq
    refine ⟨rfl, hready, ?_⟩
    unfold ranBatch
    rw [if_pos hq, hready.inputs]
    show ran q ++ _ = _
    rw [hran]
    exact inputsFrom_append _ hhit (Nat.le_add_right _ _)

/-- One request is treated, and the others stay as they were. -/
theorem Midway.treat {isPrefill : Bool} {batch rest : List SeqId} {start : SeqId → Sequence B}
    {seq : SeqId} {b : Sequence B} {waiting' decoding' : List SeqId}
    (h : Midway memory isPrefill batch start ran (seq :: rest) f waiting decoding)
    (advanced : Advanced (f seq) b) (rebuilt : Rebuilt b (ran seq))
    (distinct : (waiting' ++ decoding').Nodup)
    (held : ∀ q ∈ rest, q ≠ seq → Held isPrefill waiting' decoding' q)
    (waiting_sub : ∀ q ∈ waiting', q ≠ seq → q ∈ waiting)
    (decoding_sub : ∀ q ∈ decoding', q ≠ seq → q ∈ decoding)
    (waits : seq ∈ waiting' → Waits memory b (ran seq))
    (decodes : seq ∈ decoding' → Decodes b (ran seq))
    (live : seq ∈ waiting' ++ decoding' → b.status ≠ .finished) :
    Midway memory isPrefill batch start ran rest (Function.update f seq b) waiting' decoding' := by
  obtain ⟨hnew, hapart⟩ := List.nodup_cons.mp h.apart
  have hupdate : ∀ q, q ≠ seq → Function.update f seq b q = f q := fun q hq =>
    Function.update_of_ne hq b f
  have hne : ∀ q ∈ rest, q ≠ seq := fun q hq heq => hnew (heq ▸ hq)
  refine ⟨distinct, fun q hq => ?_, hapart, fun q hq => held q hq (hne q hq), fun q hq => ?_,
    fun q hq hout => ?_, fun q hq => ?_, fun q hq hout => ?_⟩
  · by_cases heq : q = seq
    · subst heq
      rw [Function.update_self]
      exact live hq
    · rw [hupdate q heq]
      refine h.live q (List.mem_append.mpr ?_)
      exact (List.mem_append.mp hq).imp (waiting_sub q · heq) (decoding_sub q · heq)
  · by_cases heq : q = seq
    · subst heq
      rw [Function.update_self]
      exact waits hq
    · rw [hupdate q heq]
      exact h.waits q (waiting_sub q hq heq)
  · by_cases heq : q = seq
    · subst heq
      rw [Function.update_self]
      exact decodes hq
    · rw [hupdate q heq]
      exact h.decodes q (decoding_sub q hq heq) (by simp [heq, hout])
  · rw [hupdate q (hne q hq)]
    exact h.ready q (List.mem_cons_of_mem _ hq)
  · by_cases heq : q = seq
    · subst heq
      rw [Function.update_self, ← (h.ready q List.mem_cons_self).1]
      exact ⟨rebuilt, advanced⟩
    · rw [hupdate q heq]
      exact h.done q hq (by simp [heq, hout])

theorem Midway.prefill_step {cfg : SchedulerConfig} {sample : Sample} {batch rest : List SeqId}
    {start : SeqId → Sequence B} {seq : SeqId} {b : Sequence B} {waiting' decoding' : List SeqId}
    (h : Midway memory true batch start ran (seq :: rest) f waiting decoding)
    (land : PrefillLanding cfg sample seq (f seq) waiting decoding b waiting' decoding') :
    Midway memory true batch start ran rest (Function.update f seq b) waiting' decoding' := by
  have hout : seq ∉ waiting ++ decoding := h.held seq List.mem_cons_self
  obtain ⟨-, hready, hran⟩ := h.ready seq List.mem_cons_self
  obtain ⟨hadvanced, ⟨rfl, rfl, hwaits, hlive⟩ | ⟨rfl, hdecodes, hqueue⟩⟩ :=
    land.tracks memory hready hran
  · refine h.treat hadvanced hwaits.rebuilt (List.nodup_cons.mpr ⟨hout, h.distinct⟩)
      (fun q hq hne => ?_) (fun q hq hne => ?_) (fun q hq _ => hq) (fun _ => hwaits) (fun hin => ?_)
      fun _ => hlive
    · have hheld : q ∉ waiting ++ decoding' := h.held q (List.mem_cons_of_mem _ hq)
      exact fun hin => hheld ((List.mem_cons.mp hin).resolve_left hne)
    · exact (List.mem_cons.mp hq).resolve_left hne
    · exact absurd (List.mem_append_right _ hin) hout
  · -- The decode queue grew by the request, or the request has ended.
    have hdistinct : (waiting' ++ (decoding ++ [seq])).Nodup := by
      rw [← List.append_assoc, ← List.concat_eq_append]
      exact h.distinct.concat hout
    have hsub : decoding'.Sublist (decoding ++ [seq]) := by
      rcases hqueue with ⟨rfl, -⟩ | rfl
      · exact .refl _
      · exact List.erase_sublist
    have hmem : ∀ q ∈ decoding', q ≠ seq → q ∈ decoding := fun q hq hne =>
      (List.mem_append.mp (hsub.subset hq)).resolve_right fun hs => hne (List.mem_singleton.mp hs)
    refine h.treat hadvanced hdecodes.rebuilt (hdistinct.sublist (hsub.append_left _))
      (fun q hq hne => ?_) (fun q hq _ => hq) hmem (fun hin => ?_) (fun _ => hdecodes) fun hin => ?_
    · have hheld : q ∉ waiting' ++ decoding := h.held q (List.mem_cons_of_mem _ hq)
      intro hin
      rcases List.mem_append.mp hin with hw | hd
      · exact hheld (List.mem_append_left _ hw)
      · exact hheld (List.mem_append_right _ (hmem q hd hne))
    · exact absurd (List.mem_append_left _ hin) hout
    · rcases hqueue with ⟨-, hlive⟩ | rfl
      · exact hlive
      · rcases List.mem_append.mp hin with hw | hd
        · exact absurd (List.mem_append_left _ hw) hout
        · exact absurd hd ((List.nodup_append.mp hdistinct).2.1.not_mem_erase)

theorem Midway.decode_step {cfg : SchedulerConfig} {sample : Sample} {batch rest : List SeqId}
    {start : SeqId → Sequence B} {seq : SeqId} {b : Sequence B} {decoding' : List SeqId}
    (h : Midway memory false batch start ran (seq :: rest) f waiting decoding)
    (land : DecodeLanding cfg sample seq (f seq) decoding b decoding') :
    Midway memory false batch start ran rest (Function.update f seq b) waiting decoding' := by
  have hin : seq ∈ decoding := h.held seq List.mem_cons_self
  have hapart : seq ∉ waiting := fun hw =>
    (List.nodup_append.mp h.distinct).2.2 seq hw seq hin rfl
  obtain ⟨-, hready, hran⟩ := h.ready seq List.mem_cons_self
  obtain ⟨hadvanced, hdecodes, hqueue⟩ := land.tracks hready hran
  have hsub : decoding'.Sublist decoding := by
    rcases hqueue with ⟨rfl, -⟩ | rfl
    · exact .refl _
    · exact List.erase_sublist
  refine h.treat hadvanced hdecodes.rebuilt (h.distinct.sublist (hsub.append_left _))
    (fun q hq hne => ?_) (fun q hq _ => hq) (fun q hq _ => hsub.subset hq)
    (fun hw => absurd hw hapart) (fun _ => hdecodes) fun hq => ?_
  · have hheld : q ∈ decoding := h.held q (List.mem_cons_of_mem _ hq)
    rcases hqueue with ⟨rfl, -⟩ | rfl
    · exact hheld
    · exact (List.mem_erase_of_ne hne).mpr hheld
  · rcases hqueue with ⟨-, hstatus⟩ | rfl
    · rw [hstatus]
      exact h.live seq (List.mem_append_right _ hin)
    · rcases List.mem_append.mp hq with hw | hd
      · exact absurd hw hapart
      · exact absurd hd ((List.nodup_append.mp h.distinct).2.1.not_mem_erase)

theorem Midway.coherent {isPrefill : Bool} {batch : List SeqId} {start : SeqId → Sequence B}
    (h : Midway memory isPrefill batch start ran [] f waiting decoding) :
    Coherent memory f ran waiting decoding :=
  ⟨h.distinct, h.live, h.waits, fun q hq => h.decodes q hq List.not_mem_nil⟩

/-! ### What scheduling leaves -/

theorem Waits.refreshed {a b : Sequence B} {ran : List (Nat × Int)} (h : Waits memory a ran)
    (hrefresh : Refreshed memory a b) : Waits memory b ran := by
  rcases hrefresh with rfl | ⟨hzero, -, len, count, last, hlen, rfl⟩
  · exact h
  · refine ⟨⟨h.accepted.tokens, h.accepted.prompt, h.accepted.last⟩, h.replay, Or.inl ?_⟩
    rcases h.progress with ⟨-, hran, -⟩ | ⟨hpos, -⟩
    · exact ⟨hzero, hran, hlen⟩
    · omega

/-- A decode has a completion, so nothing refreshes it. -/
theorem Generates.refreshed {a b : Sequence B} (h : Generates a) (hrefresh : Refreshed memory a b) :
    b = a := by
  rcases hrefresh with rfl | ⟨-, hnone, -⟩
  · rfl
  · have hcompletion := h.completion
    unfold numCompletionTokens at hnone
    omega

theorem Refreshed.sameHistory {a b : Sequence B} (h : Refreshed memory a b) : SameHistory a b := by
  rcases h with rfl | ⟨-, -, len, count, last, -, rfl⟩
  · exact .refl _
  · exact ⟨rfl, rfl, rfl, rfl⟩

theorem Refreshed.status {a b : Sequence B} (h : Refreshed memory a b) : b.status = a.status := by
  rcases h with rfl | ⟨-, -, len, count, last, -, rfl⟩
  · rfl
  · rfl

/-- What the oracle says remains of a prompt ends inside it: of one that has not started, past the
hit the oracle wrote. -/
def RemainsInPrompt (memory : MemoryOracle ε σ B κ ν) : Prop :=
  ∀ ⦃request tokens⦄, Remains memory request tokens →
    request.prefixCacheHitLen ≤ request.numPrefilledTokens ∨
      WrittenHit memory request.prefixCacheHitLen →
    tokens + max request.numPrefilledTokens request.prefixCacheHitLen ≤ request.numPromptTokens

/-- A chunk starts where the rows end, or at the hit of a request that has not started. -/
theorem Chunked.prefills (fits : RemainsInPrompt memory) {a b : Sequence B}
    {ran : List (Nat × Int)} (hchunk : Chunked memory a b) (h : Waits memory a ran) :
    Prefills b ∧ SameHistory a b ∧ ran = b.inputsFrom b.prefixCacheHitLen b.reached := by
  obtain ⟨request, remaining, tokens, hrefresh, hremains, hpos, hle, rfl⟩ := hchunk
  have hhistory := hrefresh.sameHistory
  obtain ⟨haccepted, hreplay, hprogress⟩ := h.refreshed hrefresh
  have hroom := fits hremains (by
    rcases hprogress with ⟨-, -, hhit⟩ | ⟨-, -, hhit, -⟩
    · exact Or.inr hhit
    · exact Or.inl hhit)
  rcases hprogress with ⟨hzero, rfl, -⟩ | ⟨hstarted, -, hhit, rfl⟩
  · have hchunk : request.withChunk tokens = { request with
        numPrefilledTokens := request.prefixCacheHitLen
        currentChunkSize := some tokens
        status := .running } := by
      unfold Sequence.withChunk Sequence.startedAtPrefixHit
      rw [if_pos hzero]
      split
      · rfl
      · have hnone : request.prefixCacheHitLen = request.numPrefilledTokens := by omega
        simp only [hnone]
    have hprefills : Prefills (request.withChunk tokens) := by
      rw [hchunk]
      refine ⟨⟨haccepted.tokens, haccepted.prompt, haccepted.last⟩, hreplay, ⟨tokens, rfl, hpos, ?_⟩,
        le_refl _⟩
      show request.prefixCacheHitLen + tokens ≤ request.numPromptTokens
      omega
    refine ⟨hprefills, ?_, ?_⟩
    · rw [hchunk]
      exact ⟨hhistory.1, hhistory.2, hhistory.3, hhistory.4⟩
    · rw [hprefills.reached, hchunk]
      exact (inputsFrom_self _ _).symm
  · have hchunk : request.withChunk tokens = { request with
        currentChunkSize := some tokens
        status := .running } := by
      unfold Sequence.withChunk
      rw [if_neg (by omega)]
    have hprefills : Prefills (request.withChunk tokens) := by
      rw [hchunk]
      refine ⟨⟨haccepted.tokens, haccepted.prompt, haccepted.last⟩, hreplay, ⟨tokens, rfl, hpos, ?_⟩,
        hhit⟩
      show request.numPrefilledTokens + tokens ≤ request.numPromptTokens
      omega
    refine ⟨hprefills, ?_, ?_⟩
    · rw [hchunk]
      exact ⟨hhistory.1, hhistory.2, hhistory.3, hhistory.4⟩
    · rw [hprefills.reached, hchunk]
      rfl

/-- A preempted request starts over: its rows are empty. -/
theorem Generates.restarted {a : Sequence B} (h : Generates a) : Waits memory a.restarted [] := by
  have hcompletion := h.completion
  have hpos : 0 < a.numCompletionTokens := by
    unfold numCompletionTokens
    omega
  unfold Sequence.restarted
  rw [if_pos hpos]
  exact ⟨⟨h.accepted.tokens, h.accepted.prompt, h.accepted.last⟩, Or.inr ⟨rfl, hcompletion⟩,
    Or.inl ⟨rfl, rfl, Or.inl rfl⟩⟩

theorem Sequence.restarted_sameHistory (a : Sequence B) : SameHistory a a.restarted := by
  unfold Sequence.restarted
  split
  · exact ⟨rfl, rfl, rfl, rfl⟩
  · exact ⟨rfl, rfl, rfl, rfl⟩

theorem Decodes.handedOff {a : Sequence B} {ran : List (Nat × Int)} (h : Decodes a ran) :
    Decodes a.handedOff ran :=
  ⟨⟨⟨h.accepted.tokens, h.accepted.prompt, h.accepted.last⟩, h.completion, h.prompt, h.prefilled,
    h.hit, h.cursor⟩, h.inputs⟩

/-- Between two steps, after requests were refreshed. -/
theorem Coherent.refreshed (h : Coherent memory f ran waiting decoding) {g : SeqId → Sequence B}
    (hrefresh : ∀ q, Refreshed memory (f q) (g q)) {waiting' decoding' : List SeqId}
    (hw : waiting'.Perm waiting) (hd : decoding'.Perm decoding) :
    Coherent memory g ran waiting' decoding' := by
  refine ⟨(hw.append hd).nodup_iff.mpr h.distinct, fun q hq => ?_, fun q hq => ?_, fun q hq => ?_⟩
  · rw [(hrefresh q).status]
    exact h.live q ((hw.append hd).mem_iff.mp hq)
  · exact (h.waits q (hw.mem_iff.mp hq)).refreshed (hrefresh q)
  · have hdecodes := h.decodes q (hd.mem_iff.mp hq)
    rw [hdecodes.refreshed (hrefresh q)]
    exact hdecodes

theorem Chunked.sameHistory {a b : Sequence B} (h : Chunked memory a b) : SameHistory a b := by
  obtain ⟨request, remaining, tokens, hrefresh, -, -, -, rfl⟩ := h
  refine hrefresh.sameHistory.trans ?_
  unfold Sequence.withChunk Sequence.startedAtPrefixHit
  split
  · split
    · exact ⟨rfl, rfl, rfl, rfl⟩
    · exact ⟨rfl, rfl, rfl, rfl⟩
  · exact ⟨rfl, rfl, rfl, rfl⟩

/-- Scheduling accepts nothing. -/
theorem Outcome.sameHistory {s t : Scheduler σ B} {r : ScheduleResult} (out : Outcome memory s r t)
    (q : SeqId) : SameHistory (s.world.seqs q) (t.world.seqs q) := by
  cases out with
  | prefill batch some none waits decodes requests =>
    have hq := requests q
    split at hq
    · exact hq.sameHistory
    · exact hq.sameHistory
  | decode batch none waits decodes distinct queued requests => exact (requests q).sameHistory
  | preempt victim g result decodes waits refreshed requests =>
    refine (refreshed q).sameHistory.trans ?_
    rw [requests]
    by_cases hq : q = victim
    · subst hq
      rw [Function.update_self]
      exact restarted_sameHistory _
    · rw [Function.update_of_ne hq]
      unfold handOff
      split
      · exact ⟨rfl, rfl, rfl, rfl⟩
      · exact .refl _

/-- The rows after the release of what a pass preempted. -/
def keptRows (r : ScheduleResult) (ran : SeqId → List (Nat × Int)) : SeqId → List (Nat × Int) :=
  fun q => if q ∈ r.preempted then [] else ran q

/-- A pass that returned no batch. -/
theorem Outcome.idle {s t : Scheduler σ B} {r : ScheduleResult} (out : Outcome memory s r t)
    (h : Coherent memory s.world.seqs ran s.waiting s.decoding) (hnone : r.seqs = []) :
    Coherent memory t.world.seqs (keptRows r ran) t.waiting t.decoding := by
  cases out with
  | prefill batch some => exact absurd hnone some
  | decode batch none waits decodes distinct queued requests =>
    have hkept : keptRows r ran = ran := funext fun q => if_neg (by rw [none]; exact List.not_mem_nil)
    rw [hkept]
    exact h.refreshed requests waits decodes
  | preempt victim g result decodes waits refreshed requests guard =>
    subst result
    have hkeep : ∀ q, q ≠ victim → keptRows ⟨[], false, [victim]⟩ ran q = ran q := fun q hq =>
      if_neg fun hin => hq (List.mem_singleton.mp hin)
    have hg : Coherent memory g ran s.waiting s.decoding := h.refreshed refreshed (.refl _) (.refl _)
    have hvictim : victim ∈ s.decoding := decodes.mem_iff.mp List.mem_cons_self
    have hperm : (t.waiting ++ t.decoding).Perm (s.waiting ++ s.decoding) :=
      (waits.append_right _).trans
        (List.perm_middle.symm.trans ((List.Perm.refl s.waiting).append decodes))
    have hnd : (t.waiting ++ t.decoding).Nodup := hperm.nodup_iff.mpr h.distinct
    have hother : ∀ q, q ≠ victim → t.world.seqs q = handOff g t.decoding q := fun q hq => by
      rw [requests, Function.update_of_ne hq]
    have hself : t.world.seqs victim = (g victim).restarted := by
      rw [requests, Function.update_self]
    have hgenerates : Generates (g victim) := (hg.decodes victim hvictim).toGenerates
    refine ⟨hnd, fun q hq => ?_, fun q hq => ?_, fun q hq => ?_⟩
    · by_cases heq : q = victim
      · subst heq
        rw [hself]
        unfold Sequence.restarted
        split
        · exact nofun
        · exact nofun
      · have hlive := hg.live q (hperm.mem_iff.mp hq)
        rw [hother q heq]
        unfold handOff
        split
        · exact hlive
        · exact hlive
    · by_cases heq : q = victim
      · subst heq
        rw [hself, show keptRows ⟨[], false, [q]⟩ ran q = [] from if_pos List.mem_cons_self]
        exact hgenerates.restarted
      · have hout : q ∉ t.decoding := fun hd => (List.nodup_append.mp hnd).2.2 q hq q hd rfl
        rw [hother q heq, hkeep q heq, show handOff g t.decoding q = g q from if_neg hout]
        exact hg.waits q ((List.mem_cons.mp (waits.mem_iff.mp hq)).resolve_left heq)
    · have heq : q ≠ victim := by
        rintro rfl
        exact (List.nodup_cons.mp (decodes.nodup_iff.mpr (List.nodup_append.mp h.distinct).2.1)).1 hq
      rw [hother q heq, hkeep q heq, show handOff g t.decoding q = (g q).handedOff from if_pos hq]
      exact (hg.decodes q (decodes.mem_iff.mp (List.mem_cons_of_mem _ hq))).handedOff

/-- A pass that returned a batch. -/
theorem Outcome.begun (fits : RemainsInPrompt memory) {s t : Scheduler σ B} {r : ScheduleResult}
    (out : Outcome memory s r t) (h : Coherent memory s.world.seqs ran s.waiting s.decoding)
    (hsome : r.seqs ≠ []) :
    Begun memory r.isPrefill r.seqs t.world.seqs (keptRows r ran) t.waiting t.decoding := by
  have hkept : r.preempted = [] → keptRows r ran = ran := fun hnone =>
    funext fun q => if_neg (by rw [hnone]; exact List.not_mem_nil)
  cases out with
  | prefill batch some none waits decodes requests =>
    rw [batch, hkept none, decodes]
    have hperm : (r.seqs ++ t.waiting ++ s.decoding).Perm (s.waiting ++ s.decoding) :=
      waits.append_right _
    have hnd : (r.seqs ++ (t.waiting ++ s.decoding)).Nodup := by
      rw [← List.append_assoc]
      exact hperm.nodup_iff.mpr h.distinct
    obtain ⟨hapart, hqueues, hdisjoint⟩ := List.nodup_append.mp hnd
    have hout : ∀ q ∈ t.waiting ++ s.decoding, q ∉ r.seqs := fun q hq hin => hdisjoint q hin q hq rfl
    have hrefreshed : ∀ q ∈ t.waiting ++ s.decoding,
        Refreshed memory (s.world.seqs q) (t.world.seqs q) := by
      intro q hq
      have := requests q
      rw [if_neg (hout q hq)] at this
      exact this
    have hwaiting : ∀ q ∈ t.waiting, q ∈ s.waiting := fun q hq =>
      waits.mem_iff.mp (List.mem_append_right _ hq)
    refine ⟨hqueues, fun q hq => ?_, hapart, fun q hq hin => hdisjoint q hq q hin rfl,
      fun q hq => ?_, fun q hq _ => ?_, fun q hq => ?_⟩
    · rw [(hrefreshed q hq).status]
      exact h.live q (List.mem_append.mpr ((List.mem_append.mp hq).imp_left (hwaiting q)))
    · exact (h.waits q (hwaiting q hq)).refreshed (hrefreshed q (List.mem_append_left _ hq))
    · have hdecodes := h.decodes q hq
      rw [hdecodes.refreshed (hrefreshed q (List.mem_append_right _ hq))]
      exact hdecodes
    · have hchunk := requests q
      rw [if_pos hq] at hchunk
      obtain ⟨hprefills, -, hran⟩ :=
        hchunk.prefills fits (h.waits q (waits.mem_iff.mp (List.mem_append_left _ hq)))
      refine ⟨hprefills, ?_, hran⟩
      rw [hprefills.reached]
      exact hprefills.hit
  | decode batch none waits decodes distinct queued requests =>
    rw [batch, hkept none]
    have hcoherent := h.refreshed requests waits decodes
    refine ⟨hcoherent.distinct, hcoherent.live, distinct, queued, hcoherent.waits,
      fun q hq _ => hcoherent.decodes q hq, fun q hq => ?_⟩
    have hdecodes := hcoherent.decodes q (queued q hq)
    exact ⟨hdecodes.toGenerates, hdecodes.hit.trans hdecodes.reached_bounds.1, hdecodes.inputs⟩
  | preempt victim g result =>
    rw [result] at hsome
    exact absurd rfl hsome

end Queues

/-! ## Steps and runs -/

section Runs

variable {memory : MemoryOracle ε σ B κ ν} {runner : ModelRunner ε σ B} (cfg : SchedulerConfig)

/-- The invariant between two steps. -/
def Engine.Coherent (memory : MemoryOracle ε σ B κ ν) (e : Engine σ B) : Prop :=
  SparseVllm.Coherent memory e.scheduler.world.seqs e.executed e.scheduler.waiting
    e.scheduler.decoding

variable (hits : WritesHitsOnly memory) (fits : RemainsInPrompt memory) (reads : RunnerReads runner)

theorem Engine.Is.coherent {f : SeqId → Sequence B} {ran : SeqId → List (Nat × Int)}
    {waiting decoding : List SeqId} {e : Engine σ B} (he : e.Is f ran waiting decoding)
    (h : SparseVllm.Coherent memory f ran waiting decoding) : e.Coherent memory := by
  obtain ⟨⟨rfl, rfl, rfl⟩, rfl⟩ := he
  exact h

include hits reads

/-- The batch runs and lands. -/
theorem runBatch_rebuilds {f : SeqId → Sequence B} {ran : SeqId → List (Nat × Int)}
    {waiting decoding : List SeqId} {r : ScheduleResult}
    (h : Begun memory r.isPrefill r.seqs f ran waiting decoding) :
    Returns (Engine.Is f ran waiting decoding) (runBatch (ν := ν) cfg memory runner r) fun _ e =>
      e.Coherent memory ∧
        (∀ q ∈ r.seqs, Rebuilt (e.request q) (e.executed q) ∧ Advanced (f q) (e.request q)) ∧
        e.executed = ranBatch f r.isPrefill r.seqs ran := by
  refine Spec.bind (executeBatch_is reads r.isPrefill h.apart) fun samples => ?_
  have hmidway := h.midway
  have hpost : Returns
      (fun e => ∃ g w d, Midway memory r.isPrefill r.seqs f (ranBatch f r.isPrefill r.seqs ran)
        r.seqs g w d ∧ Engine.Is g (ranBatch f r.isPrefill r.seqs ran) w d e)
      (postprocess (ν := ν) cfg memory r.seqs samples r.isPrefill)
      fun _ e => ∃ g w d, Midway memory r.isPrefill r.seqs f (ranBatch f r.isPrefill r.seqs ran)
        [] g w d ∧ Engine.Is g (ranBatch f r.isPrefill r.seqs ran) w d e := by
    cases r.isPrefill with
    | true => exact postprocess_prefill cfg hits (fun hm land => hm.prefill_step land) r.seqs
    | false => exact postprocess_decode cfg (fun hm land => hm.decode_step land) r.seqs
  refine (hpost.pre fun e he => ⟨f, waiting, decoding, hmidway, he⟩).post fun _ e he => ?_
  obtain ⟨g, w, d, hm, he⟩ := he
  refine ⟨he.coherent hm.coherent, fun q hq => ?_, he.2⟩
  rw [show e.request q = g q from congrFun he.1.1 q, he.2]
  exact hm.done q hq List.not_mem_nil

omit hits in
theorem releaseFinished_coherent (seqs : List SeqId) :
    Returns (Engine.Coherent memory) (releaseFinished (ν := ν) runner seqs)
      fun _ => Engine.Coherent memory := by
  refine Spec.intro fun e he => ?_
  refine (Spec.start (releaseFinished_is reads seqs) e.is_self).post fun _ t ht =>
    ht.coherent ⟨he.distinct, he.live, fun q hq => ?_, fun q hq => ?_⟩
  · rw [if_neg fun h => he.live q (List.mem_append_left _ hq) h.2]
    exact he.waits q hq
  · rw [if_neg fun h => he.live q (List.mem_append_right _ hq) h.2]
    exact he.decodes q hq

omit reads in
theorem countPrefillModes_coherent :
    Returns (Engine.Coherent memory) (onScheduler (countPrefillModes (ν := ν) memory))
      fun _ => Engine.Coherent memory := by
  refine Spec.intro fun e he => ?_
  refine (Spec.start (countPrefillModes_refreshes hits) e.is_self).post fun _ t ht => ?_
  obtain ⟨g, hrefresh, ht⟩ := ht
  exact ht.coherent (he.refreshed hrefresh (.refl _) (.refl _))

variable [DecidableEq κ] [DecidableEq ν]

include fits

theorem engineStep_coherent :
    Returns (Engine.Coherent memory) (engineStep cfg memory runner)
      fun _ => Engine.Coherent memory := by
  refine Spec.intro fun e he => ?_
  refine Spec.bind (beginStep_outcome reads hits cfg he.distinct) fun r => Spec.intro fun t ht => ?_
  obtain ⟨hout, hran⟩ := ht
  refine Spec.ite (fun hnone => ?_) fun hsome => ?_
  · have hidle : t.Coherent memory := by
      have := hout.idle he hnone
      unfold Engine.Coherent
      rw [hran]
      exact this
    refine Spec.bind (R := fun _ => Engine.Coherent memory) ?_ fun _ => Spec.pure fun _ hu => hu
    refine Spec.get_bind fun u hu => Spec.raiseIf_bind (fun _ _ _ => trivial) fun _ => ?_
    refine (countPrefillModes_coherent hits).pre fun v hv => ?_
    rw [hv, hu]
    exact hidle
  · have hbegun := hout.begun fits he hsome
    have his : t.Is t.scheduler.world.seqs (keptRows r e.executed) t.scheduler.waiting
        t.scheduler.decoding := ⟨⟨rfl, rfl, rfl⟩, hran⟩
    refine Spec.bind ((Spec.start (runBatch_rebuilds cfg hits reads hbegun) his).post
      fun _ u hu => hu.1) fun _ => ?_
    refine Spec.bind (releaseFinished_coherent reads r.seqs) fun _ => ?_
    exact Spec.bind (countPrefillModes_coherent hits) fun _ => Spec.pure fun _ hu => hu

/-- What the engine is asked to do: a step, or a new request, with the tokens a resumed chain has
already run. -/
inductive EngineOp where
  | step
  | add (seq : SeqId) (tokenIds : List Nat) (params : SamplingParams) (positionDelta : Int)
      (hasDigest fullPrefill : Bool) (reused : Nat)

/-- One operation. -/
def EngineOp.exec (cfg : SchedulerConfig) (memory : MemoryOracle ε σ B κ ν)
    (runner : ModelRunner ε σ B) : EngineOp → Engine σ B → Engine σ B
  | .step, e => stateAfter (engineStep cfg memory runner) e
  | .add seq tokenIds params positionDelta hasDigest fullPrefill reused, e =>
    addRequest seq { Sequence.ofRequest tokenIds params positionDelta with
      hasMultimodalDigest := hasDigest
      multimodalFullPrefill := fullPrefill } reused e

/-- A step returns (a raise ends the run); an id is not added twice, and a resumed chain leaves a
part of the prompt to run. -/
def EngineOp.Allowed (cfg : SchedulerConfig) (memory : MemoryOracle ε σ B κ ν)
    (runner : ModelRunner ε σ B) (e : Engine σ B) : EngineOp → Prop
  | .step => (raises (engineStep cfg memory runner) e).isNone = true
  | .add seq tokenIds _ _ _ _ reused =>
    seq ∉ e.scheduler.waiting ++ e.scheduler.decoding ∧ (reused = 0 ∨ reused < tokenIds.length)

omit hits fits reads in
theorem addRequest_coherent {e : Engine σ B} (he : e.Coherent memory) {seq : SeqId}
    {tokenIds : List Nat} (params : SamplingParams) (positionDelta : Int)
    (hasDigest fullPrefill : Bool) {reused : Nat}
    (fresh : seq ∉ e.scheduler.waiting ++ e.scheduler.decoding)
    (part : reused = 0 ∨ reused < tokenIds.length) :
    Engine.Coherent memory (EngineOp.exec cfg memory runner
      (.add seq tokenIds params positionDelta hasDigest fullPrefill reused) e) := by
  obtain ⟨added, hadded⟩ : ∃ added : Sequence B, added = { Sequence.ofRequest tokenIds params
    positionDelta with
      hasMultimodalDigest := hasDigest
      multimodalFullPrefill := fullPrefill
      numPrefilledTokens := reused
      prefixCacheHitLen := reused } := ⟨_, rfl⟩
  have hself : Function.update e.scheduler.world.seqs seq added seq = added := Function.update_self ..
  have hother : ∀ q ∈ e.scheduler.waiting ++ e.scheduler.decoding,
      Function.update e.scheduler.world.seqs seq added q = e.scheduler.world.seqs q ∧
      Function.update e.executed seq [] q = e.executed q := by
    intro q hq
    have hne : q ≠ seq := fun heq => fresh (heq ▸ hq)
    exact ⟨Function.update_of_ne hne .., Function.update_of_ne hne ..⟩
  have hwaits : Waits memory added [] := by
    subst hadded
    refine ⟨⟨rfl, le_refl _, rfl⟩, Or.inl ⟨rfl, rfl⟩, ?_⟩
    by_cases hzero : reused = 0
    · exact Or.inl ⟨hzero, rfl, Or.inl hzero⟩
    · exact Or.inr ⟨Nat.pos_of_ne_zero hzero, part.resolve_left hzero, le_refl _,
        (inputsFrom_self _ _).symm⟩
  have hcoherent : SparseVllm.Coherent memory (Function.update e.scheduler.world.seqs seq added)
      (Function.update e.executed seq []) (e.scheduler.waiting ++ [seq]) e.scheduler.decoding := by
    have hmove : (e.scheduler.waiting ++ [seq] ++ e.scheduler.decoding).Perm
        (seq :: (e.scheduler.waiting ++ e.scheduler.decoding)) := by
      rw [List.append_assoc]
      exact List.perm_middle
    refine ⟨hmove.nodup_iff.mpr (List.nodup_cons.mpr ⟨fresh, he.distinct⟩), fun q hq => ?_,
      fun q hq => ?_, fun q hq => ?_⟩
    · rcases List.mem_cons.mp (hmove.mem_iff.mp hq) with rfl | hq
      · rw [hself, hadded]
        exact nofun
      · rw [(hother q hq).1]
        exact he.live q hq
    · rcases List.mem_append.mp hq with hq | hq
      · have hq' := hother q (List.mem_append_left _ hq)
        rw [hq'.1, hq'.2]
        exact he.waits q hq
      · obtain rfl := List.mem_singleton.mp hq
        rw [hself, Function.update_self]
        exact hwaits
    · have hq' := hother q (List.mem_append_right _ hq)
      rw [hq'.1, hq'.2]
      exact he.decodes q hq
  subst hadded
  exact hcoherent

/-- Every state of a run is coherent. -/
theorem reachable_coherent {init e : Engine σ B} (emptyWaiting : init.scheduler.waiting = [])
    (emptyDecoding : init.scheduler.decoding = [])
    (run : Reachable (EngineOp.exec cfg memory runner) (EngineOp.Allowed cfg memory runner) init e) :
    e.Coherent memory := by
  refine run.invariant (I := Engine.Coherent memory) ?_ fun t op ht hok => ?_
  · unfold Engine.Coherent
    rw [emptyWaiting, emptyDecoding]
    exact ⟨List.nodup_nil, nofun, nofun, nofun⟩
  · cases op with
    | step =>
      have hstep := engineStep_coherent cfg hits fits reads t ht
      unfold EngineOp.Allowed raises at hok
      show Engine.Coherent memory (stateAfter (engineStep cfg memory runner) t)
      cases hrun : engineStep cfg memory runner t with
      | ok r u =>
        rw [hrun] at hstep
        rw [stateAfter_ok hrun]
        exact hstep
      | error error u => rw [hrun] at hok; cases hok
    | add seq tokenIds params positionDelta hasDigest fullPrefill reused =>
      exact addRequest_coherent cfg ht params positionDelta hasDigest fullPrefill hok.1 hok.2

/-- **Recompute replay rebuilds the accepted history.** In every run, the inputs executed on the
rows of a queued request are its history from the starting point up to `reached`. In every step of
the run, scheduling (which preempts) changes no history; of the requests of the batch, a replay
keeps its history, and one whose history grew has every position up to `num_tokens - 2` executed. -/
theorem replay_rebuilds_history {init e : Engine σ B} (emptyWaiting : init.scheduler.waiting = [])
    (emptyDecoding : init.scheduler.decoding = [])
    (run : Reachable (EngineOp.exec cfg memory runner) (EngineOp.Allowed cfg memory runner) init e) :
    (∀ q ∈ e.scheduler.waiting ++ e.scheduler.decoding, Rebuilt (e.request q) (e.executed q)) ∧
    ∀ r s, beginStep cfg memory runner e = .ok r s →
      (∀ q, SameHistory (e.request q) (s.request q)) ∧
      ∀ t, r.seqs ≠ [] → runBatch cfg memory runner r s = .ok () t → ∀ q ∈ r.seqs,
        Rebuilt (t.request q) (t.executed q) ∧
        ((s.request q).isRecomputeReplay = true → SameHistory (s.request q) (t.request q)) ∧
        ((t.request q).numTokens ≠ (s.request q).numTokens → t.executed q =
          (t.request q).inputsFrom (t.request q).startPoint ((t.request q).numTokens - 1)) := by
  have he := reachable_coherent cfg hits fits reads emptyWaiting emptyDecoding run
  refine ⟨fun q hq => ?_, fun r s hbegin => ?_⟩
  · rcases List.mem_append.mp hq with hw | hd
    · exact (he.waits q hw).rebuilt
    · exact (he.decodes q hd).rebuilt
  have hstep := beginStep_outcome reads hits cfg he.distinct e rfl
  rw [hbegin] at hstep
  obtain ⟨hout, hran⟩ := hstep
  refine ⟨hout.sameHistory, fun t hsome hrun q hq => ?_⟩
  have hbegun := hout.begun fits he hsome
  have hbatch := runBatch_rebuilds cfg hits reads hbegun s ⟨⟨rfl, rfl, rfl⟩, hran⟩
  rw [hrun] at hbatch
  obtain ⟨hrebuilt, hadvanced⟩ := hbatch.2.1 q hq
  refine ⟨hrebuilt, hadvanced.replay, fun hgrew => ?_⟩
  rw [← hadvanced.sampled hgrew]
  exact hrebuilt.inputs

end Runs

/-! ### A run with a preemption -/

/-- The slots a request holds. -/
def slotsHeld (a : Sequence Unit) : Int :=
  if a.numPrefilledTokens = 0 ∨ a.status = .finished then 0 else a.numTokens

/-- What two requests leave of a pool. -/
def poolFree (capacity : Int) (w : World Unit Unit) : Int :=
  capacity - slotsHeld (w.seqs 1) - slotsHeld (w.seqs 2)

/-- A pool of slots that two requests decode from. -/
def pooledOracle (capacity : Int) : MemoryOracle Unit Unit Unit Unit Unit :=
  { flatOracle capacity Unit with
    remainingPrefillTokens seq := do
      let request := (← get).seqs seq
      return request.numPromptTokens - max request.numPrefilledTokens request.prefixCacheHitLen
    decodeStepFreeSlots := do return poolFree capacity (← get)
    decodeStepFreeSlotsFor _ := do return poolFree capacity (← get)
    prefixCacheHitRefresher seq := modify fun w => w.modifySeq seq Sequence.clearPrefixCacheHit }

/-- A runner that always samples the token 9. -/
def constantRunner : ModelRunner Unit Unit Unit where
  freeSlotsBatch _ := pure ()
  run _ _ := pure fun _ => { tokenId := 9 }
  finishSlotsBatch _ := pure ()

theorem pure_readsRequests {α : Type} (a : α) :
    ReadsRequests (pure a : EStateM ε (World σ B) α) := by
  intro w w' b h
  cases h
  rfl

theorem get_readsRequests {α : Type} (g : World σ B → α) :
    ReadsRequests (do return g (← get) : EStateM ε (World σ B) α) := by
  intro w w' b h
  cases h
  rfl

theorem pooledOracle_writesHitsOnly (capacity : Int) : WritesHitsOnly (pooledOracle capacity) where
  numFreeSlots := pure_readsRequests _
  prefillBatchedTokensMargin := pure_readsRequests _
  remainingPrefillTokens _ := get_readsRequests _
  prefillExecutionMode _ := pure_readsRequests _
  prefillBatchCompatibilityKey _ := pure_readsRequests _
  resetPrefillExecutionState _ := pure_readsRequests _
  completePrefillExecution _ := pure_readsRequests _
  reservedPrefillSlots _ _ := pure_readsRequests _
  shouldScheduleFullPrefill _ := pure_readsRequests _
  prefillStepFreeSlots := pure_readsRequests _
  prefillStepFreeSlotsFor _ := pure_readsRequests _
  minFinalPrefillChunkSize _ := pure_readsRequests _
  prefillStepReservationCost _ _ := pure_readsRequests _
  decodeStepFreeSlots := get_readsRequests _
  decodeStepFreeSlotsFor _ := get_readsRequests _
  decodeStepReservationCost _ := pure_readsRequests _
  promptAdmissionFreeSlots := pure_readsRequests _
  promptAdmissionBudgets _ _ := pure_readsRequests _
  promptAdmissionCosts _ := get_readsRequests _
  promptLogicalReservationCost _ := get_readsRequests _
  promptAdmissionFailureAction := pure_readsRequests _
  onPromptAdmitted _ _ := pure_readsRequests _
  freeSlotStats := pure_readsRequests _
  enterCapacitySnapshot := pure_readsRequests _
  exitCapacitySnapshot := pure_readsRequests _
  prefixCacheHitRefresher h := by
    cases h
    exact ⟨0, 0, none, rfl⟩
  clearPrefixCacheHit h := by
    cases h
    rfl

theorem pooledOracle_remainsInPrompt (capacity : Int) :
    RemainsInPrompt (pooledOracle capacity) := by
  rintro request tokens ⟨seq, w, w', h, rfl⟩ -
  cases h
  omega

theorem constantRunner_reads : RunnerReads constantRunner where
  freeSlotsBatch _ := pure_readsRequests _
  run _ _ := pure_readsRequests _
  finishSlotsBatch _ := pure_readsRequests _

/-- An engine without requests. -/
def idleEngine : Engine Unit Unit where
  scheduler := { world := ⟨(), fun _ => Sequence.ofPrompt []⟩, waiting := [], decoding := [] }

/-- Two requests of two prompt tokens and four completion tokens, then `steps` steps. -/
def twoRequests (steps : Nat) : List EngineOp :=
  [.add 1 [7, 8] { maxTokens := 4 } 0 false false 0, .add 2 [7, 8] { maxTokens := 4 } 0 false false 0] ++
    List.replicate steps .step

instance (cfg : SchedulerConfig) [DecidableEq κ] [DecidableEq ν] (memory : MemoryOracle ε σ B κ ν)
    (runner : ModelRunner ε σ B) (e : Engine σ B) (op : EngineOp) :
    Decidable (EngineOp.Allowed cfg memory runner e op) := by
  cases op <;> (unfold EngineOp.Allowed; infer_instance)

/-- A run on a pool of 8 slots. -/
def pooledRun (steps : Nat) : Engine Unit Unit :=
  runAll (EngineOp.exec smallConfig (pooledOracle 8) constantRunner) idleEngine (twoRequests steps)

theorem pooledRun_allowed : Along (EngineOp.exec smallConfig (pooledOracle 8) constantRunner)
    (EngineOp.Allowed smallConfig (pooledOracle 8) constantRunner) idleEngine (twoRequests 7) := by
  decide +kernel

/-- The third step preempts request 1 with two completion tokens, the sixth and the seventh rebuild
its rows, and the eighth samples. -/
theorem replay_rebuilds_history_pool :
    1 ∈ (pooledRun 7).scheduler.decoding ∧ (pooledRun 7).executed 1 = [(7, 0), (8, 1), (9, 2)] ∧
      Rebuilt ((pooledRun 7).request 1) ((pooledRun 7).executed 1) := by
  have hqueued : 1 ∈ (pooledRun 7).scheduler.decoding := by decide +kernel
  have hinputs : (pooledRun 7).executed 1 = [(7, 0), (8, 1), (9, 2)] := by decide +kernel
  have hrun : Reachable (EngineOp.exec smallConfig (pooledOracle 8) constantRunner)
      (EngineOp.Allowed smallConfig (pooledOracle 8) constantRunner) idleEngine (pooledRun 7) :=
    Reachable.runAll .init pooledRun_allowed
  refine ⟨hqueued, hinputs, ?_⟩
  exact (replay_rebuilds_history smallConfig (pooledOracle_writesHitsOnly 8)
    (pooledOracle_remainsInPrompt 8) constantRunner_reads rfl rfl hrun).1 1
    (List.mem_append_right _ hqueued)

end SparseVllm
