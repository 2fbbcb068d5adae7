import SparseVllm.Dispatcher.Thread

/-!
# An admitted request has its sequence id to itself

The table of active requests has the sequence id as its key, and a chain gives a request the sequence id
of the request before it. `Keyed` says why no entry of the table is overwritten: the engine has an idle
chain under the sequence id of an active request at most while the results of a step are published
(`Phase.unpublished`).

* `Keyed.admitRequest`: the sequence id of an admission is in no entry.
* `fits_threadStep`: the thread keeps this, until it stops.
-/

namespace SparseVllm.Dispatcher

open SparseVllm.Lib

/-- The chains of active requests are active, but for those of `unpublished` sequences. -/
structure Keyed (unpublished : List SeqId) (engine : EngineState) (active : Dict SeqId RequestId) :
    Prop where
  known : ∀ {seqId requestId}, active.get? seqId = some requestId → seqId < engine.counter
  recorded : ∀ {chainId record}, engine.records chainId = some record → record.seqId < engine.counter
  apart : ∀ {chainId chainId' record record'}, engine.records chainId = some record →
    engine.records chainId' = some record' → record.seqId = record'.seqId → chainId = chainId'
  busy : ∀ {seqId requestId chainId record}, active.get? seqId = some requestId →
    engine.records chainId = some record → record.seqId = seqId →
      record.active = true ∨ seqId ∈ unpublished

/-- A sequence id for a request that is not active yet. -/
structure Reserved (seqId : SeqId) (engine : EngineState) (active : Dict SeqId RequestId) : Prop where
  known : seqId < engine.counter
  fresh : active.get? seqId = none
  busy : ∀ {chainId record}, engine.records chainId = some record → record.seqId = seqId →
    record.active = true

section Keyed

variable {unpublished unpublished' : List SeqId} {engine engine' : EngineState}
  {active active' : Dict SeqId RequestId} {seqId : SeqId} {requestId : RequestId}

theorem Keyed.mono (h : Keyed unpublished engine active) (hengine : engine.Shrinks engine')
    (hactive : ∀ {seqId requestId}, active'.get? seqId = some requestId →
      active.get? seqId = some requestId)
    (hdone : ∀ seqId ∈ unpublished, seqId ∉ unpublished' → active'.get? seqId = none) :
    Keyed unpublished' engine' active' where
  known hq := Nat.lt_of_lt_of_le (h.known (hactive hq)) hengine.counter
  recorded hc := Nat.lt_of_lt_of_le (h.recorded (hengine.records hc)) hengine.counter
  apart hc hc' := h.apart (hengine.records hc) (hengine.records hc')
  busy {q r c record} hq hc heq := by
    rcases h.busy (hactive hq) (hengine.records hc) heq with hbusy | hin
    · exact Or.inl hbusy
    · by_contra hnot
      rw [not_or] at hnot
      rw [hdone q hin hnot.2] at hq
      cases hq

/-- The chains shrink, and requests may leave the table. -/
theorem Keyed.shrinks (h : Keyed unpublished engine active) (hengine : engine.Shrinks engine')
    (hactive : ∀ {seqId requestId}, active'.get? seqId = some requestId →
      active.get? seqId = some requestId) : Keyed unpublished engine' active' :=
  h.mono hengine hactive fun _ hin hnot => absurd hin hnot

theorem Reserved.shrinks (h : Reserved seqId engine active) (hengine : engine.Shrinks engine') :
    Reserved seqId engine' active :=
  ⟨Nat.lt_of_lt_of_le h.known hengine.counter, h.fresh, fun hc => h.busy (hengine.records hc)⟩

/-- The request of a reserved sequence id becomes active. -/
theorem Keyed.set (h : Keyed [] engine active) (hseq : Reserved seqId engine active) :
    Keyed [] engine (active.set seqId requestId) := by
  have hentry : ∀ {q r}, (active.set seqId requestId).get? q = some r →
      q = seqId ∨ active.get? q = some r := by
    intro q r hq
    rw [Dict.get?_set] at hq
    split at hq
    · exact Or.inl ‹_›
    · exact Or.inr hq
  refine ⟨fun hq => ?_, h.recorded, h.apart, fun hq hc heq => ?_⟩
  · rcases hentry hq with rfl | hq
    · exact hseq.known
    · exact h.known hq
  · rcases hentry hq with rfl | hq
    · exact Or.inl (hseq.busy hc heq)
    · exact h.busy hq hc heq

/-- A step finishes sequences, and their chains become idle. -/
theorem Keyed.step (h : Keyed [] engine active) (reply : Reply) :
    Keyed ((engine.lose reply).finished reply) (engine.step reply) active := by
  have hlost := EngineState.shrinks_lose reply engine
  have hrecord : ∀ {chainId record}, (engine.step reply).records chainId = some record →
      ∃ old, engine.records chainId = some old ∧ record.seqId = old.seqId ∧
        (old.active = true → record.active = true ∨
          record.seqId ∈ (engine.lose reply).finished reply) := by
    intro chainId record hc
    obtain ⟨old, hold, heq⟩ := Option.map_eq_some_iff.mp hc
    refine ⟨old, hlost.records hold, ?_⟩
    split at heq
    · rename_i hin
      subst heq
      exact ⟨rfl, fun _ => Or.inr hin⟩
    · subst heq
      exact ⟨rfl, Or.inl⟩
  refine ⟨h.known, fun hc => ?_, fun hc hc' heq => ?_, fun hq hc heq => ?_⟩
  · obtain ⟨old, hold, hsame, -⟩ := hrecord hc
    rw [hsame]
    exact h.recorded hold
  · obtain ⟨old, hold, hsame, -⟩ := hrecord hc
    obtain ⟨old', hold', hsame', -⟩ := hrecord hc'
    exact h.apart hold hold' (hsame.symm.trans (heq.trans hsame'))
  · obtain ⟨old, hold, hsame, hbusy⟩ := hrecord hc
    rcases h.busy hq hold (hsame.symm.trans heq) with hactive | hin
    · exact heq ▸ hbusy hactive
    · cases hin

/-- A request enters under a sequence id that no other chain has. -/
theorem Keyed.enter (h : Keyed [] engine active) (requestId : RequestId) {chain : Option Nat}
    (hknown : seqId < engine.counter) (hfresh : active.get? seqId = none)
    (halone : ∀ {other record}, engine.records other = some record → record.seqId = seqId →
      chain = some other) :
    Keyed [] (engine.enter requestId seqId chain) active ∧
      Reserved seqId (engine.enter requestId seqId chain) active := by
  have hrecord : ∀ {other record},
      (engine.enter requestId seqId chain).records other = some record →
        chain = some other ∧ record = { seqId := seqId, active := true } ∨
          chain ≠ some other ∧ engine.records other = some record := by
    intro other record hc
    unfold EngineState.enter at hc
    dsimp only at hc
    split at hc
    · exact Or.inl ⟨‹_›, (Option.some.inj hc).symm⟩
    · exact Or.inr ⟨‹_›, hc⟩
  refine ⟨⟨h.known, fun hc => ?_, fun hc hc' heq => ?_, fun hq hc heq => ?_⟩, hknown, hfresh,
    fun hc heq => ?_⟩
  · rcases hrecord hc with ⟨-, rfl⟩ | ⟨-, hold⟩
    · exact hknown
    · exact h.recorded hold
  · rcases hrecord hc with ⟨hthis, rfl⟩ | ⟨hother, hold⟩ <;>
      rcases hrecord hc' with ⟨hthis', rfl⟩ | ⟨hother', hold'⟩
    · exact Option.some.inj (hthis.symm.trans hthis')
    · exact absurd (halone hold' heq.symm) hother'
    · exact absurd (halone hold heq) hother
    · exact h.apart hold hold' heq
  · rcases hrecord hc with ⟨-, rfl⟩ | ⟨-, hold⟩
    · exact Or.inl rfl
    · exact h.busy hq hold heq
  · rcases hrecord hc with ⟨-, rfl⟩ | ⟨hother, hold⟩
    · rfl
    · exact absurd (halone hold heq) hother

/-- The sequence id of a placement is new, or that of an idle chain, which keeps it or loses it. -/
theorem Keyed.placement (h : Keyed [] engine active) {chainId chain : Option Nat} {reply : Reply}
    (hplace : engine.placement chainId reply = some (seqId, chain)) :
    seqId < engine.counter + 1 ∧ active.get? seqId = none ∧
      ∀ {other record}, (engine.kept chainId reply).records other = some record →
        record.seqId = seqId → chain = some other := by
  have hkept := EngineState.shrinks_kept chainId reply engine
  have hnew : seqId = engine.counter →
      seqId < engine.counter + 1 ∧ active.get? seqId = none ∧
        ∀ {other record}, (engine.kept chainId reply).records other = some record →
          record.seqId = seqId → chain = some other := by
    rintro rfl
    refine ⟨Nat.lt_succ_self _, ?_, fun hc heq => ?_⟩
    · by_contra hne
      obtain ⟨r, hr⟩ := Option.ne_none_iff_exists'.mp hne
      exact Nat.lt_irrefl _ (h.known hr)
    · have hold := h.recorded (hkept.records hc)
      rw [heq] at hold
      exact absurd hold (Nat.lt_irrefl _)
  unfold EngineState.placement at hplace
  split at hplace
  · cases hplace
    exact hnew rfl
  · cases hplace
  · cases hplace
    exact hnew rfl
  · rename_i old hmode
    split at hplace
    · cases hplace
    rename_i record hold
    split at hplace
    · cases hplace
    rename_i hidle
    -- the chain is idle, so that no active request has its sequence id
    have hfree : active.get? record.seqId = none := by
      by_contra hne
      obtain ⟨r, hr⟩ := Option.ne_none_iff_exists'.mp hne
      rcases h.busy hr hold rfl with hbusy | hin
      · exact hidle hbusy
      · cases hin
    have hsame : ∀ {other record'}, (engine.kept (some old) reply).records other = some record' →
        record'.seqId = record.seqId → other = old := fun hc heq =>
      h.apart (hkept.records hc) hold heq
    split at hplace
    · cases hplace
      exact ⟨Nat.lt_succ_of_lt (h.recorded hold), hfree, fun hc heq => (hsame hc heq) ▸ rfl⟩
    · rename_i hmismatch
      cases hplace
      refine ⟨Nat.lt_succ_of_lt (h.recorded hold), hfree, fun hc heq => ?_⟩
      -- the old chain is replaced
      obtain rfl := hsame hc heq
      simp [EngineState.kept, EngineState.replaced, hmode, hmismatch, hold, hidle] at hc

/-- **The sequence id of an admission** is in no entry of the table. -/
theorem Keyed.admitRequest (h : Keyed [] engine active) (requestId : RequestId) (chainId : Option Nat)
    (reply : Reply) :
    Keyed [] (engine.admitRequest requestId chainId reply).1 active ∧
      ∀ seqId chain, (engine.admitRequest requestId chainId reply).2 = some (seqId, chain) →
        Reserved seqId (engine.admitRequest requestId chainId reply).1 active := by
  have hkept := h.shrinks (EngineState.shrinks_kept chainId reply engine) fun hq => hq
  rw [EngineState.admitRequest_eq]
  cases hplace : engine.placement chainId reply with
  | none =>
    refine ⟨hkept, fun _ _ heq => ?_⟩
    cases heq
  | some place =>
    obtain ⟨seqId, chain⟩ := place
    obtain ⟨hknown, hfree, halone⟩ := h.placement hplace
    have henter := hkept.enter requestId hknown hfree halone
    dsimp only
    split
    · refine ⟨henter.1, fun _ _ heq => ?_⟩
      cases heq
      exact henter.2
    · split
      · refine ⟨henter.1, fun _ _ heq => ?_⟩
        cases heq
      · refine ⟨hkept, fun _ _ heq => ?_⟩
        cases heq

end Keyed

namespace DispatcherState

variable {s t : DispatcherState}

/-- The table and the chains fit. -/
structure Fits (s : DispatcherState) : Prop where
  keyed : Keyed s.phase.unpublished s.engine s.active
  reserved : ∀ seqId, s.phase.entering = some seqId → Reserved seqId s.engine s.active

theorem Fits.quiet (h : s.Fits) (hquiet : Quiet s t) (hentering : t.phase.entering = none)
    (hdone : ∀ seqId ∈ s.phase.unpublished, seqId ∉ t.phase.unpublished →
      t.active.get? seqId = none) : t.Fits := by
  refine ⟨h.keyed.mono hquiet.engine hquiet.active hdone, fun seqId heq => ?_⟩
  rw [hentering] at heq
  cases heq

/-- No result waits to be published. -/
theorem Fits.quiet' (h : s.Fits) (hquiet : Quiet s t) (hentering : t.phase.entering = none)
    (hnone : s.phase.unpublished = []) : t.Fits := by
  refine h.quiet hquiet hentering fun seqId hin => ?_
  rw [hnone] at hin
  cases hin

/-- A step of `_admit` before the request is active. -/
theorem Fits.stays (h : s.Fits) (hnone : s.phase.unpublished = [])
    (hengine : s.engine.Shrinks t.engine) (hactive : t.active = s.active)
    (hentering : t.phase.entering = none) : t.Fits := by
  refine ⟨h.keyed.mono hengine (fun hq => hactive ▸ hq) fun seqId hin => ?_, fun seqId heq => ?_⟩
  · rw [hnone] at hin
    cases hin
  · rw [hentering] at heq
    cases heq

/-- The table and the chains as they were. -/
theorem Fits.of_eq (h : s.Fits) (hphase : t.phase = s.phase) (hengine : s.engine.Shrinks t.engine)
    (hactive : t.active = s.active) : t.Fits := by
  refine ⟨?_, ?_⟩
  · rw [hphase, hactive]
    exact h.keyed.shrinks hengine fun hq => hq
  · rw [hphase, hactive]
    exact fun seqId heq => (h.reserved seqId heq).shrinks hengine

theorem fits_engineStep (h : s.Fits) (hnone : s.phase.unpublished = []) (reply : Reply)
    (hrun : (s.engineStep reply).phase.running = true) : (s.engineStep reply).Fits := by
  have hkeyed : Keyed [] s.engine s.active := hnone ▸ h.keyed
  unfold engineStep at hrun ⊢
  dsimp only at hrun ⊢
  split at hrun
  · rw [if_pos ‹_›]
    refine ⟨hkeyed.step reply, fun seqId heq => ?_⟩
    cases heq
  · cases hrun

theorem fits_callEngine {requestId : RequestId} (reply : Reply)
    (hkeyed : Keyed [] s.engine s.active) : (s.admitRequest requestId reply .callEngine).Fits := by
  obtain ⟨hkept, hreserved⟩ := hkeyed.admitRequest requestId (s.wantedChain requestId) reply
  unfold admitRequest
  dsimp only
  split
  · rename_i engine heq
    rw [heq] at hkept
    refine ⟨hkept, fun seqId hentering => ?_⟩
    cases hentering
  · rename_i engine seqId chainId heq
    rw [heq] at hkept hreserved
    refine ⟨hkept, fun other hentering => ?_⟩
    obtain rfl : seqId = other := Option.some.inj hentering
    exact hreserved seqId chainId rfl

theorem fits_readCancelledAgain {requestId : RequestId} {seqId : SeqId} (reply : Reply) (h : s.Fits)
    (hphase : s.phase = .admitRequest requestId (.readCancelledAgain seqId)) :
    (s.admitRequest requestId reply (.readCancelledAgain seqId)).Fits := by
  have hnone : s.phase.unpublished = [] := by
    rw [hphase]
    rfl
  have hreserved : Reserved seqId s.engine s.active := h.reserved seqId (by rw [hphase]; rfl)
  have habort := quiet_abortEngine requestId seqId reply s
  unfold admitRequest
  dsimp only
  split
  · split
    · exact h.quiet' (habort.trans (quiet_admitCancelled requestId _)) rfl hnone
    · exact h.stays hnone habort.engine rfl rfl
  · split
    · exact h.stays hnone (EngineState.Shrinks.refl _) rfl rfl
    · refine ⟨(hnone ▸ h.keyed : Keyed [] s.engine s.active).set hreserved, fun other heq => ?_⟩
      cases heq

theorem fits_admitRequest {requestId : RequestId} {stage : AdmitStage} (reply : Reply)
    (h : s.Fits) (hphase : s.phase = .admitRequest requestId stage) :
    (s.admitRequest requestId reply stage).Fits := by
  have hnone : s.phase.unpublished = [] := by
    rw [hphase]
    rfl
  cases stage with
  | readCancelled =>
    unfold admitRequest
    dsimp only
    split
    · exact h.quiet' (quiet_admitCancelled requestId s) rfl hnone
    · exact h.stays hnone (EngineState.Shrinks.refl _) rfl rfl
  | readClosing =>
    unfold admitRequest
    dsimp only
    split
    · exact h.quiet' ((quiet_onHandle requestId RequestHandle.kept_refuse s).trans
        (quiet_goto ⟨rfl, rfl, rfl⟩ _)) rfl hnone
    · exact h.stays hnone (EngineState.Shrinks.refl _) rfl rfl
  | callEngine => exact fits_callEngine reply (hnone ▸ h.keyed)
  | writeSeqId seqId =>
    have hreserved : Reserved seqId s.engine s.active := h.reserved seqId (by rw [hphase]; rfl)
    refine ⟨(hnone ▸ h.keyed : Keyed [] s.engine s.active), fun other heq => ?_⟩
    obtain rfl : seqId = other := Option.some.inj heq
    exact hreserved
  | readCancelledAgain seqId => exact fits_readCancelledAgain reply h hphase
  | failed =>
    have hquiet := quiet_admitFailed requestId reply s
    exact h.quiet' hquiet (hquiet.entering (by rw [hphase]; rfl)) hnone

theorem fits_threadStep (reply : Reply) (h : s.phase.running = true → s.Fits)
    (hrun : (s.threadStep reply).phase.running = true) : (s.threadStep reply).Fits := by
  have hquiet : ∀ {t}, s.phase.running = true → s.phase.entering = none → s.phase.unpublished = [] →
      Quiet s t → t.Fits := fun hr he hu hq => (h hr).quiet' hq (hq.entering he) hu
  have hstopped : s.phase.running ≠ false := by
    intro hs
    rw [threadStep_stopped reply hs] at hrun
    cases hrun
  unfold threadStep at hrun ⊢
  split at hrun <;> rename_i hphase <;> simp only [hphase] at h hquiet hstopped ⊢
  · exact hquiet rfl rfl rfl (quiet_drainControl _ reply s)
  · exact hquiet rfl rfl rfl (quiet_prune reply s)
  · exact hquiet rfl rfl rfl (quiet_drainAbort _ _ reply s)
  · exact hquiet rfl rfl rfl (quiet_waitPending s)
  · exact hquiet rfl rfl rfl (quiet_drainPending s)
  · exact fits_admitRequest reply (h rfl) hphase
  · refine fits_engineStep (h rfl) ?_ reply hrun
    rw [hphase]
    rfl
  · rename_i finished
    refine (h rfl).quiet (quiet_goto ⟨rfl, rfl, rfl⟩ s) rfl fun seqId hin hnot => ?_
    rw [hphase] at hin
    exact absurd hin hnot
  · rename_i seqId outputs finished
    have hq := quiet_publishTokenDelta seqId outputs finished reply s
    rcases publishTokenDelta_phase seqId outputs finished reply s with hfail | hnext
    · rw [hfail] at hrun
      cases hrun
    · refine (h rfl).quiet hq (by rw [hnext]; rfl) fun other hin hnot => ?_
      rw [hphase] at hin
      rw [hnext] at hnot
      exact absurd hin hnot
  · refine hquiet rfl rfl rfl (quiet_nextIteration s)
  · rename_i seqId finished
    have hq := quiet_publishFinish seqId finished reply s
    rcases publishFinish_phase seqId finished reply s with hfail | ⟨hnext, hgone⟩
    · rw [hfail] at hrun
      cases hrun
    · refine (h rfl).quiet hq (by rw [hnext]; rfl) fun other hin hnot => ?_
      rw [hphase] at hin
      rw [hnext] at hnot
      rcases List.mem_cons.mp hin with rfl | hin
      · exact hgone
      · exact absurd hin hnot
  all_goals exact absurd rfl hstopped

theorem fits_initial (chainMode : Bool) : (initial chainMode).Fits := by
  refine ⟨⟨?_, ?_, ?_, ?_⟩, ?_⟩
  · intro seqId requestId hq
    cases hq
  · intro chainId record hc
    cases hc
  · intro chainId chainId' record record' hc
    cases hc
  · intro seqId requestId chainId record hq
    cases hq
  · intro seqId heq
    cases heq

end DispatcherState

end SparseVllm.Dispatcher
