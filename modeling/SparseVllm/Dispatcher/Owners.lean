import SparseVllm.Dispatcher.Ends

/-!
# Whose engine state is given up

A chain hands its sequence id from request to request, and an abort names a sequence id. `Owned` says why
it meets no later request: the handle of a request gets its sequence id once, and a request whose handle
has one is active under it, is in `_admit`, or is terminal.

* **`releases_own`**: over every interleaving.
-/

namespace SparseVllm.Dispatcher

open SparseVllm.Lib

variable {discarded : RequestId → Prop}

/-- The abort has the sequence id of its request, and only discards force one. -/
def AbortRequest.Due (discarded : RequestId → Prop) (s : DispatcherState) (abort : AbortRequest) :
    Prop :=
  (s.handles abort.requestId).seqId = some abort.seqId ∧
    (abort.force = true → discarded abort.requestId)

def ClientTask.Due (discarded : RequestId → Prop) (s : DispatcherState) : ClientTask → Prop
  | .discard requestId | .discardRead requestId => discarded requestId
  | .cancelPut abort | .discardPut abort => abort.Due discarded s
  | _ => True

/-- The engine has the state of the request in `_admit` under the sequence id of its handle. -/
def AdmitStage.Owns (s : DispatcherState) (r : RequestId) : AdmitStage → Prop
  | .writeSeqId seqId => s.engine.owner seqId = some r ∧ (s.handles r).seqId = none
  | .readCancelledAgain seqId => s.engine.owner seqId = some r ∧ (s.handles r).seqId = some seqId
  | .failed => ∀ seqId, (s.handles r).seqId = some seqId → s.engine.owner seqId = some r
  | _ => (s.handles r).seqId = none

namespace DispatcherState

variable {s t : DispatcherState}

structure Owned (discarded : RequestId → Prop) (s : DispatcherState) : Prop where
  active : ∀ {seqId r}, s.active.get? seqId = some r →
    s.engine.owner seqId = some r ∧ (s.handles r).seqId = some seqId
  queued : ∀ {r}, .request r ∈ s.pending → (s.handles r).seqId = none
  admitting : ∀ {r stage}, s.phase = .admitRequest r stage → stage.Owns s r
  aborts : ∀ abort ∈ s.aborts, abort.Due discarded s
  clients : ∀ task ∈ s.clients, task.Due discarded s
  released : ∀ p ∈ s.released, p.2 = some p.1 ∨ discarded p.1

/-- At most the state of one request is given up. -/
def Releases (discarded : RequestId → Prop) (s t : DispatcherState) : Prop :=
  t.released = s.released ∨ ∃ r seqId, t.released = s.released ++ [(r, s.engine.owner seqId)] ∧
    (s.engine.owner seqId = some r ∨ discarded r)

/-- What a step may change. -/
theorem Owned.next (h : Owned discarded s)
    (hseqId : ∀ {r q}, (s.handles r).seqId = some q → (t.handles r).seqId = some q)
    (howner : ∀ {q r}, s.active.get? q = some r → t.engine.owner q = s.engine.owner q)
    (hactive : ∀ {q r}, t.active.get? q = some r → s.active.get? q = some r ∨
      t.engine.owner q = some r ∧ (t.handles r).seqId = some q)
    (hqueued : ∀ {r}, .request r ∈ t.pending → (t.handles r).seqId = none)
    (hadmitting : ∀ {r stage}, t.phase = .admitRequest r stage → stage.Owns t r)
    (haborts : ∀ abort ∈ t.aborts, abort ∈ s.aborts ∨ abort.Due discarded t)
    (hclients : ∀ task ∈ t.clients, task ∈ s.clients ∨ task.Due discarded t)
    (hr : Releases discarded s t) : Owned discarded t := by
  have hdue : ∀ {abort : AbortRequest}, abort.Due discarded s → abort.Due discarded t := fun hd =>
    ⟨hseqId hd.1, hd.2⟩
  refine ⟨fun ha => ?_, hqueued, hadmitting, fun abort hin => ?_, fun task hin => ?_, fun p hp => ?_⟩
  · rcases hactive ha with hold | hnew
    · rw [howner hold]
      exact ⟨(h.active hold).1, hseqId (h.active hold).2⟩
    · exact hnew
  · exact (haborts abort hin).elim (fun hold => hdue (h.aborts abort hold)) id
  · rcases hclients task hin with hold | hnew
    · have hd := h.clients task hold
      cases task with
      | cancelPut | discardPut => exact hdue hd
      | _ => exact hd
    · exact hnew
  · rcases hr with hsame | ⟨r, seqId, hnew, howns⟩
    · exact h.released p (hsame ▸ hp)
    · rw [hnew] at hp
      rcases List.mem_append.mp hp with hp | hp
      · exact h.released p hp
      · rw [List.mem_singleton.mp hp]
        exact howns

theorem owns_congr {r : RequestId} {stage : AdmitStage} (h : stage.Owns s r)
    (hseqId : (t.handles r).seqId = (s.handles r).seqId) (howner : t.engine.owner = s.engine.owner) :
    stage.Owns t r := by
  cases stage <;> simpa only [AdmitStage.Owns, howner, hseqId] using h

theorem Owned.quiet (h : Owned discarded s) (hq : Quiet s t) (hr : Releases discarded s t) :
    Owned discarded t := by
  refine h.next (hq.seqIds _).trans (fun _ => by rw [hq.engine.owner]) (fun ha => Or.inl (hq.active ha))
    (fun hin => (hq.seqIds _).trans (h.queued (hq.pending hin))) (fun {r stage} heq => ?_)
    (fun _ hin => Or.inl (hq.aborts hin)) (fun _ hin => Or.inl (hq.clients ▸ hin)) hr
  rcases hq.admits r stage heq with hsame | ⟨rfl, hin⟩
  · exact owns_congr (h.admitting (hsame.symm.trans heq)) (hq.seqIds r) hq.engine.owner
  · exact (hq.seqIds r).trans (h.queued hin)

@[simp] theorem markRequestTerminal_released (requestId : RequestId) (seqId : SeqId)
    (s : DispatcherState) : (s.markRequestTerminal requestId seqId).released = s.released := by
  unfold markRequestTerminal
  dsimp only
  split <;> rfl

theorem released_abortsDrained (admitted changed : Bool) (reply : Reply) (s : DispatcherState) :
    (s.abortsDrained admitted changed reply).released = s.released := by
  unfold abortsDrained
  repeat' split
  all_goals rfl

theorem releases_publishTokenDelta (h : Owned discarded s) (seqId : SeqId)
    (outputs finished : List SeqId) (reply : Reply) :
    Releases discarded s (s.publishTokenDelta seqId outputs finished reply) := by
  unfold publishTokenDelta
  dsimp only
  split
  · exact Or.inl rfl
  · rename_i r hr
    split
    · exact Or.inl rfl
    · split
      · refine Or.inr ⟨r, seqId, ?_, Or.inl (h.active hr).1⟩
        split
        · rfl
        · split
          · rfl
          · exact markRequestTerminal_released r seqId _
      · exact Or.inl rfl

theorem releases_publishFinish (h : Owned discarded s) (seqId : SeqId) (finished : List SeqId)
    (reply : Reply) : Releases discarded s (s.publishFinish seqId finished reply) := by
  unfold publishFinish
  dsimp only
  split
  · exact Or.inl rfl
  · rename_i r hr
    have hnew : ∀ {t : DispatcherState}, t.released = s.released ++ [(r, s.engine.owner seqId)] →
        Releases discarded s t := fun ht => Or.inr ⟨r, seqId, ht, Or.inl (h.active hr).1⟩
    split
    · exact Or.inl rfl
    · split
      · exact Or.inl rfl
      · split <;> split
        · exact hnew rfl
        · exact Or.inl rfl
        · exact hnew (markRequestTerminal_released r seqId _)
        · exact Or.inl (markRequestTerminal_released r seqId _)

/-- An abort that finds no active request is forced, since a request that is not terminal is live. -/
theorem releases_drainAbort (h : Owned discarded s) (htracked : Tracked none s)
    (hmarked : ∀ abort ∈ s.aborts, s.Marked abort.requestId) (hphase : s.phase.admitting = [])
    (admitted changed : Bool) (reply : Reply) :
    Releases discarded s (s.drainAbort admitted changed reply) := by
  unfold drainAbort
  split
  · exact Or.inl (released_abortsDrained admitted changed reply s)
  rename_i abort aborts haborts
  have hin : abort ∈ s.aborts := by rw [haborts]; exact List.mem_cons_self
  obtain ⟨hseqId, hforce⟩ := h.aborts abort hin
  have hnew : ∀ {t : DispatcherState}, s.engine.owner abort.seqId = some abort.requestId ∨
      discarded abort.requestId →
        t.released = s.released ++ [(abort.requestId, s.engine.owner abort.seqId)] →
          Releases discarded s t := fun howner ht => Or.inr ⟨_, _, ht, howner⟩
  dsimp only
  split
  · exact Or.inl rfl
  rename_i hstale
  split
  · exact Or.inl rfl
  split
  · rename_i requestId hactive
    split
    · exact Or.inl rfl
    rename_i hsame
    obtain rfl : requestId = abort.requestId := not_not.mp hsame
    split
    · exact hnew (Or.inl (h.active hactive).1) rfl
    · exact hnew (Or.inl (h.active hactive).1) (markRequestTerminal_released _ _ _)
  · rename_i hinactive
    split
    · rename_i hforced
      split
      · exact Or.inl rfl
      · split
        · split
          · exact hnew (Or.inr (hforce hforced)) rfl
          · exact Or.inl rfl
        · exact Or.inl rfl
    · rename_i hforced
      have hterminal : (s.handles abort.requestId).terminal = true := by
        refine htracked.terminal _ (hmarked abort hin).known (fun hlive => ?_) (Option.some_ne_none _).symm
        rcases List.mem_append.mp hlive with hw | ha
        · rw [waiting, hphase, List.append_nil] at hw
          obtain ⟨item, hitem, hr⟩ := List.mem_filterMap.mp hw
          cases item with
          | request r =>
            rw [← Option.some.inj hr, h.queued hitem] at hseqId
            cases hseqId
          | _ => cases hr
        · obtain ⟨q, hq⟩ := Dict.mem_values.mp ha
          rw [Option.some.inj (hseqId.symm.trans (h.active hq).2)] at hinactive
          rw [hinactive] at hq
          cases hq
      exact absurd (by simp [stale, hterminal, hforced]) hstale

theorem releases_admitFailed {r : RequestId} (h : Owned discarded s)
    (hphase : s.phase = .admitRequest r .failed) (reply : Reply) :
    Releases discarded s (s.admitFailed r reply) := by
  unfold admitFailed
  split
  · exact Or.inl rfl
  · rename_i seqId hseqId
    refine Or.inr ⟨r, seqId, ?_, Or.inl (h.admitting hphase seqId hseqId)⟩
    dsimp only
    split
    · rfl
    · exact markRequestTerminal_released r seqId _

/-- The engine admits the request under a sequence id that no active request has. -/
theorem owner_admitRequest (r : RequestId) (chainId : Option Nat) (reply : Reply)
    {engine : EngineState} {active : Dict SeqId RequestId} (hkeyed : Keyed [] engine active) :
    (∀ {q other}, active.get? q = some other →
      (engine.admitRequest r chainId reply).1.owner q = engine.owner q) ∧
      ∀ {q chain}, (engine.admitRequest r chainId reply).2 = some (q, chain) →
        (engine.admitRequest r chainId reply).1.owner q = some r := by
  rw [EngineState.admitRequest_eq]
  cases hplace : engine.placement chainId reply with
  | none => exact ⟨fun _ => rfl, fun heq => by cases heq⟩
  | some place =>
    obtain ⟨seqId, chain⟩ := place
    obtain ⟨-, hfree, -⟩ := hkeyed.placement hplace
    have hother : ∀ {q other}, active.get? q = some other →
        ((engine.kept chainId reply).enter r seqId chain).owner q = engine.owner q := by
      intro q other hq
      refine if_neg fun heq => ?_
      rw [heq, hfree] at hq
      cases hq
    dsimp only
    split
    · refine ⟨hother, fun heq => ?_⟩
      cases heq
      exact if_pos rfl
    · split
      · exact ⟨hother, fun heq => by cases heq⟩
      · exact ⟨fun _ => rfl, fun heq => by cases heq⟩

/-- A step within `_admit`. -/
theorem Owned.stage {r : RequestId} {stage : AdmitStage} (h : Owned discarded s)
    (hphase : t.phase = .admitRequest r stage) (hown : stage.Owns t r)
    (hseqId : ∀ q, (t.handles q).seqId = (s.handles q).seqId)
    (howner : ∀ {q r}, s.active.get? q = some r → t.engine.owner q = s.engine.owner q)
    (hactive : t.active = s.active) (hpending : t.pending = s.pending) (haborts : t.aborts = s.aborts)
    (hclients : t.clients = s.clients) (hr : Releases discarded s t) : Owned discarded t := by
  refine h.next (hseqId _).trans howner (fun ha => Or.inl (hactive ▸ ha))
    (fun hin => (hseqId _).trans (h.queued (hpending ▸ hin))) (fun heq => ?_)
    (fun _ hin => Or.inl (haborts ▸ hin)) (fun _ hin => Or.inl (hclients ▸ hin)) hr
  rw [hphase] at heq
  cases heq
  exact hown

theorem owned_admitRequest {r : RequestId} {stage : AdmitStage} (reply : Reply)
    (h : Owned discarded s) (hs : s.Accounted) (hphase : s.phase = .admitRequest r stage) :
    Owned discarded (s.admitRequest r reply stage) := by
  have hown := h.admitting hphase
  have hfits := hs.fits (by rw [hphase]; rfl)
  have hgoto : ∀ {next : AdmitStage}, next.Owns s r →
      Owned discarded (s.goto (.admitRequest r next)) := fun hnext =>
    h.stage rfl hnext (fun _ => rfl) (fun _ => rfl) rfl rfl rfl rfl (Or.inl rfl)
  cases stage with
  | readCancelled =>
    simp only [admitRequest]
    split
    · exact h.quiet (quiet_admitCancelled r s) (Or.inl rfl)
    · exact hgoto hown
  | readClosing =>
    simp only [admitRequest]
    split
    · exact h.quiet ((quiet_onHandle r RequestHandle.kept_refuse s).trans
        (quiet_goto ⟨rfl, rfl, rfl⟩ _)) (Or.inl rfl)
    · exact hgoto hown
  | callEngine =>
    have hkeyed : Keyed [] s.engine s.active := by
      have hkeyed := hfits.keyed
      rw [hphase] at hkeyed
      exact hkeyed
    obtain ⟨hothers, hnew⟩ := owner_admitRequest r (s.wantedChain r) reply hkeyed
    simp only [admitRequest]
    split
    · rename_i engine heq
      rw [heq] at hothers
      refine h.stage rfl (fun q hq => ?_) (fun _ => rfl) hothers rfl rfl rfl rfl (Or.inl rfl)
      cases hown.symm.trans hq
    · rename_i engine seqId chainId heq
      rw [heq] at hothers hnew
      have hseqId : ∀ q, ((s.onHandle r fun handle => { handle with chainId := chainId }).handles
          q).seqId = (s.handles q).seqId := by
        intro q
        rw [onHandle_handles]
        split <;> rfl
      exact h.stage rfl ⟨hnew rfl, (hseqId r).trans hown⟩ hseqId hothers rfl rfl rfl rfl (Or.inl rfl)
  | writeSeqId seqId =>
    obtain ⟨lost, htracked, -⟩ := hs.tracked
    have hone : ∀ {q}, .request q ∈ s.pending → q ≠ r := by
      rintro q hin rfl
      have hnodup := (List.nodup_append.mp htracked.nodup).1
      rw [waiting, hphase] at hnodup
      exact (List.nodup_append.mp hnodup).2.2 q (List.mem_filterMap.mpr ⟨_, hin, rfl⟩) q
        (List.mem_singleton_self q) rfl
    have hkept : ∀ {q}, q ≠ r →
        (s.admitRequest r reply (.writeSeqId seqId)).handles q = s.handles q := fun hq => by
      rw [admitRequest, goto_handles, onHandle_handles_of_ne hq]
    have hset : ((s.admitRequest r reply (.writeSeqId seqId)).handles r).seqId = some seqId := by
      rw [admitRequest, goto_handles, onHandle_handles_self]
    refine h.next (fun {q o} hq => ?_) (fun _ => rfl) Or.inl (fun hin => ?_) (fun heq => ?_)
      (fun _ => Or.inl) (fun _ => Or.inl) (Or.inl rfl)
    · by_cases hqr : q = r
      · rw [hqr, hown.2] at hq
        cases hq
      · rw [hkept hqr, hq]
    · rw [hkept (hone hin)]
      exact h.queued hin
    · cases heq
      exact ⟨hown.1, hset⟩
  | readCancelledAgain seqId =>
    simp only [admitRequest]
    have habort := quiet_abortEngine r seqId reply s
    have hreleased : ∀ {t : DispatcherState}, t.released = s.released ++ [(r, s.engine.owner seqId)] →
        Releases discarded s t := fun ht => Or.inr ⟨r, seqId, ht, Or.inl hown.1⟩
    have hfailed : ∀ q, (s.handles r).seqId = some q → s.engine.owner q = some r := by
      intro q hq
      rw [← Option.some.inj (hown.2.symm.trans hq)]
      exact hown.1
    split
    · split
      · exact h.quiet (habort.trans (quiet_admitCancelled r _)) (hreleased rfl)
      · refine h.stage rfl (fun q hq => ?_) (fun _ => rfl) (fun _ => by rw [← habort.engine.owner]; rfl)
          rfl rfl rfl rfl (hreleased rfl)
        exact (congrFun habort.engine.owner q).trans (hfailed q hq)
    · split
      · exact hgoto hfailed
      · have hq := quiet_onHandle r RequestHandle.kept_resolveAdmission s
        refine h.next (hq.seqIds _).trans (fun _ => rfl) (fun {q o} ha => ?_)
          (fun hin => (hq.seqIds _).trans (h.queued hin)) (fun heq => by cases heq) (fun _ => Or.inl)
          (fun _ => Or.inl) (Or.inl rfl)
        have ha : (s.active.set seqId r).get? q = some o := ha
        rw [Dict.get?_set] at ha
        split at ha
        · rename_i hsame
          cases ha
          exact Or.inr ⟨hsame ▸ hown.1, (hq.seqIds r).trans (hsame ▸ hown.2)⟩
        · exact Or.inl ha
  | failed => exact h.quiet (quiet_admitFailed r reply s) (releases_admitFailed h hphase reply)

/-- A step that leaves the thread out of `_admit`. -/
theorem Owned.past (h : Owned discarded s) (hframe : Frame s t)
    (hseqId : ∀ r, (t.handles r).seqId = (s.handles r).seqId)
    (howner : t.engine.owner = s.engine.owner)
    (hactive : ∀ {q r}, t.active.get? q = some r → s.active.get? q = some r)
    (hphase : t.phase.admitting = []) (hr : Releases discarded s t) : Owned discarded t :=
  h.next (hseqId _).trans (fun _ => by rw [howner]) (fun hget => Or.inl (hactive hget))
    (fun hin => (hseqId _).trans (h.queued (hframe.pending hin)))
    (fun {r stage} heq => absurd heq (admits_of_nil hphase r stage))
    (fun _ hin => Or.inl (hframe.aborts hin)) (fun _ hin => Or.inl (hframe.clients ▸ hin)) hr

theorem owned_threadStep (reply : Reply) (h : Owned discarded s) (hs : s.Accounted) :
    Owned discarded (s.threadStep reply) := by
  have hsame : ∀ {t : DispatcherState}, Quiet s t → t.released = s.released → Owned discarded t :=
    fun hq hr => h.quiet hq (Or.inl hr)
  cases hrun : s.phase.running with
  | true =>
    obtain ⟨lost, htracked, hblamed⟩ := hs.tracked
    obtain rfl : lost = none := by
      by_contra hne
      rw [(hblamed hne).1] at hrun
      cases hrun
    unfold threadStep
    split <;> rename_i hphase <;> rw [hphase] at hrun <;> try cases hrun
    · refine hsame (quiet_drainControl _ reply s) ?_
      unfold drainControl
      dsimp only
      repeat' split
      all_goals rfl
    · refine hsame (quiet_prune reply s) ?_
      unfold prune
      dsimp only
      split <;> rfl
    · exact h.quiet (quiet_drainAbort _ _ reply s) (releases_drainAbort h htracked hs.marks.aborts
        (by rw [hphase]; rfl) _ _ reply)
    · refine hsame (quiet_waitPending s) ?_
      unfold waitPending
      split <;> rfl
    · refine hsame (quiet_drainPending s) ?_
      unfold drainPending
      split <;> rfl
    · exact owned_admitRequest reply h hs hphase
    · have hframe := (loops_engineStep reply s).toFrame
      unfold engineStep at hframe ⊢
      dsimp only at hframe ⊢
      split at hframe
      · rw [if_pos ‹_›]
        exact h.past hframe (fun _ => rfl) rfl (fun ha => ha) rfl (Or.inl rfl)
      · rw [if_neg ‹_›]
        exact h.past hframe (fun _ => rfl) rfl (fun ha => ha) rfl (Or.inl rfl)
    · exact hsame (quiet_goto ⟨rfl, rfl, rfl⟩ s) rfl
    · exact h.quiet (quiet_publishTokenDelta _ _ _ reply s) (releases_publishTokenDelta h _ _ _ reply)
    · exact hsame (quiet_nextIteration s) rfl
    · exact h.quiet (quiet_publishFinish _ _ reply s) (releases_publishFinish h _ _ reply)
  | false =>
    have hframe := frame_threadStep reply s
    have hpast : ∀ {t : DispatcherState}, Frame s t → t.phase.admitting = [] → t.engine = s.engine →
        t.active = s.active → (∀ r, (t.handles r).seqId = (s.handles r).seqId) →
          t.released = s.released → Owned discarded t := fun hf hp he ha hq hr =>
      h.past hf hq (he ▸ rfl) (fun hget => ha ▸ hget) hp (Or.inl hr)
    generalize ht : s.threadStep reply = t at hframe ⊢
    unfold threadStep at ht
    split at ht <;> rename_i hphase <;> rw [hphase] at hrun <;> try cases hrun
    · split at ht <;> subst ht
      · exact h
      · exact hpast hframe rfl rfl rfl (fun _ => rfl) rfl
    · split at ht <;> subst ht
      · exact h
      · exact hpast hframe rfl rfl rfl (fun _ => rfl) rfl
    · unfold failActive at ht
      split at ht <;> subst ht
      · exact hpast hframe rfl rfl rfl (fun _ => rfl) rfl
      · rename_i seqId r hlast
        have hget : s.active.get? seqId = some r := Dict.mem_entries.mp (List.mem_of_getLast? hlast)
        have hq := ((quiet_pop seqId s).trans (quiet_markRequestTerminal r seqId _)).trans
          (quiet_onHandle r (RequestHandle.kept_put .error) _)
        refine h.quiet (hq.trans (quiet_abortEngine r seqId reply _))
          (Or.inr ⟨r, seqId, ?_, Or.inl (h.active hget).1⟩)
        rw [← hq.engine.owner]
        exact congrArg (· ++ _) (markRequestTerminal_released r seqId _)
    · unfold drainQueued at ht
      split at ht <;> subst ht
      · exact hpast hframe rfl rfl rfl (fun _ => rfl) rfl
      · exact hpast hframe (by rw [onHandle_phase, hphase]; rfl) rfl rfl
          ((quiet_onHandle _ RequestHandle.kept_refuse _).seqIds) rfl
      · exact hpast hframe (by rw [hphase]; rfl) rfl rfl (fun _ => rfl) rfl
    · split at ht <;> subst ht
      · exact hpast hframe rfl rfl rfl (fun _ => rfl) rfl
      · exact hpast hframe (by rw [hphase]; rfl) rfl rfl (fun _ => rfl) rfl
    · unfold failAbort at ht
      split at ht <;> subst ht
      · exact hpast hframe rfl rfl rfl (fun _ => rfl) rfl
      · exact hpast hframe (by rw [onHandle_phase, hphase]; rfl) rfl rfl
          ((quiet_onHandle _ RequestHandle.kept_setTerminal _).seqIds) rfl
    · subst ht
      exact h

/-! ## Clients and whole runs -/

/-- A client call puts the aborts that are its tasks. -/
theorem aborts_clientStep {task : ClientTask} (h : task.Due discarded s) :
    ∀ abort ∈ (s.clientStep task).1.aborts, abort ∈ s.aborts ∨ abort.Due discarded s := by
  have hput : ∀ {abort : AbortRequest}, abort.Due discarded s → ∀ other ∈ s.aborts ++ [abort],
      other ∈ s.aborts ∨ other.Due discarded s := by
    intro abort hdue other hin
    rcases List.mem_append.mp hin with hin | hin
    · exact Or.inl hin
    · rw [List.mem_singleton.mp hin]
      exact Or.inr hdue
  cases task with
  | cancelPut abort => exact hput h
  | discardPut abort =>
    simp only [clientStep]
    split
    · exact fun _ => Or.inl
    · split
      · exact fun _ => Or.inl
      · exact hput h
  | _ =>
    simp only [clientStep]
    repeat' split
    all_goals exact fun _ => Or.inl

theorem due_clientStep {task : ClientTask} (h : task.Due discarded s) :
    (s.clientStep task).2.Due discarded s := by
  cases task with
  | cancelRead requestId =>
    simp only [clientStep]
    split
    · trivial
    · exact ⟨‹_›, fun heq => by cases heq⟩
  | discardRead requestId =>
    simp only [clientStep]
    split
    · trivial
    · exact ⟨‹_›, fun _ => h⟩
  | _ =>
    simp only [clientStep]
    repeat' split
    all_goals first
      | exact trivial
      | exact h

theorem owned_client {task : ClientTask} (index : Nat) (h : Owned discarded s) (hs : s.Accounted)
    (hin : task ∈ s.clients) :
    Owned discarded { (s.clientStep task).1 with
      clients := (s.clientStep task).1.clients.set index (s.clientStep task).2 } := by
  have htask := h.clients task hin
  obtain ⟨hserves, -⟩ := clientStep_serves (hs.marks.clients task hin)
  obtain ⟨hphase, hengine, hactive⟩ := clientStep_quiet task s
  refine h.next (hserves.seqId _).trans (fun _ => congrFun hengine.owner _)
    (fun ha => Or.inl (hactive ▸ ha)) (fun {r} hr => (hserves.seqId r).trans (h.queued ?_))
    (fun {r stage} heq => ?_) (fun abort hab => ?_) (fun other hother => ?_) (Or.inl hserves.released)
  · have hin : r ∈ (s.clientStep task).1.pending.filterMap PendingItem.request? :=
      List.mem_filterMap.mpr ⟨_, hr, rfl⟩
    rw [hserves.pending] at hin
    obtain ⟨item, hitem, heq⟩ := List.mem_filterMap.mp hin
    cases item with
    | request q => exact Option.some.inj heq ▸ hitem
    | _ => cases heq
  · exact owns_congr (h.admitting (hphase.symm.trans heq)) (hserves.seqId r) hengine.owner
  · exact (aborts_clientStep htask abort hab).imp_right fun hd => ⟨(hserves.seqId _).trans hd.1, hd.2⟩
  · rcases List.mem_or_eq_of_mem_set hother with hold | rfl
    · exact Or.inl (hserves.clients ▸ hold)
    · have hdue := due_clientStep htask
      cases hnew : (s.clientStep task).2 with
      | cancelPut | discardPut =>
        rw [hnew] at hdue
        exact Or.inr ⟨(hserves.seqId _).trans hdue.1, hdue.2⟩
      | _ =>
        rw [hnew] at hdue
        exact Or.inr hdue

theorem owned_start {task : ClientTask} (h : Owned discarded s) (hstarts : s.starts task = true)
    (hdiscard : ∀ r, task = .discard r → discarded r) :
    Owned discarded { s with clients := s.clients ++ [task] } := by
  refine h.next (fun hq => hq) (fun _ => rfl) Or.inl h.queued (fun heq => ?_) (fun _ => Or.inl)
    (fun other hother => ?_) (Or.inl rfl)
  · exact owns_congr (h.admitting heq) rfl rfl
  · rcases List.mem_append.mp hother with hold | hnew
    · exact Or.inl hold
    · rw [List.mem_singleton.mp hnew]
      cases task with
      | discard r => exact Or.inr (hdiscard r rfl)
      | cancel | control | close => exact Or.inr trivial
      | _ => cases hstarts

theorem owned_new (h : Owned discarded s) (hs : s.Accounted)
    (hold : ∀ r < s.nextRequest, t.handles r = s.handles r)
    (hnew : (t.handles s.nextRequest).seqId = none) (hphase : t.phase = s.phase)
    (hengine : t.engine = s.engine) (hactive : t.active = s.active)
    (hpending : ∀ {r}, .request r ∈ t.pending → .request r ∈ s.pending ∨ r = s.nextRequest)
    (haborts : t.aborts = s.aborts) (hclients : t.clients = s.clients)
    (hreleased : t.released = s.released) : Owned discarded t := by
  obtain ⟨lost, htracked, -⟩ := hs.tracked
  have hlive : ∀ {r}, r ∈ s.live → (t.handles r).seqId = (s.handles r).seqId := fun hr => by
    rw [hold _ (htracked.known _ hr)]
  have hwaits : ∀ {r}, r ∈ s.waiting → r ∈ s.live := fun hr => List.mem_append_left _ hr
  have hdue : ∀ {abort : AbortRequest}, s.Marked abort.requestId → abort.Due discarded s →
      abort.Due discarded t := fun hmarked hd => ⟨by rw [hold _ hmarked.known]; exact hd.1, hd.2⟩
  refine ⟨fun {q r} ha => ?_, fun hin => ?_, fun {r stage} heq => ?_, fun abort hin => ?_,
    fun task hin => ?_, fun p hp => h.released p (hreleased ▸ hp)⟩
  · rw [hactive] at ha
    rw [hengine, hlive (List.mem_append_right _ (Dict.mem_values.mpr ⟨q, ha⟩))]
    exact h.active ha
  · rcases hpending hin with hin | rfl
    · rw [hlive (hwaits (List.mem_append_left _ (List.mem_filterMap.mpr ⟨_, hin, rfl⟩)))]
      exact h.queued hin
    · exact hnew
  · rw [hphase] at heq
    refine owns_congr (h.admitting heq) (hlive (hwaits (List.mem_append_right _ ?_))) (hengine ▸ rfl)
    rw [heq]
    exact List.mem_singleton_self r
  · rw [haborts] at hin
    exact hdue (hs.marks.aborts abort hin) (h.aborts abort hin)
  · rw [hclients] at hin
    have hbacked := hs.marks.clients task hin
    have hd := h.clients task hin
    cases task with
    | cancelPut | discardPut => exact hdue hbacked hd
    | _ => exact hd

theorem owned_submit (chainId : Option Nat) (h : Owned discarded s) (hs : s.Accounted) :
    Owned discarded (s.submit chainId) := by
  unfold submit
  split
  · exact h
  dsimp only
  split
  · refine owned_new h hs (fun r hr => ?_) ?_ rfl rfl rfl Or.inl rfl rfl rfl
    · rw [onHandle_handles_of_ne (Nat.ne_of_lt hr)]
      exact if_neg (Nat.ne_of_lt hr)
    · simp [RequestHandle.refuse, RequestHandle.setTerminal, RequestHandle.put,
        RequestHandle.resolveAdmission]
  · refine owned_new h hs (fun r hr => if_neg (Nat.ne_of_lt hr)) ?_ rfl rfl rfl (fun hin => ?_) rfl rfl
      rfl
    · simp
    · rcases List.mem_append.mp hin with hold | hnew
      · exact Or.inl hold
      · cases List.mem_singleton.mp hnew
        exact Or.inr rfl

theorem owned_exec (op : Op) (h : Owned discarded s) (hs : s.Accounted)
    (hdiscard : ∀ r, op = .start (.discard r) → discarded r) : Owned discarded (exec op s) := by
  cases op with
  | submit chainId => exact owned_submit chainId h hs
  | start task =>
    simp only [exec]
    split
    · exact owned_start h ‹_› fun r heq => hdiscard r (congrArg Op.start heq)
    · exact h
  | client index =>
    simp only [exec]
    split
    · exact h
    · exact owned_client index h hs (List.mem_of_getElem? ‹_›)
  | thread reply => exact owned_threadStep reply h hs

theorem owned_runAll : ∀ (ops : List Op) {s : DispatcherState}, Owned discarded s → s.Accounted →
    (∀ r, .start (.discard r) ∈ ops → discarded r) → Owned discarded (runAll exec s ops)
  | [], _, h, _, _ => h
  | op :: ops, _, h, hs, hdiscard =>
    owned_runAll ops (owned_exec op h hs fun r heq => hdiscard r (heq ▸ List.mem_cons_self))
      (accounted_exec op hs) fun r hin => hdiscard r (List.mem_cons_of_mem op hin)

theorem owned_initial (chainMode : Bool) : Owned discarded (initial chainMode) := by
  refine ⟨fun ha => ?_, fun hin => ?_, fun heq => ?_, fun abort hin => ?_, fun task hin => ?_,
    fun p hp => ?_⟩
  · rw [initial, Dict.get?_empty] at ha
    cases ha
  · cases hin
  · cases heq
  · cases hin
  · cases hin
  · cases hp

/-- **An abort gives up the engine state of its own request.** After every interleaving of client calls,
engine replies and exceptions, the state given up by each `abort_request` and `discard_chain` is of the
request it was called for, or that request was discarded. -/
theorem releases_own (chainMode : Bool) (ops : List Op) :
    ∀ p ∈ (runAll exec (initial chainMode) ops).released,
      p.2 = some p.1 ∨ .start (.discard p.1) ∈ ops :=
  (owned_runAll ops (owned_initial chainMode) (accounted_initial chainMode) fun _ hin => hin).released

/-- The first request ends, the second one goes on with its chain, and only then does the cancel of the
first one put its abort. The second one is cancelled too. -/
def lateCancel : List Op :=
  .submit none :: List.replicate 9 (.thread {}) ++
    [.start (.cancel 0), .client 0, .client 0, .client 0] ++ List.replicate 3 (.thread {}) ++
      .thread { finishedOutputs := [0] } :: List.replicate 4 (.thread {}) ++
        .submit (some 0) :: List.replicate 9 (.thread {}) ++
          [.client 0, .start (.cancel 1)] ++ List.replicate 4 (.client 1) ++
            List.replicate 4 (.thread {})

/-- Both requests have one sequence id; its state is given up for the second one. -/
theorem releases_own_lateCancel :
    ((runAll exec (initial true) lateCancel).handles 0).seqId = some 0 ∧
      ∃ p ∈ (runAll exec (initial true) lateCancel).released, p.1 = 1 ∧ p.2 = some p.1 := by
  have hin : (1, some 1) ∈ (runAll exec (initial true) lateCancel).released := by decide
  have howner := (releases_own true lateCancel (1, some 1) hin).resolve_right (by decide)
  exact ⟨by decide, (1, some 1), hin, rfl, howner⟩

end DispatcherState

end SparseVllm.Dispatcher
