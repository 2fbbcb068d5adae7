import SparseVllm.Dispatcher.SeqIds

/-!
# What a request has been given

A request waits in the queue or in `_admit`, then it is in the table of active requests, and then it has
left. `Tracked` says what its handle has been given by then, for every request but one: the thread takes
a request from the queue or the table before the last calls that may raise, and the request that it holds
when one does gets neither an error nor a final event (`lost`).

The rules `Tracked.leave`, `Tracked.enter` and `Tracked.stream` are what a step can do; there is a lemma
for each function of the thread.
-/

namespace SparseVllm.Dispatcher

open SparseVllm.Lib

/-! ## The queue of a request -/

/-- Tokens only: the client reads on. -/
def Ongoing (queue : List OutputEvent) : Prop :=
  ∀ event ∈ queue, event.isTerminal = false

/-- One terminal event, and nothing after it. -/
def Complete (queue : List OutputEvent) : Prop :=
  ∃ events last, queue = events ++ [last] ∧ Ongoing events ∧ last.isTerminal = true

section Queues

variable {queue : List OutputEvent} {handle : RequestHandle}

theorem Ongoing.append_token (h : Ongoing queue) : Ongoing (queue ++ [.token]) := by
  intro event hevent
  rcases List.mem_append.mp hevent with hq | ht
  · exact h event hq
  · rw [List.mem_singleton.mp ht]
    rfl

theorem Ongoing.complete (h : Ongoing queue) {last : OutputEvent}
    (hlast : last.isTerminal = true) : Complete (queue ++ [last]) :=
  ⟨queue, last, rfl, h, hlast⟩

theorem Ongoing.putToken (h : Ongoing handle.outputQueue) (emits : Bool) :
    Ongoing (handle.putToken emits).outputQueue := by
  unfold RequestHandle.putToken
  split
  · exact h.append_token
  · exact h

@[simp] theorem RequestHandle.resolutions_putToken (emits : Bool) (handle : RequestHandle) :
    (handle.putToken emits).resolutions = handle.resolutions := by
  unfold RequestHandle.putToken
  split <;> rfl

@[simp] theorem RequestHandle.outputQueue_resolveAdmission (handle : RequestHandle) :
    handle.resolveAdmission.outputQueue = handle.outputQueue := by
  unfold RequestHandle.resolveAdmission
  split <;> rfl

theorem RequestHandle.resolutions_resolveAdmission (h : handle.resolutions ≤ 1) :
    handle.resolveAdmission.resolutions = 1 := by
  unfold RequestHandle.resolveAdmission
  split
  · rfl
  · show handle.resolutions = 1
    omega

theorem Ongoing.refuse (h : Ongoing handle.outputQueue) : Complete handle.refuse.outputQueue := by
  rw [RequestHandle.refuse, RequestHandle.outputQueue_resolveAdmission]
  exact h.complete rfl

theorem RequestHandle.resolutions_refuse (h : handle.resolutions ≤ 1) :
    handle.refuse.resolutions = 1 :=
  resolutions_resolveAdmission h

theorem RequestHandle.terminal_refuse (handle : RequestHandle) : handle.refuse.terminal = true :=
  (kept_resolveAdmission _).terminal rfl

end Queues

/-! ## Where a request is -/

/-- A queued request. -/
def PendingItem.request? : PendingItem → Option RequestId
  | .request requestId => some requestId
  | _ => none

namespace DispatcherState

variable {s t : DispatcherState} {lost : Option RequestId}

/-- The requests that the engine has not been given, or that `_admit` has not put into the table. -/
def waiting (s : DispatcherState) : List RequestId :=
  s.pending.filterMap PendingItem.request? ++ s.phase.admitting

/-- The requests that the thread has still to answer. -/
def live (s : DispatcherState) : List RequestId :=
  s.waiting ++ s.active.values

/-- What the handles have been given. -/
structure Tracked (lost : Option RequestId) (s : DispatcherState) : Prop where
  nodup : s.live.Nodup
  known : ∀ r ∈ s.live, r < s.nextRequest
  once : ∀ r < s.nextRequest, (s.handles r).resolutions ≤ 1
  admitted : ∀ r < s.nextRequest, r ∉ s.waiting → lost ≠ some r → (s.handles r).resolutions = 1
  ongoing : ∀ r ∈ s.live, Ongoing (s.handles r).outputQueue
  ended : ∀ r < s.nextRequest, r ∉ s.live → Complete (s.handles r).outputQueue ∨
    Ongoing (s.handles r).outputQueue ∧ ((s.handles r).cancelled = true ∨ lost = some r)
  terminal : ∀ r < s.nextRequest, r ∉ s.live → lost ≠ some r → (s.handles r).terminal = true

/-- The handles have the same events and resolutions. -/
def SameSaid (requestId : RequestId) (s t : DispatcherState) : Prop :=
  (t.handles requestId).outputQueue = (s.handles requestId).outputQueue ∧
    (t.handles requestId).resolutions = (s.handles requestId).resolutions

/-- What a request has been given when it leaves. -/
structure Answered (lost : Option RequestId) (handle : RequestHandle) (requestId : RequestId) : Prop where
  once : handle.resolutions ≤ 1
  admitted : lost ≠ some requestId → handle.resolutions = 1
  ended : Complete handle.outputQueue ∨
    Ongoing handle.outputQueue ∧ (handle.cancelled = true ∨ lost = some requestId)
  terminal : lost ≠ some requestId → handle.terminal = true

/-- Requests leave the queue or the table. -/
theorem Tracked.leave {lost' : Option RequestId} (h : Tracked lost s)
    (hnext : t.nextRequest = s.nextRequest)
    (hcancelled : ∀ r, (s.handles r).cancelled = true → (t.handles r).cancelled = true)
    (hterminal : ∀ r, (s.handles r).terminal = true → (t.handles r).terminal = true)
    (gone gone' : List RequestId) (hwaiting : s.waiting.Perm (gone ++ t.waiting))
    (hactive : s.active.values.Perm (gone' ++ t.active.values))
    (hlost : ∀ r, lost = some r → lost' = some r)
    (hothers : ∀ r, r ∉ gone ++ gone' → SameSaid r s t)
    (hgone : ∀ r ∈ gone ++ gone', Answered lost' (t.handles r) r) : Tracked lost' t := by
  have hlive : s.live.Perm ((gone ++ gone') ++ t.live) := by
    refine (hwaiting.append hactive).trans ?_
    simp only [live, List.append_assoc]
    refine List.Perm.append_left gone ?_
    rw [← List.append_assoc, ← List.append_assoc]
    exact List.Perm.append_right _ List.perm_append_comm
  have hnodup := hlive.nodup_iff.mp h.nodup
  have hleft : ∀ r ∈ t.live, r ∈ s.live ∧ r ∉ gone ++ gone' := fun r hr =>
    ⟨hlive.mem_iff.mpr (List.mem_append_right _ hr), fun hg =>
      (List.disjoint_of_nodup_append hnodup hg hr).elim⟩
  have hstill : ∀ r, r ∉ t.live → r ∉ gone ++ gone' → r ∉ s.live := by
    intro r hnot hg hin
    rcases List.mem_append.mp (hlive.mem_iff.mp hin) with hin | hin
    · exact hg hin
    · exact hnot hin
  refine ⟨(List.nodup_append.mp hnodup).2.1, fun r hr => ?_, fun r hr => ?_, fun r hr hnot hne => ?_,
    fun r hr => ?_, fun r hr hnot => ?_, fun r hr hnot hne => ?_⟩
  · rw [hnext]
    exact h.known r (hleft r hr).1
  · rw [hnext] at hr
    by_cases hg : r ∈ gone ++ gone'
    · exact (hgone r hg).once
    · rw [(hothers r hg).2]
      exact h.once r hr
  · rw [hnext] at hr
    by_cases hg : r ∈ gone ++ gone'
    · exact (hgone r hg).admitted hne
    · rw [(hothers r hg).2]
      refine h.admitted r hr (fun hin => ?_) fun heq => hne (hlost r heq)
      rcases List.mem_append.mp (hwaiting.mem_iff.mp hin) with hin | hin
      · exact hg (List.mem_append_left _ hin)
      · exact hnot hin
  · obtain ⟨hin, hg⟩ := hleft r hr
    rw [(hothers r hg).1]
    exact h.ongoing r hin
  · rw [hnext] at hr
    by_cases hg : r ∈ gone ++ gone'
    · exact (hgone r hg).ended
    · rw [(hothers r hg).1]
      exact (h.ended r hr (hstill r hnot hg)).imp_right
        (And.imp_right (Or.imp (hcancelled r) (hlost r)))
  · rw [hnext] at hr
    by_cases hg : r ∈ gone ++ gone'
    · exact (hgone r hg).terminal hne
    · exact hterminal r (h.terminal r hr (hstill r hnot hg) fun heq => hne (hlost r heq))

/-- A request goes from `_admit` to the table. -/
theorem Tracked.enter {r : RequestId} (h : Tracked lost s) (hframe : Frame s t)
    (hwaiting : s.waiting.Perm (r :: t.waiting))
    (hactive : t.active.values.Perm (r :: s.active.values))
    (hothers : ∀ q, q ≠ r → SameSaid q s t)
    (hqueue : (t.handles r).outputQueue = (s.handles r).outputQueue)
    (hresolved : (t.handles r).resolutions = 1) : Tracked lost t := by
  have hlive : s.live.Perm t.live :=
    calc s.waiting ++ s.active.values
      _ |>.Perm (r :: t.waiting ++ s.active.values) := hwaiting.append_right _
      _ |>.Perm (t.waiting ++ r :: s.active.values) := List.perm_middle.symm
      _ |>.Perm (t.waiting ++ t.active.values) := hactive.symm.append_left _
  have hsaid : ∀ q, (t.handles q).outputQueue = (s.handles q).outputQueue := by
    intro q
    by_cases hq : q = r
    · rw [hq, hqueue]
    · exact (hothers q hq).1
  refine ⟨hlive.nodup_iff.mp h.nodup, fun q hq => ?_, fun q hq => ?_, fun q hq hnot hne => ?_,
    fun q hq => ?_, fun q hq hnot => ?_, fun q hq hnot hne => ?_⟩
  · rw [hframe.nextRequest]
    exact h.known q (hlive.mem_iff.mpr hq)
  · by_cases hr : q = r
    · rw [hr, hresolved]
    · rw [(hothers q hr).2]
      exact h.once q (hframe.nextRequest ▸ hq)
  · by_cases hr : q = r
    · rw [hr, hresolved]
    · rw [(hothers q hr).2]
      refine h.admitted q (hframe.nextRequest ▸ hq) (fun hin => ?_) hne
      exact (List.mem_cons.mp (hwaiting.mem_iff.mp hin)).elim hr hnot
  · rw [hsaid]
    exact h.ongoing q (hlive.mem_iff.mpr hq)
  · rw [hsaid, hframe.cancelled]
    exact h.ended q (hframe.nextRequest ▸ hq) fun hin => hnot (hlive.mem_iff.mp hin)
  · exact hframe.terminal q (h.terminal q (hframe.nextRequest ▸ hq)
      (fun hin => hnot (hlive.mem_iff.mp hin)) hne)

/-- A request of the table is given tokens. -/
theorem Tracked.stream {r : RequestId} (h : Tracked lost s) (hframe : Frame s t)
    (hwaiting : t.waiting = s.waiting) (hactive : t.active = s.active) (hr : r ∈ s.live)
    (hothers : ∀ q, q ≠ r → SameSaid q s t) (hqueue : Ongoing (t.handles r).outputQueue)
    (hresolved : (t.handles r).resolutions = (s.handles r).resolutions) : Tracked lost t := by
  have hlive : t.live = s.live := by
    rw [live, live, hwaiting, hactive]
  have hsame : ∀ q, (t.handles q).resolutions = (s.handles q).resolutions := by
    intro q
    by_cases hq : q = r
    · rw [hq, hresolved]
    · exact (hothers q hq).2
  refine ⟨hlive ▸ h.nodup, fun q hq => ?_, fun q hq => ?_, fun q hq hnot hne => ?_, fun q hq => ?_,
    fun q hq hnot => ?_, fun q hq hnot hne => ?_⟩
  · rw [hframe.nextRequest]
    exact h.known q (hlive ▸ hq)
  · rw [hsame]
    exact h.once q (hframe.nextRequest ▸ hq)
  · rw [hsame]
    exact h.admitted q (hframe.nextRequest ▸ hq) (hwaiting ▸ hnot) hne
  · by_cases hqr : q = r
    · rw [hqr]
      exact hqueue
    · rw [(hothers q hqr).1]
      exact h.ongoing q (hlive ▸ hq)
  · rw [hlive] at hnot
    have hqr : q ≠ r := fun heq => hnot (heq ▸ hr)
    rw [(hothers q hqr).1, hframe.cancelled]
    exact h.ended q (hframe.nextRequest ▸ hq) hnot
  · exact hframe.terminal q (h.terminal q (hframe.nextRequest ▸ hq) (hlive ▸ hnot) hne)

theorem Frame.cancels (h : Frame s t) (r : RequestId) (hr : (s.handles r).cancelled = true) :
    (t.handles r).cancelled = true :=
  (h.cancelled r).trans hr

/-- No handle is given anything, and no request leaves. -/
structure Silent (s t : DispatcherState) : Prop where
  waiting : s.waiting.Perm t.waiting
  active : t.active = s.active
  said : ∀ r, SameSaid r s t

theorem Tracked.silent (h : Tracked lost s) (hframe : Frame s t) (hsilent : Silent s t) :
    Tracked lost t := by
  refine h.leave hframe.nextRequest hframe.cancels hframe.terminal [] [] hsilent.waiting ?_ (fun _ heq => heq)
    (fun r _ => hsilent.said r) fun r hr => ?_
  · rw [hsilent.active]
    exact List.Perm.refl _
  · cases hr

theorem SameSaid.refl (q : RequestId) (s : DispatcherState) : SameSaid q s s := ⟨rfl, rfl⟩

/-- A terminal mark is no event. -/
theorem sameSaid_setTerminal {requestId : RequestId} {u : DispatcherState}
    (ht : t.handles = (u.onHandle requestId .setTerminal).handles) (hu : u.handles = s.handles)
    (q : RequestId) : SameSaid q s t := by
  unfold SameSaid
  rw [ht, onHandle_handles, hu]
  split <;> exact ⟨rfl, rfl⟩

theorem Silent.of_eq (hpending : t.pending = s.pending)
    (hphase : t.phase.admitting = s.phase.admitting) (hactive : t.active = s.active)
    (hsaid : ∀ r, SameSaid r s t) : Silent s t := by
  refine ⟨?_, hactive, hsaid⟩
  rw [DispatcherState.waiting, DispatcherState.waiting, hpending, hphase]

/-! ## The thread -/

theorem nextIteration_admitting (s : DispatcherState) : s.nextIteration.phase.admitting = [] := by
  unfold nextIteration
  split <;> rfl

theorem silent_nextIteration (hphase : s.phase.admitting = []) : Silent s s.nextIteration :=
  Silent.of_eq rfl (by rw [hphase, nextIteration_admitting]) rfl fun _ => ⟨rfl, rfl⟩

theorem silent_drainControl (admitted : Bool) (reply : Reply) (hphase : s.phase.admitting = []) :
    Silent s (s.drainControl admitted reply) := by
  unfold drainControl
  dsimp only
  split
  · refine Silent.of_eq rfl ?_ rfl fun _ => ⟨rfl, rfl⟩
    rw [hphase]
    split <;> rfl
  · split
    · exact Silent.of_eq rfl rfl rfl fun _ => ⟨rfl, rfl⟩
    · split
      · exact Silent.of_eq rfl (by rw [hphase]; rfl) rfl fun _ => ⟨rfl, rfl⟩
      · exact Silent.of_eq rfl rfl rfl fun _ => ⟨rfl, rfl⟩

theorem silent_prune (reply : Reply) (hphase : s.phase.admitting = []) :
    Silent s (s.prune reply) := by
  unfold prune
  dsimp only
  split <;> exact Silent.of_eq rfl (by rw [hphase]; rfl) rfl fun _ => ⟨rfl, rfl⟩

theorem silent_engineStep (reply : Reply) (hphase : s.phase.admitting = []) :
    Silent s (s.engineStep reply) := by
  unfold engineStep
  dsimp only
  split <;> exact Silent.of_eq rfl (by rw [hphase]; rfl) rfl fun _ => ⟨rfl, rfl⟩

theorem silent_abortsDrained (admitted changed : Bool) (reply : Reply)
    (hphase : s.phase.admitting = []) : Silent s (s.abortsDrained admitted changed reply) := by
  have hgoto : ∀ {phase : Phase}, phase.admitting = [] → Silent s (s.goto phase) := by
    intro phase h
    refine Silent.of_eq rfl ?_ rfl fun _ => ⟨rfl, rfl⟩
    rw [hphase]
    exact h
  unfold abortsDrained
  split
  · exact hgoto rfl
  · split
    · exact hgoto rfl
    · exact hgoto rfl
    · split
      · exact hgoto rfl
      · exact silent_nextIteration hphase
    · split <;> exact hgoto rfl

/-- A client has cancelled the request. -/
structure Marked (requestId : RequestId) (s : DispatcherState) : Prop where
  known : requestId < s.nextRequest
  cancelled : (s.handles requestId).cancelled = true

/-- An active request is ongoing, and its admission is resolved. -/
theorem Tracked.of_active {seqId : SeqId} {r : RequestId} (h : Tracked lost s)
    (hr : s.active.get? seqId = some r) :
    r ∈ s.live ∧ Ongoing (s.handles r).outputQueue ∧ (s.handles r).resolutions ≤ 1 ∧
      (lost ≠ some r → (s.handles r).resolutions = 1) := by
  have hin : r ∈ s.active.values := Dict.mem_values.mpr ⟨seqId, hr⟩
  have hlive : r ∈ s.live := List.mem_append_right _ hin
  refine ⟨hlive, h.ongoing r hlive, h.once r (h.known r hlive),
    h.admitted r (h.known r hlive) fun hw => ?_⟩
  exact List.disjoint_of_nodup_append h.nodup hw hin

/-- A request leaves the table. -/
theorem Tracked.pop {lost' : Option RequestId} {seqId : SeqId} {r : RequestId} (h : Tracked lost s)
    (hframe : Frame s t) (hr : s.active.get? seqId = some r) (hpending : t.pending = s.pending)
    (hphase : t.phase.admitting = s.phase.admitting) (hactive : t.active = s.active.pop seqId)
    (hlost : ∀ q, lost = some q → lost' = some q) (hothers : ∀ q, q ≠ r → SameSaid q s t)
    (hgone : Answered lost' (t.handles r) r) : Tracked lost' t := by
  refine h.leave hframe.nextRequest hframe.cancels hframe.terminal [] [r] ?_ ?_ hlost (fun q hq => hothers q ?_)
    fun q hq => ?_
  · rw [waiting, waiting, hpending, hphase]
    exact List.Perm.refl _
  · rw [hactive]
    exact Dict.values_perm hr
  · exact fun heq => hq (heq ▸ List.mem_singleton_self r)
  · rw [List.mem_singleton.mp hq]
    exact hgone

/-- The request in `_admit` leaves. -/
theorem Tracked.dismiss {lost' : Option RequestId} {r : RequestId} (h : Tracked lost s)
    (hframe : Frame s t) (hs : s.phase.admitting = [r]) (hpending : t.pending = s.pending)
    (ht : t.phase.admitting = []) (hactive : t.active = s.active)
    (hlost : ∀ q, lost = some q → lost' = some q) (hothers : ∀ q, q ≠ r → SameSaid q s t)
    (hgone : Answered lost' (t.handles r) r) : Tracked lost' t := by
  refine h.leave hframe.nextRequest hframe.cancels hframe.terminal [r] [] ?_ ?_ hlost (fun q hq => hothers q ?_)
    fun q hq => ?_
  · rw [waiting, waiting, hpending, hs, ht, List.append_nil]
    exact List.perm_append_comm
  · rw [hactive]
    exact List.Perm.refl _
  · exact fun heq => hq (heq ▸ List.mem_singleton_self r)
  · rw [List.mem_singleton.mp hq]
    exact hgone

theorem tracked_drainAbort (admitted changed : Bool) (reply : Reply) (h : Tracked none s)
    (hphase : s.phase.admitting = []) (hmarked : ∀ abort ∈ s.aborts, Marked abort.requestId s) :
    Tracked none (s.drainAbort admitted changed reply) := by
  have hframe := (quiet_drainAbort admitted changed reply s).toFrame
  generalize ht : s.drainAbort admitted changed reply = t at hframe ⊢
  unfold drainAbort at ht
  split at ht
  · subst ht
    exact h.silent hframe (silent_abortsDrained admitted changed reply hphase)
  rename_i abort aborts haborts
  have hmark := hmarked abort (by rw [haborts]; exact List.mem_cons_self)
  dsimp only at ht
  split at ht
  · subst ht
    exact h.silent hframe (Silent.of_eq rfl rfl rfl fun _ => ⟨rfl, rfl⟩)
  split at ht
  · subst ht
    exact h.silent hframe (Silent.of_eq rfl rfl rfl (sameSaid_setTerminal rfl rfl))
  split at ht
  · rename_i requestId hactive
    split at ht
    · subst ht
      exact h.silent hframe (Silent.of_eq rfl rfl rfl (sameSaid_setTerminal rfl rfl))
    rename_i hsame
    obtain rfl : requestId = abort.requestId := not_not.mp hsame
    split at ht
    · subst ht
      exact h.silent hframe (Silent.of_eq rfl (by rw [hphase]; rfl) rfl fun _ => ⟨rfl, rfl⟩)
    · subst ht
      obtain ⟨-, hqueue, -, hadmitted⟩ := h.of_active hactive
      have hresolved := hadmitted (Option.some_ne_none _).symm
      refine h.pop hframe hactive (by simp) (by rw [hphase]; rfl) (by simp) (fun _ heq => heq)
        (fun q hq => ?_) ⟨?_, fun _ => ?_, Or.inr ⟨?_, Or.inl ?_⟩, fun _ => ?_⟩
      · simp [SameSaid, onHandle_handles_of_ne hq]
      · simp [RequestHandle.setTerminal, hresolved]
      · simp [RequestHandle.setTerminal, hresolved]
      · simpa [RequestHandle.setTerminal] using hqueue
      · simpa [RequestHandle.setTerminal] using hmark.cancelled
      · simp [RequestHandle.setTerminal]
  · split at ht
    · split at ht
      · subst ht
        exact h.silent hframe (Silent.of_eq rfl rfl rfl fun _ => ⟨rfl, rfl⟩)
      · split at ht
        · split at ht
          · subst ht
            exact h.silent hframe (Silent.of_eq rfl (by rw [hphase]; rfl) rfl fun _ => ⟨rfl, rfl⟩)
          · subst ht
            exact h.silent hframe (Silent.of_eq rfl rfl rfl fun _ => ⟨rfl, rfl⟩)
        · subst ht
          exact h.silent hframe (Silent.of_eq rfl rfl rfl fun _ => ⟨rfl, rfl⟩)
    · split at ht
      · subst ht
        exact h.silent hframe (Silent.of_eq rfl (by rw [hphase]; rfl) rfl fun _ => ⟨rfl, rfl⟩)
      · subst ht
        exact h.silent hframe (Silent.of_eq (by simp) (by rw [hphase]; rfl) (by simp)
          (sameSaid_setTerminal (markRequestTerminal_handles _ _ _) rfl))

/-- An item that is no request leaves the queue. -/
theorem waiting_drop {item : PendingItem} {pending : List PendingItem}
    (hpending : s.pending = item :: pending) (hitem : item.request? = none)
    (ht : t.pending = pending) (hphase : t.phase.admitting = s.phase.admitting) :
    s.waiting.Perm t.waiting := by
  rw [waiting, waiting, hpending, ht, hphase, List.filterMap_cons_none hitem]

/-- A request goes from the queue to `_admit`. -/
theorem waiting_take {requestId : RequestId} {pending : List PendingItem}
    (hpending : s.pending = .request requestId :: pending) (hphase : s.phase.admitting = [])
    (ht : t.pending = pending) (htphase : t.phase.admitting = [requestId]) :
    s.waiting.Perm t.waiting := by
  rw [waiting, waiting, hpending, ht, hphase, htphase, List.append_nil]
  exact (List.perm_append_singleton requestId _).symm

theorem silent_waitPending (hphase : s.phase.admitting = []) : Silent s s.waitPending := by
  unfold waitPending
  split
  · exact Silent.of_eq rfl rfl rfl fun _ => ⟨rfl, rfl⟩
  · exact ⟨waiting_drop ‹_› rfl rfl hphase.symm, rfl, fun _ => ⟨rfl, rfl⟩⟩
  · refine ⟨waiting_drop ‹_› rfl rfl ?_, rfl, fun _ => ⟨rfl, rfl⟩⟩
    rw [nextIteration_admitting, hphase]
  · exact ⟨waiting_take ‹_› hphase rfl rfl, rfl, fun _ => ⟨rfl, rfl⟩⟩

theorem silent_drainPending (hphase : s.phase.admitting = []) : Silent s s.drainPending := by
  unfold drainPending
  split
  · exact Silent.of_eq rfl hphase.symm rfl fun _ => ⟨rfl, rfl⟩
  · exact ⟨waiting_drop ‹_› rfl rfl rfl, rfl, fun _ => ⟨rfl, rfl⟩⟩
  · exact ⟨waiting_drop ‹_› rfl rfl rfl, rfl, fun _ => ⟨rfl, rfl⟩⟩
  · exact ⟨waiting_take ‹_› hphase rfl rfl, rfl, fun _ => ⟨rfl, rfl⟩⟩

/-- A request in `_admit` is ongoing. -/
theorem Tracked.of_admitting {r : RequestId} (h : Tracked lost s) (hr : s.phase.admitting = [r]) :
    Ongoing (s.handles r).outputQueue ∧ (s.handles r).resolutions ≤ 1 := by
  have hlive : r ∈ s.live := by
    refine List.mem_append_left _ (List.mem_append_right _ ?_)
    rw [hr]
    exact List.mem_singleton_self r
  exact ⟨h.ongoing r hlive, h.once r (h.known r hlive)⟩

theorem tracked_admitCancelled {requestId : RequestId} (h : Tracked lost s)
    (hphase : s.phase.admitting = [requestId]) (hcancelled : (s.handles requestId).cancelled = true) :
    Tracked lost (s.admitCancelled requestId) := by
  obtain ⟨hqueue, honce⟩ := h.of_admitting hphase
  have hresolved : (s.handles requestId).setTerminal.resolveAdmission.resolutions = 1 :=
    RequestHandle.resolutions_resolveAdmission honce
  refine h.dismiss (quiet_admitCancelled requestId s).toFrame hphase rfl rfl rfl (fun _ heq => heq)
    (fun q hq => ?_) ⟨?_, fun _ => ?_, Or.inr ⟨?_, Or.inl ?_⟩, fun _ => ?_⟩
  · simp [admitCancelled, SameSaid, onHandle_handles_of_ne hq]
  · simp [admitCancelled, hresolved]
  · simp [admitCancelled, hresolved]
  · simpa [admitCancelled, RequestHandle.setTerminal] using hqueue
  · rw [admitCancelled, goto_handles, onHandle_handles_self,
      (RequestHandle.kept_resolveAdmission _).cancelled]
    exact hcancelled
  · rw [admitCancelled, goto_handles, onHandle_handles_self]
    exact (RequestHandle.kept_resolveAdmission _).terminal rfl

/-- The request in `_admit` is refused, wherever its handle was marked before. -/
theorem Tracked.refuse {requestId : RequestId} {u : DispatcherState} (h : Tracked lost s)
    (hphase : s.phase.admitting = [requestId])
    (hframe : Frame s ((u.onHandle requestId .refuse).goto .drainPending))
    (hpending : u.pending = s.pending) (hactive : u.active = s.active)
    (hsaid : ∀ q, SameSaid q s u) :
    Tracked lost ((u.onHandle requestId .refuse).goto .drainPending) := by
  obtain ⟨hqueue, honce⟩ := h.of_admitting hphase
  rw [← (hsaid requestId).1] at hqueue
  rw [← (hsaid requestId).2] at honce
  have hresolved := RequestHandle.resolutions_refuse honce
  refine h.dismiss hframe hphase hpending rfl hactive (fun _ heq => heq) (fun q hq => ?_)
    ⟨?_, fun _ => ?_, Or.inl ?_, fun _ => ?_⟩
  · simpa [SameSaid, onHandle_handles_of_ne hq] using hsaid q
  · simp [hresolved]
  · simp [hresolved]
  · simpa using hqueue.refuse
  · rw [goto_handles, onHandle_handles_self]
    exact RequestHandle.terminal_refuse _

/-- A second exception loses the request. -/
theorem tracked_admitFailed {requestId : RequestId} (reply : Reply) (h : Tracked none s)
    (hphase : s.phase.admitting = [requestId]) :
    ∃ lost, Tracked lost (s.admitFailed requestId reply) ∧
      (lost ≠ none → (s.admitFailed requestId reply).phase = .failing) := by
  have hframe := (quiet_admitFailed requestId reply s).toFrame
  unfold admitFailed at hframe ⊢
  split at hframe
  · refine ⟨none, h.refuse hphase hframe rfl rfl fun q => ⟨rfl, rfl⟩, fun hne => absurd rfl hne⟩
  · dsimp only at hframe ⊢
    split at hframe
    · rw [if_pos ‹_›]
      obtain ⟨hqueue, honce⟩ := h.of_admitting hphase
      refine ⟨some requestId, h.dismiss hframe hphase rfl rfl rfl (fun _ heq => ?_)
        (fun q hq => ⟨rfl, rfl⟩) ⟨honce, fun hne => absurd rfl hne, Or.inr ⟨hqueue, Or.inr rfl⟩,
          fun hne => absurd rfl hne⟩, fun _ => rfl⟩
      cases heq
    · rw [if_neg ‹_›]
      refine ⟨none, h.refuse hphase hframe (by simp) (by simp)
        (sameSaid_setTerminal (markRequestTerminal_handles _ _ _) rfl), fun hne => absurd rfl hne⟩

theorem tracked_admitRequest {requestId : RequestId} {stage : AdmitStage} (reply : Reply)
    (h : Tracked none s) (hfits : s.Fits) (hphase : s.phase = .admitRequest requestId stage) :
    ∃ lost, Tracked lost (s.admitRequest requestId reply stage) ∧
      (lost ≠ none → (s.admitRequest requestId reply stage).phase = .failing) := by
  have hframe := (loops_admitRequest requestId reply stage s).toFrame
  have hadmitting : s.phase.admitting = [requestId] := by
    rw [hphase]
    rfl
  have hstays : ∀ {t : DispatcherState} {next : AdmitStage}, Frame s t → t.pending = s.pending →
      t.phase = .admitRequest requestId next → t.active = s.active →
        (∀ q, SameSaid q s t) → Tracked none t := fun hf hp hphase' ha hsaid =>
    h.silent hf (Silent.of_eq hp (by rw [hphase', hphase]; rfl) ha hsaid)
  suffices hkept : Tracked none (s.admitRequest requestId reply stage) ∨ stage = .failed by
    rcases hkept with hkept | rfl
    · exact ⟨none, hkept, fun hne => absurd rfl hne⟩
    · exact tracked_admitFailed reply h hadmitting
  cases stage with
  | readCancelled =>
    left
    simp only [admitRequest] at hframe ⊢
    split
    · exact tracked_admitCancelled h hadmitting ‹_›
    · rw [if_neg ‹_›] at hframe
      exact hstays hframe rfl rfl rfl fun q => SameSaid.refl q s
  | readClosing =>
    left
    simp only [admitRequest] at hframe ⊢
    split
    · rw [if_pos ‹_›] at hframe
      exact h.refuse hadmitting hframe rfl rfl fun q => SameSaid.refl q s
    · rw [if_neg ‹_›] at hframe
      exact hstays hframe rfl rfl rfl fun q => SameSaid.refl q s
  | callEngine =>
    left
    generalize ht : s.admitRequest requestId reply .callEngine = t at hframe ⊢
    simp only [admitRequest] at ht
    split at ht
    · subst ht
      exact hstays hframe rfl rfl rfl fun q => SameSaid.refl q s
    · subst ht
      refine hstays hframe rfl rfl rfl fun q => ?_
      rw [SameSaid, onHandle_handles]
      split <;> exact ⟨rfl, rfl⟩
  | writeSeqId seqId =>
    left
    refine hstays hframe rfl rfl rfl fun q => ?_
    rw [SameSaid, admitRequest, goto_handles, onHandle_handles]
    split <;> exact ⟨rfl, rfl⟩
  | readCancelledAgain seqId =>
    left
    generalize ht : s.admitRequest requestId reply (.readCancelledAgain seqId) = t at hframe ⊢
    simp only [admitRequest] at ht
    split at ht
    · rename_i hcancelled
      have habort : Tracked none (s.abortEngine requestId seqId reply) :=
        h.silent (quiet_abortEngine requestId seqId reply s).toFrame
          (Silent.of_eq rfl rfl rfl fun q => SameSaid.refl q s)
      split at ht
      · subst ht
        exact tracked_admitCancelled habort hadmitting hcancelled
      · subst ht
        exact hstays hframe rfl rfl rfl fun q => SameSaid.refl q s
    · split at ht
      · subst ht
        exact hstays hframe rfl rfl rfl fun q => SameSaid.refl q s
      · subst ht
        have hfresh : s.active.get? seqId = none := (hfits.reserved seqId (by rw [hphase]; rfl)).fresh
        refine h.enter (r := requestId) hframe ?_ ?_ (fun q hq => ?_) ?_ ?_
        · rw [waiting, waiting, hadmitting]
          show (_ ++ [requestId]).Perm (requestId :: (_ ++ []))
          rw [List.append_nil]
          exact List.perm_append_singleton requestId _
        · show (s.active.set seqId requestId).values.Perm _
          rw [Dict.values_set, Dict.pop_of_get?_none hfresh]
        · simp [SameSaid, onHandle_handles_of_ne hq]
        · simp
        · simpa using RequestHandle.resolutions_resolveAdmission (h.of_admitting hadmitting).2
  | failed => exact Or.inr rfl

/-- A request leaves the table with a terminal event. -/
theorem Tracked.finish {seqId : SeqId} {r : RequestId} {handle : RequestHandle} {last : OutputEvent}
    (h : Tracked lost s) (hframe : Frame s t) (hr : s.active.get? seqId = some r)
    (hlast : last.isTerminal = true) (hpending : t.pending = s.pending)
    (hphase : t.phase.admitting = s.phase.admitting) (hactive : t.active = s.active.pop seqId)
    (hothers : ∀ q, q ≠ r → SameSaid q s t)
    (hqueue : Ongoing (s.handles r).outputQueue → Ongoing handle.outputQueue)
    (hresolved : handle.resolutions = (s.handles r).resolutions)
    (hsaid : t.handles r = handle.setTerminal.put last) : Tracked lost t := by
  obtain ⟨-, hongoing, honce, hadmitted⟩ := h.of_active hr
  have hsame : (t.handles r).resolutions = (s.handles r).resolutions := by
    rw [hsaid, ← hresolved]
    rfl
  refine h.pop hframe hr hpending hphase hactive (fun _ heq => heq) hothers
    ⟨hsame ▸ honce, hsame ▸ hadmitted, Or.inl ?_, fun _ => ?_⟩
  · rw [hsaid]
    exact (hqueue hongoing).complete hlast
  · rw [hsaid]
    rfl

theorem tracked_publishTokenDelta (seqId : SeqId) (outputs finished : List SeqId) (reply : Reply)
    (h : Tracked none s) (hphase : s.phase.admitting = []) :
    Tracked none (s.publishTokenDelta seqId outputs finished reply) := by
  have hframe := (quiet_publishTokenDelta seqId outputs finished reply s).toFrame
  generalize ht : s.publishTokenDelta seqId outputs finished reply = t at hframe ⊢
  have hsilent : ∀ {t : DispatcherState}, Frame s t → t.pending = s.pending →
      t.phase.admitting = [] → t.active = s.active → t.handles = s.handles → Tracked none t :=
    fun hf hp hphase' ha hh => h.silent hf (Silent.of_eq hp (hphase'.trans hphase.symm) ha
      fun q => by rw [SameSaid, hh]; exact ⟨rfl, rfl⟩)
  have htoken : ∀ {t : DispatcherState} {r : RequestId}, Frame s t → s.active.get? seqId = some r →
      t.pending = s.pending → t.phase.admitting = [] → t.active = s.active →
        (∀ q, q ≠ r → t.handles q = s.handles q) →
          t.handles r = (s.handles r).putToken reply.emits → Tracked none t := by
    intro t r hf hr hp hphase' ha hothers hsaid
    obtain ⟨hlive, hqueue, -, -⟩ := h.of_active hr
    refine h.stream hf ?_ ha hlive (fun q hq => ?_) ?_ ?_
    · rw [waiting, waiting, hp, hphase', hphase]
    · rw [SameSaid, hothers q hq]
      exact ⟨rfl, rfl⟩
    · rw [hsaid]
      exact hqueue.putToken reply.emits
    · rw [hsaid, RequestHandle.resolutions_putToken]
  have hfinal : OutputEvent.final.isTerminal = true := rfl
  unfold publishTokenDelta at ht
  dsimp only at ht
  split at ht
  · subst ht
    exact hsilent hframe rfl rfl rfl rfl
  rename_i requestId hactive
  split at ht
  · subst ht
    exact hsilent hframe rfl rfl rfl rfl
  split at ht
  · split at ht
    · subst ht
      exact hsilent hframe rfl rfl rfl rfl
    split at ht
    · subst ht
      exact htoken hframe hactive rfl rfl rfl (fun q hq => by simp [onHandle_handles_of_ne hq])
        (by simp)
    · subst ht
      refine h.finish hframe hactive hfinal (by simp) ?_ (by simp) (fun q hq => ?_)
        (fun hq => hq.putToken reply.emits) (RequestHandle.resolutions_putToken reply.emits _)
        (by simp)
      · rw [hphase]
        simp [Phase.admitting]
      · simp [SameSaid, onHandle_handles_of_ne hq]
  · subst ht
    exact htoken hframe hactive rfl rfl rfl (fun q hq => by simp [onHandle_handles_of_ne hq])
      (by simp)

/-- An exception after the request has left the table loses it. -/
theorem tracked_publishFinish (seqId : SeqId) (finished : List SeqId) (reply : Reply)
    (h : Tracked none s) (hphase : s.phase.admitting = []) :
    ∃ lost, Tracked lost (s.publishFinish seqId finished reply) ∧
      (lost ≠ none → (s.publishFinish seqId finished reply).phase = .failing) := by
  have hframe := (quiet_publishFinish seqId finished reply s).toFrame
  generalize ht : s.publishFinish seqId finished reply = t at hframe ⊢
  have hsilent : ∀ {t : DispatcherState}, Frame s t → t.pending = s.pending →
      t.phase.admitting = [] → t.active = s.active → t.handles = s.handles →
        ∃ lost, Tracked lost t ∧ (lost ≠ none → t.phase = .failing) :=
    fun hf hp hphase' ha hh => ⟨none, h.silent hf (Silent.of_eq hp (hphase'.trans hphase.symm) ha
      fun q => by rw [SameSaid, hh]; exact ⟨rfl, rfl⟩), fun hne => absurd rfl hne⟩
  have hloses : ∀ {t : DispatcherState} {r : RequestId}, Frame s t → s.active.get? seqId = some r →
      t.pending = s.pending → t.phase = .failing → t.active = s.active.pop seqId →
        t.handles = s.handles → ∃ lost, Tracked lost t ∧ (lost ≠ none → t.phase = .failing) := by
    intro t r hf hr hp hfailing ha hh
    obtain ⟨-, hqueue, -, hadmitted⟩ := h.of_active hr
    have hresolved := hadmitted (Option.some_ne_none r).symm
    refine ⟨some r, h.pop hf hr hp ?_ ha (fun _ heq => ?_) (fun q _ => ?_) ?_, fun _ => hfailing⟩
    · rw [hfailing, hphase]
      rfl
    · cases heq
    · rw [SameSaid, hh]
      exact ⟨rfl, rfl⟩
    · rw [hh]
      exact ⟨hresolved.le, fun _ => hresolved, Or.inr ⟨hqueue, Or.inr rfl⟩, fun hne => absurd rfl hne⟩
  have hfinal : OutputEvent.final.isTerminal = true := rfl
  unfold publishFinish at ht
  dsimp only at ht
  split at ht
  · subst ht
    exact hsilent hframe rfl rfl rfl rfl
  rename_i requestId hactive
  split at ht
  · subst ht
    exact hsilent hframe rfl rfl rfl rfl
  split at ht
  · subst ht
    exact hloses hframe hactive rfl rfl rfl rfl
  split at ht
  · split at ht <;> subst ht <;> exact hloses hframe hactive rfl rfl rfl rfl
  · have hfinish : ∀ {u : DispatcherState}, u.handles = s.handles → u.pending = s.pending →
        u.phase.admitting = [] → u.active = s.active.pop seqId →
          Frame s (((u.onHandle requestId (.putToken reply.emits)).markRequestTerminal requestId
            seqId).onHandle requestId (.put .final)) →
          Tracked none (((u.onHandle requestId (.putToken reply.emits)).markRequestTerminal requestId
            seqId).onHandle requestId (.put .final)) := by
      intro u hh hp hphase' ha hf
      refine h.finish hf hactive hfinal (by simp [hp]) (by simp [hphase', hphase]) (by simp [ha])
        (fun q hq => ?_) (fun hq => hq.putToken reply.emits)
        (RequestHandle.resolutions_putToken reply.emits _) (by simp [hh])
      simp [SameSaid, onHandle_handles_of_ne hq, hh]
    split at ht
    · subst ht
      exact ⟨none, hfinish rfl rfl rfl rfl hframe, fun hne => absurd rfl hne⟩
    · subst ht
      exact ⟨none, hfinish rfl rfl rfl rfl hframe, fun hne => absurd rfl hne⟩

end DispatcherState

end SparseVllm.Dispatcher
