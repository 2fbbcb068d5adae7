import SparseVllm.Dispatcher.Tracked

/-!
# How requests end

What a whole run of the dispatcher gives each request, whatever the clients do between two steps of the
thread.

* `Marks`: an abort is of a request that its client has cancelled.
* `Stops`: the thread leaves its loop after `close` or a failure only, and what it has emptied on its way
  to its end stays empty, since `submit` then refuses requests.
* **`requests_end`**: no request has an event after a terminal one. When the thread has ended, each request
  has had its admission resolved, and has a terminal event or has been cancelled; but for at most one, if
  the thread has failed.
-/

namespace SparseVllm.Dispatcher

open SparseVllm.Lib

/-- What a client call has found out so far. -/
def ClientTask.Backed (s : DispatcherState) : ClientTask → Prop
  | .cancel requestId | .cancelMark requestId | .discard requestId => requestId < s.nextRequest
  | .cancelRead requestId | .discardRead requestId => s.Marked requestId
  | .cancelPut abort | .discardPut abort => s.Marked abort.requestId
  | .closePut => s.closing = true
  | _ => True

namespace DispatcherState

variable {s t : DispatcherState} {lost : Option RequestId}

/-- The requests of aborts have been cancelled. -/
structure Marks (s : DispatcherState) : Prop where
  aborts : ∀ abort ∈ s.aborts, s.Marked abort.requestId
  clients : ∀ task ∈ s.clients, task.Backed s

/-- Why the thread stops, and what it leaves. -/
structure Stops (s : DispatcherState) : Prop where
  told : s.Told → s.closing = true
  stopped : 1 ≤ s.phase.late → s.closing = true ∨ s.failed = true
  inactive : 2 ≤ s.phase.late → s.active.values = []
  drained : 3 ≤ s.phase.late → s.pending.filterMap PendingItem.request? = []

/-! ## Clients -/

/-- What a client call does to what the thread reads and writes. -/
structure Serves (s t : DispatcherState) : Prop where
  nextRequest : t.nextRequest = s.nextRequest
  phase : t.phase = s.phase
  active : t.active = s.active
  stopping : t.stopping = s.stopping
  failed : t.failed = s.failed
  closing : s.closing = true → t.closing = true
  clients : t.clients = s.clients
  said : ∀ r, SameSaid r s t
  cancelled : ∀ r, (s.handles r).cancelled = true → (t.handles r).cancelled = true
  terminal : ∀ r, (t.handles r).terminal = (s.handles r).terminal
  seqId : ∀ r, (t.handles r).seqId = (s.handles r).seqId
  released : t.released = s.released
  aborts : ∀ abort ∈ t.aborts, abort ∈ s.aborts ∨ s.Marked abort.requestId
  pending : t.pending.filterMap PendingItem.request? = s.pending.filterMap PendingItem.request?
  stop : .stop ∈ t.pending → .stop ∈ s.pending ∨ s.closing = true

theorem Serves.refl (s : DispatcherState) : Serves s s :=
  ⟨rfl, rfl, rfl, rfl, rfl, fun h => h, rfl, fun q => SameSaid.refl q s, fun _ h => h,
    fun _ => rfl, fun _ => rfl, rfl, fun _ => Or.inl, rfl, Or.inl⟩

theorem Marked.serves {r : RequestId} (h : s.Marked r) (hserves : Serves s t) : t.Marked r :=
  ⟨hserves.nextRequest ▸ h.known, hserves.cancelled r h.cancelled⟩

/-- What a client call has found out stays so. -/
theorem backed_mono {task : ClientTask} (h : task.Backed s) (hnext : s.nextRequest ≤ t.nextRequest)
    (hmarked : ∀ {r}, s.Marked r → t.Marked r) (hclosing : s.closing = true → t.closing = true) :
    task.Backed t := by
  cases task with
  | cancel | cancelMark | discard => exact Nat.lt_of_lt_of_le h hnext
  | cancelRead | discardRead | cancelPut | discardPut => exact hmarked h
  | closePut => exact hclosing h
  | _ => trivial

/-- A client sets its mark. -/
theorem serves_mark (requestId : RequestId) (s : DispatcherState) :
    Serves s (s.onHandle requestId fun handle => { handle with cancelled := true }) := by
  refine { Serves.refl s with
    said := fun q => ?_, cancelled := fun q hq => ?_, terminal := fun q => ?_, seqId := fun q => ?_ }
  · rw [SameSaid, onHandle_handles]
    split <;> exact ⟨rfl, rfl⟩
  · rw [onHandle_handles]
    split
    · rfl
    · exact hq
  · rw [onHandle_handles]
    split <;> rfl
  · rw [onHandle_handles]
    split <;> rfl

theorem marked_mark {requestId : RequestId} (h : requestId < s.nextRequest) :
    (s.onHandle requestId fun handle => { handle with cancelled := true }).Marked requestId := by
  refine ⟨h, ?_⟩
  rw [onHandle_handles_self]

theorem serves_abort {abort : AbortRequest} (h : s.Marked abort.requestId) (locked : Bool) :
    Serves s { s with aborts := s.aborts ++ [abort], locked := locked } := by
  refine { Serves.refl s with aborts := fun other hin => ?_ }
  rcases List.mem_append.mp hin with hin | hin
  · exact Or.inl hin
  · rw [List.mem_singleton.mp hin]
    exact Or.inr h

theorem serves_pending {item : PendingItem} (hitem : item.request? = none)
    (hstop : item = .stop → s.closing = true) (locked : Bool) :
    Serves s { s with pending := s.pending ++ [item], locked := locked } := by
  refine { Serves.refl s with pending := ?_, stop := fun hin => ?_ }
  · rw [List.filterMap_append, List.filterMap_cons_none hitem, List.filterMap_nil, List.append_nil]
  · rcases List.mem_append.mp hin with hin | hin
    · exact Or.inl hin
    · exact Or.inr (hstop (List.mem_singleton.mp hin).symm)

theorem clientStep_serves {task : ClientTask} (h : task.Backed s) :
    Serves s (s.clientStep task).1 ∧ (s.clientStep task).2.Backed (s.clientStep task).1 := by
  cases task with
  | cancel requestId | cancelRead requestId | discardRead requestId =>
    simp only [clientStep]
    split
    · exact ⟨Serves.refl s, trivial⟩
    · exact ⟨Serves.refl s, h⟩
  | cancelMark requestId | discard requestId => exact ⟨serves_mark requestId s, marked_mark h⟩
  | cancelPut abort => exact ⟨serves_abort h s.locked, trivial⟩
  | wake => exact ⟨serves_pending rfl (fun heq => by cases heq) s.locked, trivial⟩
  | discardPut abort =>
    simp only [clientStep]
    split
    · exact ⟨Serves.refl s, h⟩
    · split
      · exact ⟨Serves.refl s, trivial⟩
      · exact ⟨serves_abort h true, trivial⟩
  | control =>
    simp only [clientStep]
    split
    · exact ⟨Serves.refl s, trivial⟩
    · split
      · exact ⟨Serves.refl s, trivial⟩
      · exact ⟨{ Serves.refl s with }, trivial⟩
  | wakeLocked => exact ⟨serves_pending rfl (fun heq => by cases heq) false, trivial⟩
  | close =>
    simp only [clientStep]
    split
    · exact ⟨Serves.refl s, trivial⟩
    · split
      · exact ⟨Serves.refl s, trivial⟩
      · exact ⟨{ Serves.refl s with closing := fun _ => rfl }, rfl⟩
  | closePut => exact ⟨serves_pending rfl (fun _ => h) false, trivial⟩
  | closeExit => exact ⟨{ Serves.refl s with }, trivial⟩
  | returned => exact ⟨Serves.refl s, trivial⟩

/-! ## The thread -/

theorem late_of_running {phase : Phase} (h : phase.running = true) : phase.late = 0 := by
  cases phase with
  | failing | stopped | failActive | drainQueued | drainQueuedControls | failAborts | ended => cases h
  | _ => rfl

theorem marks_threadStep (reply : Reply) (h : s.Marks) : (s.threadStep reply).Marks := by
  have hframe := frame_threadStep reply s
  have hmarked : ∀ {r}, s.Marked r → (s.threadStep reply).Marked r := fun hr =>
    ⟨hframe.nextRequest ▸ hr.known, hframe.cancels _ hr.cancelled⟩
  exact ⟨fun abort hin => hmarked (h.aborts abort (hframe.aborts hin)), fun task hin =>
    backed_mono (h.clients task (hframe.clients ▸ hin)) hframe.nextRequest.ge hmarked
      hframe.closing.trans⟩

/-- A step of the loop stops the thread when it is told to. -/
theorem stops_running (reply : Reply) (h : s.Stops) (hrun : s.phase.running = true) :
    (s.threadStep reply).Stops := by
  have hloops := loops_threadStep reply hrun
  have hclosing : s.Told → (s.threadStep reply).closing = true := fun ht =>
    hloops.closing.trans (h.told ht)
  have hstep : (s.threadStep reply).phase.late = 0 ∨
      (s.threadStep reply).phase = .stopped ∧ (s.threadStep reply).closing = true := by
    rcases hloops.phase with hlate | hsame | ⟨hstopped, ht⟩
    · exact Or.inl hlate
    · rw [hsame]
      exact Or.inl (late_of_running hrun)
    · exact Or.inr ⟨hstopped, hclosing ht⟩
  have hearly : (s.threadStep reply).phase.late ≤ 1 := by
    rcases hstep with hlate | ⟨hstopped, -⟩
    · omega
    · rw [hstopped, Phase.late]
  refine ⟨fun ht => hclosing (hloops.told ht), fun hlate => ?_, fun hlate => by omega,
    fun hlate => by omega⟩
  rcases hstep with hzero | ⟨-, hclosed⟩
  · omega
  · exact Or.inl hclosed

theorem Stops.at (n : Nat) (hlate : t.phase.late = n) (told : t.Told → t.closing = true)
    (stopped : 1 ≤ n → t.closing = true ∨ t.failed = true) (inactive : 2 ≤ n → t.active.values = [])
    (drained : 3 ≤ n → t.pending.filterMap PendingItem.request? = []) : t.Stops := by
  subst hlate
  exact ⟨told, stopped, inactive, drained⟩

theorem stops_threadStep (reply : Reply) (h : s.Stops) : (s.threadStep reply).Stops := by
  have hframe := frame_threadStep reply s
  have htold : (s.threadStep reply).Told → (s.threadStep reply).closing = true := fun ht =>
    hframe.closing.trans (h.told (hframe.told ht))
  have hwhy : s.closing = true ∨ s.failed = true →
      (s.threadStep reply).closing = true ∨ (s.threadStep reply).failed = true :=
    Or.imp hframe.closing.trans hframe.failed
  cases hrun : s.phase.running with
  | true => exact stops_running reply h hrun
  | false =>
    generalize ht : s.threadStep reply = t at htold hwhy ⊢
    obtain ⟨-, hstopped, hinactive, hdrained⟩ := h
    unfold threadStep at ht
    split at ht <;> rename_i hphase <;> rw [hphase] at hrun hstopped hinactive hdrained <;>
      try cases hrun
    -- failing
    · split at ht <;> subst ht
      · exact Stops.at 0 (by rw [hphase]; rfl) htold (fun hn => by omega) (fun hn => by omega)
          fun hn => by omega
      · exact Stops.at 1 rfl htold (fun _ => Or.inr rfl) (fun hn => by omega) fun hn => by omega
    -- stopped
    · split at ht <;> subst ht
      · exact Stops.at 1 (by rw [hphase]; rfl) htold (fun _ => hwhy (hstopped le_rfl))
          (fun hn => by omega) fun hn => by omega
      · exact Stops.at 1 rfl htold (fun _ => hwhy (hstopped le_rfl)) (fun hn => by omega)
          fun hn => by omega
    -- failActive
    · unfold failActive at ht
      split at ht <;> subst ht
      · rename_i hnone
        refine Stops.at 2 rfl htold (fun _ => hwhy (hstopped le_rfl)) (fun _ => ?_) fun hn => by omega
        show s.active.entries.map Sigma.snd = []
        rw [List.getLast?_eq_none_iff.mp hnone, List.map_nil]
      · exact Stops.at 1 (by simp [hphase, Phase.late]) htold (fun _ => hwhy (hstopped le_rfl))
          (fun hn => by omega) fun hn => by omega
    -- drainQueued
    · have hclosed := hwhy (hstopped (by decide))
      unfold drainQueued at ht
      split at ht <;> subst ht
      · refine Stops.at 3 rfl htold (fun _ => hclosed) (fun _ => hinactive le_rfl) fun _ => ?_
        rw [goto_pending, ‹s.pending = []›, List.filterMap_nil]
      · exact Stops.at 2 (by rw [onHandle_phase, hphase]; rfl) htold (fun _ => hclosed)
          (fun _ => hinactive le_rfl) fun hn => by omega
      · exact Stops.at 2 (by rw [hphase]; rfl) htold (fun _ => hclosed)
          (fun _ => hinactive le_rfl) fun hn => by omega
    -- drainQueuedControls
    · have hclosed := hwhy (hstopped (by decide))
      split at ht <;> subst ht
      · exact Stops.at 3 rfl htold (fun _ => hclosed) (fun _ => hinactive (by decide))
          fun _ => hdrained le_rfl
      · exact Stops.at 3 (by rw [hphase]; rfl) htold (fun _ => hclosed)
          (fun _ => hinactive (by decide)) fun _ => hdrained le_rfl
    -- failAborts
    · have hclosed := hwhy (hstopped (by decide))
      unfold failAbort at ht
      split at ht <;> subst ht
      · exact Stops.at 3 rfl htold (fun _ => hclosed) (fun _ => hinactive (by decide))
          fun _ => hdrained le_rfl
      · exact Stops.at 3 (by rw [onHandle_phase, hphase]; rfl) htold (fun _ => hclosed)
          (fun _ => hinactive (by decide)) fun _ => hdrained le_rfl
    -- ended
    · subst ht
      exact Stops.at 3 (by rw [hphase]; rfl) htold (fun _ => hwhy (hstopped (by decide)))
        (fun _ => hinactive (by decide)) fun _ => hdrained le_rfl

/-- The thread holds a lost request when it fails. -/
def Blamed (lost : Option RequestId) (s : DispatcherState) : Prop :=
  lost ≠ none → s.phase.running = false ∧ (s.phase = .failing ∨ s.failed = true)

theorem tracked_running (reply : Reply) (h : Tracked none s) (hfits : s.Fits) (hmarks : s.Marks)
    (hrun : s.phase.running = true) :
    ∃ lost, Tracked lost (s.threadStep reply) ∧ Blamed lost (s.threadStep reply) := by
  have hnone : ∀ {t : DispatcherState}, Tracked none t → ∃ lost, Tracked lost t ∧ Blamed lost t :=
    fun ht => ⟨none, ht, fun hne => absurd rfl hne⟩
  have hsome : ∀ {t : DispatcherState}, (∃ lost, Tracked lost t ∧ (lost ≠ none → t.phase = .failing)) →
      ∃ lost, Tracked lost t ∧ Blamed lost t := by
    rintro t ⟨lost, ht, hfailing⟩
    exact ⟨lost, ht, fun hne => ⟨by rw [hfailing hne]; rfl, Or.inl (hfailing hne)⟩⟩
  have hadmitting : ∀ {phase}, s.phase = phase → phase.admitting = [] → s.phase.admitting = [] :=
    fun heq hadm => by rw [heq, hadm]
  unfold threadStep
  split <;> rename_i hphase <;> rw [hphase] at hrun <;> try cases hrun
  · exact hnone (h.silent (quiet_drainControl _ reply s).toFrame
      (silent_drainControl _ reply (hadmitting hphase rfl)))
  · exact hnone (h.silent (quiet_prune reply s).toFrame (silent_prune reply (hadmitting hphase rfl)))
  · exact hnone (tracked_drainAbort _ _ reply h (hadmitting hphase rfl) hmarks.aborts)
  · exact hnone (h.silent (quiet_waitPending s).toFrame
      (silent_waitPending (hadmitting hphase rfl)))
  · exact hnone (h.silent (quiet_drainPending s).toFrame
      (silent_drainPending (hadmitting hphase rfl)))
  · exact hsome (tracked_admitRequest reply h hfits hphase)
  · exact hnone (h.silent (loops_engineStep reply s).toFrame
      (silent_engineStep reply (hadmitting hphase rfl)))
  · exact hnone (h.silent (quiet_goto ⟨rfl, rfl, rfl⟩ s).toFrame
      (Silent.of_eq rfl (hadmitting hphase rfl).symm rfl fun q => SameSaid.refl q s))
  · exact hnone (tracked_publishTokenDelta _ _ _ reply h (hadmitting hphase rfl))
  · exact hnone (h.silent (quiet_nextIteration s).toFrame
      (silent_nextIteration (hadmitting hphase rfl)))
  · exact hsome (tracked_publishFinish _ _ reply h (hadmitting hphase rfl))

/-- The thread ends: each request is given an error. -/
theorem tracked_stopped (reply : Reply) (h : Tracked lost s) (hrun : s.phase.running = false) :
    Tracked lost (s.threadStep reply) := by
  have hframe := frame_threadStep reply s
  have hsilent : ∀ {t : DispatcherState}, Frame s t → t.pending = s.pending →
      t.phase.admitting = s.phase.admitting → t.active = s.active → t.handles = s.handles →
        Tracked lost t :=
    fun hf hp hphase ha hh => h.silent hf (Silent.of_eq hp hphase ha
      fun q => by rw [SameSaid, hh]; exact ⟨rfl, rfl⟩)
  generalize ht : s.threadStep reply = t at hframe ⊢
  unfold threadStep at ht
  split at ht <;> rename_i hphase <;> rw [hphase] at hrun <;> try cases hrun
  -- failing
  · split at ht <;> subst ht
    · exact h
    · exact hsilent hframe rfl (by rw [hphase]; rfl) rfl rfl
  -- stopped
  · split at ht <;> subst ht
    · exact h
    · exact hsilent hframe rfl (by rw [hphase]; rfl) rfl rfl
  -- failActive
  · unfold failActive at ht
    split at ht
    · subst ht
      exact hsilent hframe rfl (by rw [hphase]; rfl) rfl rfl
    · rename_i seqId requestId hlast
      have hactive : s.active.get? seqId = some requestId :=
        Dict.mem_entries.mp (List.mem_of_getLast? hlast)
      have herror : OutputEvent.error.isTerminal = true := rfl
      subst ht
      refine h.finish hframe hactive herror (by simp) (by simp) (by simp) (fun q hq => ?_)
        (fun hq => hq) rfl (by simp)
      simp [SameSaid, onHandle_handles_of_ne hq]
  -- drainQueued
  · unfold drainQueued at ht
    split at ht
    · subst ht
      exact hsilent hframe rfl (by rw [hphase]; rfl) rfl rfl
    · rename_i requestId pending hpending
      subst ht
      have hlive : requestId ∈ s.live := by
        refine List.mem_append_left _ (List.mem_append_left _ ?_)
        rw [hpending]
        exact List.mem_cons_self
      have hresolved := RequestHandle.resolutions_refuse (h.once requestId (h.known requestId hlive))
      refine h.leave hframe.nextRequest hframe.cancels hframe.terminal [requestId] [] ?_ (List.Perm.refl _)
        (fun _ heq => heq) (fun q hq => ?_) fun q hq => ?_
      · rw [waiting, hpending]
        exact List.Perm.refl _
      · have hne : q ≠ requestId := fun heq => hq (heq ▸ List.mem_singleton_self requestId)
        simp [SameSaid, onHandle_handles_of_ne hne]
      · rw [List.mem_singleton.mp hq, onHandle_handles_self]
        exact ⟨hresolved.le, fun _ => hresolved, Or.inl (h.ongoing requestId hlive).refuse,
          fun _ => RequestHandle.terminal_refuse _⟩
    · rename_i item pending hnot hpending
      subst ht
      refine h.silent hframe ⟨waiting_drop hpending ?_ rfl rfl, rfl, fun q => SameSaid.refl q s⟩
      cases item with
      | request requestId => exact absurd rfl (hnot requestId)
      | _ => rfl
  -- drainQueuedControls
  · split at ht <;> subst ht
    · exact hsilent hframe rfl (by rw [hphase]; rfl) rfl rfl
    · exact hsilent hframe rfl rfl rfl rfl
  -- failAborts
  · unfold failAbort at ht
    split at ht <;> subst ht
    · exact hsilent hframe rfl (by rw [hphase]; rfl) rfl rfl
    · exact h.silent hframe (Silent.of_eq rfl rfl rfl (sameSaid_setTerminal rfl rfl))
  -- ended
  · subst ht
    exact h

/-! ## Whole runs -/

/-- The invariant of the dispatcher. -/
structure Accounted (s : DispatcherState) : Prop where
  fits : s.phase.running = true → s.Fits
  marks : s.Marks
  stops : s.Stops
  tracked : ∃ lost, Tracked lost s ∧ Blamed lost s

theorem accounted_threadStep (reply : Reply) (h : s.Accounted) : (s.threadStep reply).Accounted := by
  refine ⟨fits_threadStep reply h.fits, marks_threadStep reply h.marks,
    stops_threadStep reply h.stops, ?_⟩
  obtain ⟨lost, htracked, hblamed⟩ := h.tracked
  cases hrun : s.phase.running with
  | true =>
    obtain rfl : lost = none := by
      by_contra hne
      rw [(hblamed hne).1] at hrun
      cases hrun
    exact tracked_running reply htracked (h.fits hrun) h.marks hrun
  | false =>
    refine ⟨lost, tracked_stopped reply htracked hrun, fun hne =>
      ⟨threadStep_stopped reply hrun, ?_⟩⟩
    rcases (hblamed hne).2 with hfailing | hfailed
    · unfold threadStep
      rw [hfailing]
      dsimp only
      split
      · exact Or.inl hfailing
      · exact Or.inr rfl
    · exact Or.inr ((frame_threadStep reply s).failed hfailed)

/-- A client call keeps the invariant. -/
theorem Accounted.serves {clients : List ClientTask} (h : s.Accounted) (hserves : Serves s t)
    (hclients : ∀ task ∈ clients, task.Backed t)
    (hfits : t.phase.running = true → { t with clients := clients }.Fits) :
    { t with clients := clients }.Accounted := by
  obtain ⟨lost, htracked, hblamed⟩ := h.tracked
  have htold : t.Told → s.closing = true := by
    rintro (hs | hp)
    · exact h.stops.told (Or.inl (hserves.stopping ▸ hs))
    · rcases hserves.stop hp with hp | hc
      · exact h.stops.told (Or.inr hp)
      · exact hc
  refine ⟨hfits, ⟨fun abort hin => ?_, fun task hin => ?_⟩,
    Stops.at s.phase.late (congrArg Phase.late hserves.phase) (fun ht => hserves.closing (htold ht))
      (fun hn => (h.stops.stopped hn).imp hserves.closing hserves.failed.trans) (fun hn => ?_)
      (fun hn => hserves.pending.trans (h.stops.drained hn)), lost, ?_, fun hne => ?_⟩
  · have hmarked : t.Marked abort.requestId := by
      rcases hserves.aborts abort hin with hold | hnew
      · exact (h.marks.aborts abort hold).serves hserves
      · exact hnew.serves hserves
    exact ⟨hmarked.known, hmarked.cancelled⟩
  · exact backed_mono (hclients task hin) le_rfl (fun hr => ⟨hr.known, hr.cancelled⟩) fun hc => hc
  · show t.active.values = []
    rw [hserves.active]
    exact h.stops.inactive hn
  · refine htracked.leave hserves.nextRequest hserves.cancelled
      (fun q hq => (hserves.terminal q).trans hq) [] [] ?_ ?_ (fun _ heq => heq)
      (fun q _ => hserves.said q) fun q hq => ?_
    · show s.waiting.Perm (t.pending.filterMap PendingItem.request? ++ t.phase.admitting)
      rw [hserves.pending, hserves.phase]
      exact List.Perm.refl _
    · show s.active.values.Perm t.active.values
      rw [hserves.active]
    · cases hq
  · have hb := hblamed hne
    rw [← hserves.phase, ← hserves.failed] at hb
    exact hb

theorem accounted_start {task : ClientTask} (h : s.Accounted) (hstarts : s.starts task = true) :
    { s with clients := s.clients ++ [task] }.Accounted := by
  refine h.serves (Serves.refl s) (fun other hin => ?_) fun hrun =>
    (h.fits hrun).of_eq rfl (EngineState.Shrinks.refl _) rfl
  rcases List.mem_append.mp hin with hin | hin
  · exact h.marks.clients other hin
  · rw [List.mem_singleton.mp hin]
    cases task with
    | cancel requestId | discard requestId =>
      have hknown : requestId < s.nextRequest := by simpa [starts] using hstarts
      exact hknown
    | control | close => trivial
    | _ => cases hstarts

theorem accounted_client {task : ClientTask} (index : Nat) (h : s.Accounted) (hin : task ∈ s.clients) :
    { (s.clientStep task).1 with
      clients := (s.clientStep task).1.clients.set index (s.clientStep task).2 }.Accounted := by
  obtain ⟨hserves, hbacked⟩ := clientStep_serves (h.marks.clients task hin)
  obtain ⟨hphase, hengine, hactive⟩ := clientStep_quiet task s
  refine h.serves hserves (fun other hother => ?_) fun hrun =>
    (h.fits (hphase ▸ hrun)).of_eq hphase hengine hactive
  rcases List.mem_or_eq_of_mem_set hother with hold | rfl
  · rw [hserves.clients] at hold
    exact backed_mono (h.marks.clients other hold) hserves.nextRequest.ge (fun hr => hr.serves hserves)
      hserves.closing
  · exact hbacked

theorem known_or_new (hnext : t.nextRequest = s.nextRequest + 1) {r : RequestId}
    (hr : r < t.nextRequest) : r < s.nextRequest ∨ r = s.nextRequest := by
  rw [hnext] at hr
  exact Nat.lt_succ_iff_lt_or_eq.mp hr

/-- A new request is refused at once. -/
theorem Tracked.refuse_new (h : Tracked lost s) (hnext : t.nextRequest = s.nextRequest + 1)
    (hold : ∀ r < s.nextRequest, t.handles r = s.handles r) (hactive : t.active = s.active)
    (hwaiting : t.waiting = s.waiting)
    (hnew : t.handles s.nextRequest = RequestHandle.refuse {}) : Tracked lost t := by
  have hlive : t.live = s.live := by
    rw [live, live, hwaiting, hactive]
  have hcase : ∀ {r}, r < t.nextRequest → r < s.nextRequest ∨ r = s.nextRequest :=
    known_or_new hnext
  refine ⟨hlive ▸ h.nodup, fun r hr => ?_, fun r hr => ?_, fun r hr hnot hne => ?_, fun r hr => ?_,
    fun r hr hnot => ?_, fun r hr hnot hne => ?_⟩
  · rw [hnext]
    exact Nat.lt_succ_of_lt (h.known r (hlive ▸ hr))
  · rcases hcase hr with hr | rfl
    · rw [hold r hr]
      exact h.once r hr
    · rw [hnew]
      decide
  · rcases hcase hr with hr | rfl
    · rw [hold r hr]
      exact h.admitted r hr (hwaiting ▸ hnot) hne
    · rw [hnew]
      rfl
  · rw [hold r (h.known r (hlive ▸ hr))]
    exact h.ongoing r (hlive ▸ hr)
  · rcases hcase hr with hr | rfl
    · rw [hold r hr]
      exact h.ended r hr (hlive ▸ hnot)
    · rw [hnew]
      exact Or.inl ⟨[], .error, rfl, fun event hin => (by cases hin), rfl⟩
  · rcases hcase hr with hr | rfl
    · rw [hold r hr]
      exact h.terminal r hr (hlive ▸ hnot) hne
    · rw [hnew]
      rfl

/-- A new request waits. -/
theorem Tracked.wait_new (h : Tracked lost s) (hnext : t.nextRequest = s.nextRequest + 1)
    (hold : ∀ r < s.nextRequest, t.handles r = s.handles r) (hactive : t.active = s.active)
    (hwaiting : t.waiting.Perm (s.nextRequest :: s.waiting))
    (hnew : t.handles s.nextRequest = {}) : Tracked lost t := by
  have hlive : t.live.Perm (s.nextRequest :: s.live) := by
    rw [live, live, hactive]
    exact hwaiting.append_right _
  have hcase : ∀ {r}, r ∈ t.live → r ∈ s.live ∧ r < s.nextRequest ∨ r = s.nextRequest := by
    intro r hr
    rcases List.mem_cons.mp (hlive.mem_iff.mp hr) with rfl | hin
    · exact Or.inr rfl
    · exact Or.inl ⟨hin, h.known r hin⟩
  have hother : ∀ {r}, r < t.nextRequest → r ∉ t.waiting → r < s.nextRequest := by
    intro r hr hnot
    refine (known_or_new hnext hr).resolve_right fun heq => ?_
    exact hnot (hwaiting.mem_iff.mpr (heq ▸ List.mem_cons_self))
  refine ⟨hlive.nodup_iff.mpr (List.nodup_cons.mpr ⟨fun hin => ?_, h.nodup⟩), fun r hr => ?_,
    fun r hr => ?_, fun r hr hnot hne => ?_, fun r hr => ?_, fun r hr hnot => ?_,
    fun r hr hnot hne => ?_⟩
  · exact Nat.lt_irrefl _ (h.known _ hin)
  · rw [hnext]
    rcases hcase hr with ⟨-, hr⟩ | rfl
    · exact Nat.lt_succ_of_lt hr
    · exact Nat.lt_succ_self _
  · rcases known_or_new hnext hr with hr | rfl
    · rw [hold r hr]
      exact h.once r hr
    · rw [hnew]
      exact Nat.zero_le 1
  · have hr' := hother hr hnot
    rw [hold r hr']
    exact h.admitted r hr' (fun hin => hnot (hwaiting.mem_iff.mpr (List.mem_cons_of_mem _ hin))) hne
  · rcases hcase hr with ⟨hin, hr⟩ | rfl
    · rw [hold r hr]
      exact h.ongoing r hin
    · rw [hnew]
      intro event hin
      cases hin
  · have hr' := hother hr fun hin => hnot (List.mem_append_left _ hin)
    rw [hold r hr']
    exact h.ended r hr' fun hin => hnot (hlive.mem_iff.mpr (List.mem_cons_of_mem _ hin))
  · have hr' := hother hr fun hin => hnot (List.mem_append_left _ hin)
    rw [hold r hr']
    exact h.terminal r hr' (fun hin => hnot (hlive.mem_iff.mpr (List.mem_cons_of_mem _ hin))) hne

/-- What `submit` leaves alone. -/
theorem accounted_new (h : s.Accounted) (hnext : t.nextRequest = s.nextRequest + 1)
    (hold : ∀ r < s.nextRequest, t.handles r = s.handles r) (hphase : t.phase = s.phase)
    (hengine : t.engine = s.engine) (hactive : t.active = s.active) (haborts : t.aborts = s.aborts)
    (hclients : t.clients = s.clients) (hclosing : t.closing = s.closing)
    (hfailed : t.failed = s.failed) (hstopping : t.stopping = s.stopping)
    (hstop : .stop ∈ t.pending → .stop ∈ s.pending)
    (hdrained : 3 ≤ s.phase.late → t.pending.filterMap PendingItem.request? = [])
    (htracked : ∀ lost, Tracked lost s → Tracked lost t) : t.Accounted := by
  have hmarked : ∀ {r}, s.Marked r → t.Marked r := fun {r} hr =>
    ⟨by rw [hnext]; exact Nat.lt_succ_of_lt hr.known, by rw [hold r hr.known]; exact hr.cancelled⟩
  obtain ⟨lost, hlost, hblamed⟩ := h.tracked
  refine ⟨fun hrun => (h.fits (hphase ▸ hrun)).of_eq hphase (hengine ▸ EngineState.Shrinks.refl _)
    hactive, ⟨fun abort hin => hmarked (h.marks.aborts abort (haborts ▸ hin)), fun task hin => ?_⟩,
    Stops.at s.phase.late (congrArg Phase.late hphase) (fun ht => ?_) (fun hn => ?_) (fun hn => ?_)
      hdrained, lost, htracked lost hlost, fun hne => ?_⟩
  · exact backed_mono (h.marks.clients task (hclients ▸ hin)) (hnext ▸ Nat.le_succ s.nextRequest)
      hmarked hclosing.trans
  · rw [hclosing]
    exact h.stops.told (ht.imp hstopping.symm.trans hstop)
  · rw [hclosing, hfailed]
    exact h.stops.stopped hn
  · rw [hactive]
    exact h.stops.inactive hn
  · rw [hphase, hfailed]
    exact hblamed hne

theorem accounted_submit (chainId : Option Nat) (h : s.Accounted) : (s.submit chainId).Accounted := by
  have hold : ∀ {r}, r < s.nextRequest →
      (if r = s.nextRequest then ({} : RequestHandle) else s.handles r) = s.handles r :=
    fun hr => if_neg (Nat.ne_of_lt hr)
  unfold submit
  split
  · exact h
  dsimp only
  split
  · have hthis : ∀ r < s.nextRequest, (onHandle s.nextRequest RequestHandle.refuse
        { s with
          nextRequest := s.nextRequest + 1
          handles := fun other => if other = s.nextRequest then {} else s.handles other
          wantedChain := fun other => if other = s.nextRequest then chainId else s.wantedChain other
        }).handles r = s.handles r := by
      intro r hr
      rw [onHandle_handles_of_ne (Nat.ne_of_lt hr)]
      exact hold hr
    refine accounted_new h rfl hthis rfl rfl rfl rfl rfl rfl rfl rfl (fun hin => hin)
      h.stops.drained fun lost hlost => hlost.refuse_new rfl hthis rfl rfl ?_
    rw [onHandle_handles_self]
    simp
  · rename_i hopen
    have hrefuses : ¬(s.closing = true ∨ s.failed = true) := by
      intro hwhy
      refine hopen ?_
      unfold refuses
      rcases hwhy with hc | hf
      · simp [hc]
      · simp [hf]
    refine accounted_new h rfl (fun r hr => hold hr) rfl rfl rfl rfl rfl rfl rfl rfl (fun hin => ?_)
      (fun hn => ?_) fun lost hlost => hlost.wait_new rfl (fun r hr => hold hr) rfl ?_ (if_pos rfl)
    · rcases List.mem_append.mp hin with hin | hin
      · exact hin
      · cases List.mem_singleton.mp hin
    · exact absurd (h.stops.stopped (by omega)) hrefuses
    · show ((s.pending ++ [PendingItem.request s.nextRequest]).filterMap PendingItem.request? ++ _).Perm
        (_ :: (_ ++ _))
      rw [List.filterMap_append, List.append_assoc]
      exact List.perm_middle

theorem accounted_exec (op : Op) (h : s.Accounted) : (exec op s).Accounted := by
  cases op with
  | submit chainId => exact accounted_submit chainId h
  | start task =>
    simp only [exec]
    split
    · exact accounted_start h ‹_›
    · exact h
  | client index =>
    simp only [exec]
    split
    · exact h
    · exact accounted_client index h (List.mem_of_getElem? ‹_›)
  | thread reply => exact accounted_threadStep reply h

theorem accounted_initial (chainMode : Bool) : (initial chainMode).Accounted where
  fits _ := fits_initial chainMode
  marks := by
    refine ⟨fun abort hin => ?_, fun task hin => ?_⟩
    · cases hin
    · cases hin
  stops := Stops.at 0 rfl (fun ht => by rcases ht with ht | ht <;> cases ht) (fun hn => by omega)
    (fun hn => by omega) fun hn => by omega
  tracked := by
    refine ⟨none, ⟨List.nodup_nil, ?_, ?_, ?_, ?_, ?_, ?_⟩, fun hne => absurd rfl hne⟩ <;>
      · intro r hr
        cases hr

/-- **Requests end once.** After every interleaving of client calls, engine replies and exceptions, a
request has at most one terminal event, and nothing after it. When the thread has ended, each request has
had its admission resolved once, and has a terminal event if it was not cancelled; but for at most one
request, and for none if the thread has not failed. -/
theorem requests_end (chainMode : Bool) (ops : List Op) :
    let s := runAll exec (initial chainMode) ops
    (∀ r < s.nextRequest, (s.handles r).resolutions ≤ 1 ∧
      (Ongoing (s.handles r).outputQueue ∨ Complete (s.handles r).outputQueue)) ∧
    (s.phase = .ended → ∃ lost : Option RequestId, (lost ≠ none → s.failed = true) ∧
      ∀ r < s.nextRequest, lost ≠ some r → (s.handles r).resolutions = 1 ∧
        ((s.handles r).cancelled = true ∨ Complete (s.handles r).outputQueue)) := by
  intro s
  have h : s.Accounted := runAll_invariant (fun _ op ht => accounted_exec op ht) ops
    (accounted_initial chainMode)
  obtain ⟨lost, htracked, hblamed⟩ := h.tracked
  refine ⟨fun r hr => ⟨htracked.once r hr, ?_⟩, fun hended => ⟨lost, fun hne => ?_, fun r hr hne => ?_⟩⟩
  · by_cases hlive : r ∈ s.live
    · exact Or.inl (htracked.ongoing r hlive)
    · rcases htracked.ended r hr hlive with hcomplete | ⟨hongoing, -⟩
      · exact Or.inr hcomplete
      · exact Or.inl hongoing
  · rcases (hblamed hne).2 with hfailing | hfailed
    · rw [hended] at hfailing
      cases hfailing
    · exact hfailed
  · have hlate : s.phase.late = 3 := by
      rw [hended]
      rfl
    have hwaiting : s.waiting = [] := by
      rw [waiting, h.stops.drained hlate.ge, hended]
      rfl
    have hlive : s.live = [] := by
      rw [live, hwaiting, h.stops.inactive (by omega), List.append_nil]
    refine ⟨htracked.admitted r hr (by rw [hwaiting]; exact List.not_mem_nil) hne, ?_⟩
    rcases htracked.ended r hr (by rw [hlive]; exact List.not_mem_nil) with hcomplete | ⟨-, hwhy⟩
    · exact Or.inr hcomplete
    · exact Or.inl (hwhy.resolve_right hne)

/-- Two requests; the text of the first raises at its end, and a third one comes too late. -/
def failedRun : List Op :=
  [.submit none, .submit none] ++ List.replicate 18 (.thread {}) ++
    [.thread { tokenOutputs := [0, 1], finishedOutputs := [0] }, .thread { emits := true },
      .thread { emits := true }, .thread {}, .thread { textRaises := true }] ++
    List.replicate 10 (.thread {}) ++ [.submit none]

/-- The first request is the one without a terminal event. -/
theorem requests_end_failedRun :
    Ongoing ((runAll exec (initial false) failedRun).handles 0).outputQueue ∧
      Complete ((runAll exec (initial false) failedRun).handles 1).outputQueue ∧
        Complete ((runAll exec (initial false) failedRun).handles 2).outputQueue := by
  have hended : (runAll exec (initial false) failedRun).phase = .ended := by decide
  obtain ⟨lost, -, hthree⟩ := (requests_end false failedRun).2 hended
  have hfirst : ((runAll exec (initial false) failedRun).handles 0).outputQueue = [.token] := by decide
  have hongoing : Ongoing ((runAll exec (initial false) failedRun).handles 0).outputQueue := by
    rw [hfirst]
    unfold Ongoing
    decide
  have hlost : lost = some 0 := by
    by_contra hne
    rcases (hthree 0 (by decide) hne).2 with hcancelled | ⟨events, last, hqueue, -, hlast⟩
    · revert hcancelled
      decide
    · rw [hongoing last (by rw [hqueue]; exact List.mem_append_right _ (List.mem_singleton_self _))]
        at hlast
      cases hlast
  subst hlost
  exact ⟨hongoing, (hthree 1 (by decide) (by decide)).2.resolve_left (by decide),
    (hthree 2 (by decide) (by decide)).2.resolve_left (by decide)⟩

end DispatcherState

end SparseVllm.Dispatcher
