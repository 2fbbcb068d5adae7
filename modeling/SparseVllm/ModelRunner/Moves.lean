import SparseVllm.ModelRunner.Rpc

/-!
# The moves of a rank

`Moves` says once what a process can do in a call, and `Acts` adds the reading of a command. From them:
the phases a rank can be in, with the outcome of each call (`PhaseOk`, `RpcCall.raises`), and the
collectives it has entered in each phase (`ScriptsOk`).
-/

namespace SparseVllm

open SparseVllm.Lib

variable {cfg : TpConfig} {calls : List RpcCall} {s t : TpState} {rank : Nat}

/-! ## The moves of a process -/

/-- The process of a worker does not survive the call. -/
def ProcessEnds (cfg : TpConfig) (call : RpcCall) (rank : Nat) (raised : Bool) : Prop :=
  (raised = true ∧ (call.method ∉ RpcMethod.recoverableTpControl ∨ call.escapes cfg rank = true)) ∨
    call.method = .exit

/-- What a process does in a call. -/
inductive Moves (cfg : TpConfig) (s : TpState) (call : RpcCall) (rank : Nat) :
    TpPhase → TpEffect → TpPhase → Prop where
  | alone {n : Nat} (world : cfg.worldSize ≤ 1) : Moves cfg s call rank (.ready n) .quiet (.body n 0)
  | write {n : Nat} (world : 1 < cfg.worldSize) :
    Moves cfg s call rank (.ready n) (.writeCommand n) (.clearing n 1)
  | clear {n w : Nat} (worker : w < cfg.worldSize) :
    Moves cfg s call rank (.clearing n w) (.clearCompletion w) (.pending n w)
  | pend {n w : Nat} : Moves cfg s call rank (.pending n w) (.setPending w) (.commanding n w)
  | command {n w : Nat} :
    Moves cfg s call rank (.commanding n w) (.setCommand w) (.clearing n (w + 1))
  | wait {n w : Nat} (all : cfg.worldSize ≤ w)
    (sync : statusSync cfg call.method = .unsynchronized) :
    Moves cfg s call rank (.clearing n w) .quiet (.acking n 1)
  | begin {n w : Nat} (all : cfg.worldSize ≤ w)
    (sync : statusSync cfg call.method ≠ .unsynchronized) :
    Moves cfg s call rank (.clearing n w) .quiet (.body n 0)
  | ack {n w : Nat} (worker : w < cfg.worldSize) (event : s.commandEvent w = false) :
    Moves cfg s call rank (.acking n w) .quiet (.acking n (w + 1))
  | acked {n w : Nat} (all : cfg.worldSize ≤ w) :
    Moves cfg s call rank (.acking n w) .quiet (.body n 0)
  | enterBody {n i : Nat} (more : i < call.bodyEnters rank) :
    Moves cfg s call rank (.body n i) (.enter (.body n i) 0) (.inBody n i)
  | leaveBody {n i : Nat} {values : List Nat} (met : gathered cfg s rank = some values) :
    Moves cfg s call rank (.inBody n i) .quiet (.body n (i + 1))
  | unsynchronized {n i : Nat} (bodyDone : call.bodyEnters rank ≤ i)
    (sync : statusSync cfg call.method = .unsynchronized) :
    Moves cfg s call rank (.body n i) .quiet (.returned n (call.localError rank))
  | synchronize {n i : Nat} (bodyDone : call.bodyEnters rank ≤ i)
    (sync : statusSync cfg call.method ≠ .unsynchronized) :
    Moves cfg s call rank (.body n i) .quiet (.syncing n)
  | single {n : Nat} (world : cfg.worldSize ≤ 1) :
    Moves cfg s call rank (.syncing n) .quiet (afterStatus call rank n)
  | flag {n : Nat} (world : 1 < cfg.worldSize) (sync : statusSync cfg call.method = .host)
    (worker : 0 < rank) : Moves cfg s call rank (.syncing n)
      (.setStatus rank ⟨if call.hostError rank then .failed else .success, some n⟩) (.flagged n)
  | complete {n : Nat} : Moves cfg s call rank (.flagged n) (.setCompletion rank)
      (.returned n (call.hostError rank))
  | collect {n : Nat} (world : 1 < cfg.worldSize) (sync : statusSync cfg call.method = .host)
    (caller : rank = 0) : Moves cfg s call rank (.syncing n) .quiet (.collecting n 1 false)
  | completed {n w : Nat} {failed : Bool} (worker : w < cfg.worldSize)
    (event : s.completionEvent w = true) :
    Moves cfg s call rank (.collecting n w failed) .quiet (.reading n w failed)
  | readStatus {n w : Nat} {failed : Bool} :
    Moves cfg s call rank (.reading n w failed) .quiet (.taken n w failed (s.runStatus w).value)
  | takeFailed {n w : Nat} {failed : Bool} : Moves cfg s call rank (.taken n w failed .failed)
      (.clearCompletion w) (.collecting n (w + 1) true)
  | takeSuccess {n w : Nat} {failed : Bool} : Moves cfg s call rank (.taken n w failed .success)
      (.clearCompletion w) (.collecting n (w + 1) failed)
  | takePending {n w : Nat} {failed : Bool} : Moves cfg s call rank (.taken n w failed .pending)
      (.clearCompletion w) (.returned n true)
  | collected {n w : Nat} {failed : Bool} (all : cfg.worldSize ≤ w) :
    Moves cfg s call rank (.collecting n w failed) .quiet
      (.returned n (call.hostError rank || failed))
  | enterStatus {n : Nat} (world : 1 < cfg.worldSize) (sync : statusSync cfg call.method ≠ .host) :
    Moves cfg s call rank (.syncing n)
      (.enter (.status n) (if call.localError rank then 1 else 0)) (.inStatus n)
  | leaveStatus {n : Nat} {values : List Nat} (met : gathered cfg s rank = some values) :
    Moves cfg s call rank (.inStatus n) .quiet
      (if values.foldr max 0 ≠ 0 then .returned n true else afterStatus call rank n)
  | keepResult {n : Nat} (world : cfg.worldSize ≤ 1) :
    Moves cfg s call rank (.gathering n) .quiet (.returned n false)
  | enterResult {n : Nat} (world : 1 < cfg.worldSize) :
    Moves cfg s call rank (.gathering n) (.enter (.result n) (call.result rank)) (.inResult n)
  | leaveResult {n : Nat} {values : List Nat} (met : gathered cfg s rank = some values) :
    Moves cfg s call rank (.inResult n) .quiet
      (.returned n (values.tail.any fun value => some value != values.head?))
  | next {n : Nat} {raised : Bool} (caller : rank = 0) :
    Moves cfg s call rank (.returned n raised) (.finish raised) (.ready (n + 1))
  | die {n : Nat} {raised : Bool} (worker : rank ≠ 0)
    (ends : ProcessEnds cfg call rank raised) :
    Moves cfg s call rank (.returned n raised) (.finish raised) (.gone (n + 1))
  | loop {n : Nat} {raised : Bool} (worker : rank ≠ 0)
    (survives : ¬ ProcessEnds cfg call rank raised) :
    Moves cfg s call rank (.returned n raised) (.finish raised) (.idle (n + 1))

theorem stepInCall_moves {call : RpcCall} {phase phase' : TpPhase} {effect : TpEffect}
    (h : stepInCall cfg s call rank phase = some (effect, phase')) :
    Moves cfg s call rank phase effect phase' := by
  cases phase with
  | ready n =>
    unfold stepInCall at h
    simp only at h
    split at h
    · next hworld =>
      cases h
      exact .alone hworld
    · next hworld =>
      cases h
      exact .write (Nat.not_le.mp hworld)
  | clearing n w =>
    unfold stepInCall writeShm at h
    simp only at h
    split at h
    · next hworker =>
      cases h
      exact .clear hworker
    · next hall =>
      split at h
      · next hsync =>
        cases h
        exact .wait (Nat.not_lt.mp hall) hsync
      · next hsync =>
        cases h
        exact .begin (Nat.not_lt.mp hall) hsync
  | pending n w =>
    cases h
    exact .pend
  | commanding n w =>
    cases h
    exact .command
  | acking n w =>
    unfold stepInCall writeShm at h
    simp only at h
    split at h
    · next hworker =>
      split at h
      · cases h
      · next hevent =>
        cases h
        exact .ack hworker (eq_false_of_ne_true hevent)
    · next hall =>
      cases h
      exact .acked (Nat.not_lt.mp hall)
  | idle n | woken n | loaded n => cases h
  | body n i =>
    unfold stepInCall runBody at h
    simp only at h
    split at h
    · next hmore =>
      cases h
      exact .enterBody hmore
    · next hover =>
      split at h
      · next hsync =>
        cases h
        exact .unsynchronized (Nat.not_lt.mp hover) hsync
      · next hsync =>
        cases h
        exact .synchronize (Nat.not_lt.mp hover) hsync
  | inBody n i =>
    unfold stepInCall runBody at h
    obtain ⟨values, hmet, hout⟩ := Option.map_eq_some_iff.mp h
    cases hout
    exact .leaveBody hmet
  | syncing n =>
    unfold stepInCall at h
    simp only at h
    split at h
    · next hsync =>
      unfold syncTpHostStatus at h
      simp only at h
      split at h
      · next hworld =>
        cases h
        exact .single hworld
      · next hworld =>
        split at h
        · next hworker =>
          cases h
          exact .flag (Nat.not_le.mp hworld) hsync hworker
        · next hcaller =>
          cases h
          exact .collect (Nat.not_le.mp hworld) hsync (Nat.eq_zero_of_not_pos hcaller)
    · next hsync =>
      unfold syncTpRpcStatus at h
      simp only at h
      split at h
      · next hworld =>
        cases h
        exact .single hworld
      · next hworld =>
        cases h
        exact .enterStatus (Nat.not_le.mp hworld) hsync
  | flagged n =>
    cases h
    exact .complete
  | collecting n w failed =>
    unfold stepInCall syncTpHostStatus at h
    simp only at h
    split at h
    · next hworker =>
      split at h
      · next hevent =>
        cases h
        exact .completed hworker hevent
      · cases h
    · next hall =>
      cases h
      exact .collected (Nat.not_lt.mp hall)
  | reading n w failed =>
    cases h
    exact .readStatus
  | taken n w failed status =>
    cases status with
    | failed =>
      cases h
      exact .takeFailed
    | success =>
      cases h
      exact .takeSuccess
    | pending =>
      cases h
      exact .takePending
  | inStatus n =>
    unfold stepInCall syncTpRpcStatus worldAllReduceMax at h
    simp only [Option.map_map] at h
    obtain ⟨values, hmet, hout⟩ := Option.map_eq_some_iff.mp h
    cases hout
    exact .leaveStatus hmet
  | gathering n =>
    unfold stepInCall syncResult at h
    simp only at h
    split at h
    · next hworld =>
      cases h
      exact .keepResult hworld
    · next hworld =>
      cases h
      exact .enterResult (Nat.not_le.mp hworld)
  | inResult n =>
    unfold stepInCall syncResult at h
    obtain ⟨values, hmet, hout⟩ := Option.map_eq_some_iff.mp h
    cases hout
    exact .leaveResult hmet
  | returned n raised =>
    unfold stepInCall endCall at h
    simp only at h
    split at h
    · next hcaller =>
      cases h
      exact .next hcaller
    · next hworker =>
      split at h
      · next hends =>
        cases h
        exact .die hworker (Or.inl hends)
      · next hsurvives =>
        split at h
        · next hexit =>
          cases h
          exact .die hworker (Or.inr hexit)
        · next hstays =>
          cases h
          exact .loop hworker (not_or.mpr ⟨hsurvives, hstays⟩)
  | gone n => cases h

/-- What a process does: a worker reads, or it moves in its call. -/
inductive Acts (cfg : TpConfig) (calls : List RpcCall) (s : TpState) (rank : Nat) :
    TpPhase → TpEffect → TpPhase → Prop where
  | wake {n : Nat} (event : s.commandEvent rank = true) :
    Acts cfg calls s rank (.idle n) .quiet (.woken n)
  | load {n m : Nat} (command : s.buffer = some m) :
    Acts cfg calls s rank (.woken n) .quiet (.loaded m)
  | read {n : Nat} : Acts cfg calls s rank (.loaded n) (.clearCommand rank) (.body n 0)
  | inCall {call : RpcCall} {phase phase' : TpPhase} {effect : TpEffect}
    (get : calls[phase.call]? = some call) (moves : Moves cfg s call rank phase effect phase') :
    Acts cfg calls s rank phase effect phase'

theorem step_acts (h : s.step cfg calls rank = some t) :
    ∃ effect phase, Acts cfg calls s rank (s.phase rank) effect phase ∧
      t = s.apply rank effect phase := by
  unfold TpState.step at h
  obtain ⟨⟨effect, phase⟩, hnext, rfl⟩ := Option.map_eq_some_iff.mp h
  refine ⟨effect, phase, ?_, rfl⟩
  unfold TpState.next at hnext
  split at hnext
  · next n hphase =>
    unfold readShm at hnext
    simp only at hnext
    split at hnext
    · next hevent =>
      cases hnext
      exact hphase ▸ .wake hevent
    · cases hnext
  · next n hphase =>
    unfold readShm at hnext
    obtain ⟨m, hbuffer, hout⟩ := Option.map_eq_some_iff.mp hnext
    cases hout
    exact hphase ▸ .load hbuffer
  · next n hphase =>
    cases hnext
    exact hphase ▸ .read
  · obtain ⟨call, hget, hcall⟩ := Option.bind_eq_some_iff.mp hnext
    exact .inCall hget (stepInCall_moves hcall)

/-! ## The collectives of a rank -/

section Scripts

variable (cfg : TpConfig) (calls : List RpcCall) (rank : Nat)

/-- No body raises. -/
def RpcCall.AllSucceed (call : RpcCall) : Prop :=
  ∀ other < cfg.worldSize, call.localError other = false

instance (call : RpcCall) : Decidable (call.AllSucceed cfg) :=
  inferInstanceAs (Decidable (∀ other < cfg.worldSize, call.localError other = false))

/-- The results are compared. -/
def RpcCall.Compares (call : RpcCall) : Prop :=
  statusSync cfg call.method = .rpc ∧ 1 < cfg.worldSize ∧ call.method ∈ RpcMethod.resultSync ∧
    call.AllSucceed cfg

instance (call : RpcCall) : Decidable (call.Compares cfg) :=
  inferInstanceAs (Decidable (_ ∧ _ ∧ _ ∧ _))

def bodyScript (n entered : Nat) : List Collective :=
  (List.range entered).map (.body n)

def statusScript (n : Nat) (call : RpcCall) : List Collective :=
  if statusSync cfg call.method = .rpc ∧ 1 < cfg.worldSize then [.status n] else []

def resultScript (n : Nat) (call : RpcCall) : List Collective :=
  if call.Compares cfg then [.result n] else []

/-- The collectives of a call. -/
def callScript (n : Nat) (call : RpcCall) : List Collective :=
  bodyScript n (call.bodyEnters rank) ++ statusScript cfg n call ++ resultScript cfg n call

/-- The collectives of the calls before the one of that number. -/
def pastScript : Nat → List Collective
  | 0 => []
  | n + 1 => pastScript n ++ calls[n]?.elim [] (callScript cfg rank n)

/-- The collectives of a call up to a phase of it. -/
def presentScript (call : RpcCall) : TpPhase → List Collective
  | .body n entered => bodyScript n entered
  | .inBody n index => bodyScript n (index + 1)
  | .syncing n | .flagged n | .collecting n _ _ | .reading n _ _ | .taken n _ _ _ =>
    bodyScript n (call.bodyEnters rank)
  | .inStatus n | .gathering n => bodyScript n (call.bodyEnters rank) ++ statusScript cfg n call
  | .inResult n | .returned n _ => callScript cfg rank n call
  | _ => []

/-- The collectives a rank has entered when it is in a phase. -/
def phaseScript (phase : TpPhase) : List Collective :=
  pastScript cfg calls rank phase.call ++
    calls[phase.call]?.elim [] fun call => presentScript cfg rank call phase

/-- What a rank brings to a collective. -/
def contribution : Collective → Nat
  | .body _ _ => 0
  | .status n => calls[n]?.elim 0 fun call => if call.localError rank then 1 else 0
  | .result n => calls[n]?.elim 0 fun call => call.result rank

end Scripts

/-- The outcome of a call on a rank. -/
def RpcCall.raises (cfg : TpConfig) (call : RpcCall) (rank : Nat) : Bool :=
  match statusSync cfg call.method with
  | .unsynchronized => call.localError rank
  | .host =>
    if cfg.worldSize ≤ 1 then call.localError rank
    else if rank = 0 then decide (∃ other < cfg.worldSize, call.hostError other = true)
    else call.hostError rank
  | .rpc =>
    if ¬ call.AllSucceed cfg then true
    else if call.Compares cfg then
      let results := (List.range cfg.worldSize).map call.result
      results.tail.any fun value => some value != results.head?
    else false

/-- The process of the worker ends with the call. -/
def RpcCall.Ends (cfg : TpConfig) (call : RpcCall) (rank : Nat) : Prop :=
  ProcessEnds cfg call rank (call.raises cfg rank)

/-! ## Phases -/

/-- The phases of a rank in a call. -/
def PhaseIn (cfg : TpConfig) (rank : Nat) (call : RpcCall) : TpPhase → Prop
  | .clearing _ w => rank = 0 ∧ 1 < cfg.worldSize ∧ 0 < w ∧ w ≤ cfg.worldSize
  | .pending _ w | .commanding _ w => rank = 0 ∧ 1 < cfg.worldSize ∧ 0 < w ∧ w < cfg.worldSize
  | .acking _ w => rank = 0 ∧ 1 < cfg.worldSize ∧ 0 < w ∧ w ≤ cfg.worldSize ∧
    statusSync cfg call.method = .unsynchronized
  | .body _ entered => entered ≤ call.bodyEnters rank
  | .inBody _ index => index < call.bodyEnters rank
  | .syncing _ => statusSync cfg call.method ≠ .unsynchronized
  | .flagged _ => 0 < rank ∧ 1 < cfg.worldSize ∧ statusSync cfg call.method = .host
  | .collecting _ w failed => rank = 0 ∧ 1 < cfg.worldSize ∧
    statusSync cfg call.method = .host ∧ 0 < w ∧ w ≤ cfg.worldSize ∧
    (failed = true ↔ ∃ v, 0 < v ∧ v < w ∧ call.hostError v = true)
  | .reading _ w failed => rank = 0 ∧ 1 < cfg.worldSize ∧
    statusSync cfg call.method = .host ∧ 0 < w ∧ w < cfg.worldSize ∧
    (failed = true ↔ ∃ v, 0 < v ∧ v < w ∧ call.hostError v = true)
  | .taken _ w failed status => rank = 0 ∧ 1 < cfg.worldSize ∧
    statusSync cfg call.method = .host ∧ 0 < w ∧ w < cfg.worldSize ∧
    (failed = true ↔ ∃ v, 0 < v ∧ v < w ∧ call.hostError v = true) ∧
    status = if call.hostError w then .failed else .success
  | .inStatus _ => statusSync cfg call.method = .rpc ∧ 1 < cfg.worldSize
  | .gathering _ => statusSync cfg call.method = .rpc ∧ call.method ∈ RpcMethod.resultSync ∧
    call.AllSucceed cfg
  | .inResult _ => statusSync cfg call.method = .rpc ∧ call.method ∈ RpcMethod.resultSync ∧
    call.AllSucceed cfg ∧ 1 < cfg.worldSize
  | .returned _ raised => raised = call.raises cfg rank
  | _ => False

/-- The phases in which a rank is inside a call. -/
def TpPhase.Inside : TpPhase → Prop
  | .ready _ | .idle _ | .woken _ | .loaded _ | .gone _ => False
  | _ => True

/-- The phases of a rank. -/
def PhaseOk (cfg : TpConfig) (calls : List RpcCall) (rank : Nat) : TpPhase → Prop
  | .ready _ => rank = 0
  | .idle _ | .woken _ => 0 < rank
  | .loaded n => 0 < rank ∧ ∃ call, calls[n]? = some call
  | .gone n => 0 < rank ∧ ∃ m call, n = m + 1 ∧ calls[m]? = some call ∧ call.Ends cfg rank
  | phase => ∃ call, calls[phase.call]? = some call ∧ PhaseIn cfg rank call phase

theorem phaseIn_of_get (cfg : TpConfig) (rank : Nat) {call : RpcCall} {phase : TpPhase}
    (get : calls[phase.call]? = some call)
    (h : ∃ other, calls[phase.call]? = some other ∧ PhaseIn cfg rank other phase) :
    PhaseIn cfg rank call phase := by
  obtain ⟨other, hother, hphase⟩ := h
  rw [get] at hother
  cases hother
  exact hphase

/-- In every phase of a call the call exists. -/
theorem PhaseOk.inCall {call : RpcCall} {phase phase' : TpPhase} {effect : TpEffect}
    (h : PhaseOk cfg calls rank phase) (get : calls[phase.call]? = some call)
    (moves : Moves cfg s call rank phase effect phase') :
    PhaseIn cfg rank call phase ∨ ∃ n, phase = .ready n ∧ rank = 0 := by
  have hin := phaseIn_of_get cfg rank get
  cases moves with
  | alone | write => exact Or.inr ⟨_, rfl, h⟩
  | _ => exact Or.inl (hin h)

/-! ## Histories -/

/-- The history of every rank is the one of its phase. -/
def ScriptsOk (cfg : TpConfig) (calls : List RpcCall) (s : TpState) : Prop :=
  ∀ rank < cfg.worldSize, s.entered rank =
    (phaseScript cfg calls rank (s.phase rank)).map fun c => (c, contribution calls rank c)

/-- The histories of all ranks are beginnings of one, which enters no collective twice. -/
def Paired (cfg : TpConfig) (calls : List RpcCall) (s : TpState) : Prop :=
  ∃ script : List Collective, script.Nodup ∧ ∀ rank < cfg.worldSize,
    phaseScript cfg calls rank (s.phase rank) <+: script

section Gathered

variable {phase : TpPhase} {c : Collective} {before : List Collective}

/-- A rank that has entered as many collectives as another that waits has entered the same. -/
theorem Paired.same (paired : Paired cfg calls s) (lt : rank < cfg.worldSize)
    (last : phaseScript cfg calls rank (s.phase rank) = before ++ [c]) {other : Nat}
    (hother : other < cfg.worldSize)
    (len : before.length < (phaseScript cfg calls other (s.phase other)).length) :
    (phaseScript cfg calls other (s.phase other))[before.length]? = some c := by
  obtain ⟨script, -, hbegins⟩ := paired
  have hmine := List.prefix_iff_getElem?.mp (last ▸ hbegins rank lt) before.length (by simp)
  have htheirs := List.prefix_iff_getElem?.mp (hbegins other hother) before.length len
  rw [List.getElem?_eq_getElem len, ← htheirs, hmine]
  simp

theorem entered_length (scripts : ScriptsOk cfg calls s) (lt : rank < cfg.worldSize) :
    (s.entered rank).length = (phaseScript cfg calls rank (s.phase rank)).length := by
  rw [scripts rank lt, List.length_map]

theorem entered_last (scripts : ScriptsOk cfg calls s) (lt : rank < cfg.worldSize)
    (last : phaseScript cfg calls rank (s.phase rank) = before ++ [c]) :
    (s.entered rank).length - 1 = before.length := by
  rw [entered_length scripts lt, last, List.length_append, List.length_singleton, Nat.add_sub_cancel]

/-- The collective a rank waits in completes when it is in the history of every rank. -/
theorem gathered_of_forall (scripts : ScriptsOk cfg calls s) (paired : Paired cfg calls s)
    (lt : rank < cfg.worldSize) (now : s.phase rank = phase)
    (last : phaseScript cfg calls rank phase = before ++ [c])
    (met : ∀ other < cfg.worldSize, c ∈ phaseScript cfg calls other (s.phase other)) :
    ∃ values, gathered cfg s rank = some values := by
  subst now
  have hlen : ∀ other < cfg.worldSize, before.length < (s.entered other).length := by
    intro other hother
    rw [entered_length scripts hother]
    by_contra hshort
    obtain ⟨script, hnodup, hbegins⟩ := paired
    obtain ⟨i, hi, hc⟩ := List.getElem_of_mem (met other hother)
    have hmine := List.prefix_iff_getElem?.mp (last ▸ hbegins rank lt) before.length (by simp)
    have htheirs := List.prefix_iff_getElem?.mp (hbegins other hother) i hi
    -- The collective stands in the script once.
    have hsame : i = before.length := by
      refine (List.getElem?_inj (List.getElem?_eq_some_iff.mp htheirs).1 hnodup).mp ?_
      rw [htheirs, hmine, hc]
      simp
    omega
  unfold gathered
  simp only [entered_last scripts lt last]
  rw [if_pos (List.all_eq_true.mpr fun other hother =>
    decide_eq_true (hlen other (List.mem_range.mp hother)))]
  exact ⟨_, rfl⟩

/-- Then every rank has entered it, and the values are what they brought to it. -/
theorem gathered_eq_some (scripts : ScriptsOk cfg calls s) (paired : Paired cfg calls s)
    (lt : rank < cfg.worldSize) (now : s.phase rank = phase)
    (last : phaseScript cfg calls rank phase = before ++ [c])
    {values : List Nat} (h : gathered cfg s rank = some values) :
    (∀ other < cfg.worldSize, c ∈ phaseScript cfg calls other (s.phase other)) ∧
      values = (List.range cfg.worldSize).map fun other => contribution calls other c := by
  subst now
  unfold gathered at h
  simp only [entered_last scripts lt last] at h
  split at h
  · next hall =>
    have hat : ∀ other < cfg.worldSize,
        (phaseScript cfg calls other (s.phase other))[before.length]? = some c :=
      fun other hother => paired.same lt last hother (by
        have hlen := of_decide_eq_true (List.all_eq_true.mp hall other (List.mem_range.mpr hother))
        rwa [entered_length scripts hother] at hlen)
    refine ⟨fun other hother => List.mem_of_getElem? (hat other hother), ?_⟩
    rw [← Option.some.inj h]
    refine List.map_congr_left fun other hother => ?_
    have hother := List.mem_range.mp hother
    rw [scripts other hother, List.getElem?_map, hat other hother]
    rfl
  · cases h

end Gathered

theorem foldr_max_ne_zero {values : List Nat} :
    values.foldr max 0 ≠ 0 ↔ ∃ value ∈ values, value ≠ 0 := by
  induction values with
  | nil => simp
  | cons value rest ih =>
    simp only [List.foldr_cons, List.mem_cons, exists_eq_or_imp, ← ih]
    omega

/-- The reduction of the statuses tells whether some body raised. -/
theorem statuses_ne_zero {n : Nat} {call : RpcCall} (get : calls[n]? = some call) :
    ((List.range cfg.worldSize).map fun rank => contribution calls rank (.status n)).foldr max 0 ≠ 0 ↔
      ¬ call.AllSucceed cfg := by
  rw [foldr_max_ne_zero]
  unfold RpcCall.AllSucceed
  have hvalue : ∀ rank, contribution calls rank (.status n) =
      if call.localError rank then 1 else 0 := fun rank => by
    show calls[n]?.elim 0 _ = _
    rw [get]
    rfl
  constructor
  · rintro ⟨value, hvalue', hne⟩ hall
    obtain ⟨rank, hrank, rfl⟩ := List.mem_map.mp hvalue'
    rw [hvalue, hall rank (List.mem_range.mp hrank)] at hne
    exact hne rfl
  · intro hnot
    push Not at hnot
    obtain ⟨rank, hrank, hfails⟩ := hnot
    refine ⟨_, List.mem_map.mpr ⟨rank, List.mem_range.mpr hrank, rfl⟩, ?_⟩
    rw [hvalue, eq_true_of_ne_false hfails]
    exact Nat.one_ne_zero

/-- What a step adds to a history. -/
def TpEffect.joined : TpEffect → List (Collective × Nat)
  | .enter c value => [(c, value)]
  | _ => []

@[simp] theorem apply_phase (s : TpState) (rank : Nat) (effect : TpEffect) (phase : TpPhase) :
    (s.apply rank effect phase).phase = Function.update s.phase rank phase := by
  cases effect <;> rfl

theorem apply_entered (s : TpState) (rank : Nat) (effect : TpEffect) (phase : TpPhase) :
    (s.apply rank effect phase).entered =
      Function.update s.entered rank (s.entered rank ++ effect.joined) := by
  cases effect with
  | enter c value => rfl
  | _ =>
    show s.entered = Function.update s.entered rank (s.entered rank ++ [])
    rw [List.append_nil, Function.update_eq_self]

theorem bodyScript_succ (n i : Nat) : bodyScript n (i + 1) = bodyScript n i ++ [.body n i] := by
  unfold bodyScript
  rw [List.range_succ, List.map_append]
  rfl

theorem phaseScript_eq {call : RpcCall} {phase : TpPhase} (get : calls[phase.call]? = some call) :
    phaseScript cfg calls rank phase =
      pastScript cfg calls rank phase.call ++ presentScript cfg rank call phase := by
  unfold phaseScript
  rw [get]
  rfl

/-- Between two calls a rank has entered the collectives of the calls before. -/
theorem phaseScript_outside {phase : TpPhase} (h : ∀ call, presentScript cfg rank call phase = []) :
    phaseScript cfg calls rank phase = pastScript cfg calls rank phase.call := by
  unfold phaseScript
  simp only [h]
  cases calls[phase.call]? <;> exact List.append_nil _

theorem pastScript_succ {n : Nat} {call : RpcCall} (get : calls[n]? = some call) :
    pastScript cfg calls rank (n + 1) = pastScript cfg calls rank n ++ callScript cfg rank n call := by
  show pastScript cfg calls rank n ++ calls[n]?.elim [] _ = _
  rw [get]
  rfl

theorem callScript_compares {n : Nat} {call : RpcCall} (h : call.Compares cfg) :
    callScript cfg rank n call =
      bodyScript n (call.bodyEnters rank) ++ statusScript cfg n call ++ [.result n] := by
  unfold callScript resultScript
  rw [if_pos h]

theorem callScript_no_result {n : Nat} {call : RpcCall} (h : ¬ call.Compares cfg) :
    callScript cfg rank n call =
      bodyScript n (call.bodyEnters rank) ++ statusScript cfg n call := by
  unfold callScript resultScript
  rw [if_neg h, List.append_nil]

theorem callScript_not_rpc {n : Nat} {call : RpcCall} (h : statusSync cfg call.method ≠ .rpc) :
    callScript cfg rank n call = bodyScript n (call.bodyEnters rank) := by
  rw [callScript_no_result fun hc => h hc.1]
  unfold statusScript
  rw [if_neg fun hc => h hc.1, List.append_nil]

/-- A call that compares results is synchronized over the collectives. -/
theorem resultSync_rpc {method : RpcMethod} (h : method ∈ RpcMethod.resultSync) :
    statusSync cfg method = .rpc := by
  unfold RpcMethod.resultSync at h
  simp only [List.mem_cons, List.not_mem_nil, or_false] at h
  rcases h with rfl | rfl | rfl | rfl | rfl | rfl <;>
    simp [statusSync, RpcMethod.tpRpcStatusSync, RpcMethod.prefixCacheControl,
      RpcMethod.decodeGraphHostStatusSync, RpcMethod.startupHostStatusSync]

/-- The last collective of a rank that waits. -/
theorem inBody_last {n i : Nat} {call : RpcCall} (get : calls[n]? = some call) :
    phaseScript cfg calls rank (.inBody n i) =
      (pastScript cfg calls rank n ++ bodyScript n i) ++ [.body n i] := by
  rw [phaseScript_eq (show calls[(TpPhase.inBody n i).call]? = some call from get), List.append_assoc,
    ← bodyScript_succ]
  rfl

theorem inStatus_last {n : Nat} {call : RpcCall} (get : calls[n]? = some call)
    (sync : statusSync cfg call.method = .rpc) (world : 1 < cfg.worldSize) :
    phaseScript cfg calls rank (.inStatus n) =
      (pastScript cfg calls rank n ++ bodyScript n (call.bodyEnters rank)) ++ [.status n] := by
  rw [phaseScript_eq (show calls[(TpPhase.inStatus n).call]? = some call from get), List.append_assoc]
  exact congrArg _ (congrArg _ (if_pos ⟨sync, world⟩))

theorem inResult_last {n : Nat} {call : RpcCall} (get : calls[n]? = some call)
    (compares : call.Compares cfg) :
    phaseScript cfg calls rank (.inResult n) =
      (pastScript cfg calls rank n ++ (bodyScript n (call.bodyEnters rank) ++
        statusScript cfg n call)) ++ [.result n] := by
  rw [phaseScript_eq (show calls[(TpPhase.inResult n).call]? = some call from get), List.append_assoc]
  exact congrArg _ (callScript_compares compares)

/-! ## Outcomes -/

section Outcomes

variable {call : RpcCall}

theorem raises_rpc_failed (sync : statusSync cfg call.method = .rpc) (h : ¬ call.AllSucceed cfg) :
    call.raises cfg rank = true := by
  unfold RpcCall.raises
  rw [sync]
  exact if_pos h

theorem raises_rpc_succeeded (sync : statusSync cfg call.method = .rpc) (h : call.AllSucceed cfg)
    (nocompare : ¬ call.Compares cfg) : call.raises cfg rank = false := by
  unfold RpcCall.raises
  rw [sync]
  exact (if_neg (not_not.mpr h)).trans (if_neg nocompare)

theorem raises_rpc_compared (h : call.Compares cfg) : call.raises cfg rank =
    ((List.range cfg.worldSize).map call.result).tail.any fun value =>
      some value != ((List.range cfg.worldSize).map call.result).head? := by
  unfold RpcCall.raises
  rw [h.1]
  exact (if_neg (not_not.mpr h.2.2.2)).trans (if_pos h)

theorem raises_host_single (sync : statusSync cfg call.method = .host) (world : cfg.worldSize ≤ 1) :
    call.raises cfg rank = call.localError rank := by
  unfold RpcCall.raises
  rw [sync]
  exact if_pos world

theorem raises_host_caller (sync : statusSync cfg call.method = .host) (world : 1 < cfg.worldSize) :
    call.raises cfg 0 = decide (∃ other < cfg.worldSize, call.hostError other = true) := by
  unfold RpcCall.raises
  rw [sync]
  exact (if_neg (Nat.not_le.mpr world)).trans (if_pos rfl)

theorem raises_host_worker (sync : statusSync cfg call.method = .host) (world : 1 < cfg.worldSize)
    (worker : 0 < rank) : call.raises cfg rank = call.hostError rank := by
  unfold RpcCall.raises
  rw [sync]
  exact (if_neg (Nat.not_le.mpr world)).trans (if_neg (Nat.pos_iff_ne_zero.mp worker))

/-- On a single rank, the other ranks succeed. -/
theorem allSucceed_single (world : cfg.worldSize ≤ 1) (hrank : rank < cfg.worldSize)
    (h : call.localError rank = false) : call.AllSucceed cfg := by
  intro other hother
  have hsame : other = rank := by omega
  rw [hsame]
  exact h

/-- Past the statuses, when no other rank has raised. -/
theorem afterStatus_ok {n : Nat} (get : calls[n]? = some call) (hrank : rank < cfg.worldSize)
    (sync : statusSync cfg call.method ≠ .unsynchronized)
    (others : call.localError rank = false → call.AllSucceed cfg)
    (single : statusSync cfg call.method = .host → cfg.worldSize ≤ 1) :
    PhaseOk cfg calls rank (afterStatus call rank n) ∧
      phaseScript cfg calls rank (afterStatus call rank n) = pastScript cfg calls rank n ++
        (bodyScript n (call.bodyEnters rank) ++ statusScript cfg n call) := by
  unfold afterStatus
  by_cases hfails : call.localError rank = true
  · have hnot : ¬ call.AllSucceed cfg := fun hall => by
      rw [hall rank hrank] at hfails
      cases hfails
    rw [if_pos hfails,
      phaseScript_eq (show calls[(TpPhase.returned n true).call]? = some call from get)]
    refine ⟨⟨call, get, ?_⟩, congrArg _ (callScript_no_result fun hc => hnot hc.2.2.2)⟩
    show true = call.raises cfg rank
    cases hsync : statusSync cfg call.method with
    | unsynchronized => exact absurd hsync sync
    | host => rw [raises_host_single hsync (single hsync), hfails]
    | rpc => rw [raises_rpc_failed hsync hnot]
  · have hlocal := eq_false_of_ne_true hfails
    have hall := others hlocal
    rw [if_neg hfails]
    by_cases hresult : call.method ∈ RpcMethod.resultSync
    · rw [if_pos hresult,
        phaseScript_eq (show calls[(TpPhase.gathering n).call]? = some call from get)]
      exact ⟨⟨call, get, resultSync_rpc hresult, hresult, hall⟩, rfl⟩
    · have hnocompare : ¬ call.Compares cfg := fun hc => hresult hc.2.2.1
      rw [if_neg hresult,
        phaseScript_eq (show calls[(TpPhase.returned n false).call]? = some call from get)]
      refine ⟨⟨call, get, ?_⟩, congrArg _ (callScript_no_result hnocompare)⟩
      show false = call.raises cfg rank
      cases hsync : statusSync cfg call.method with
      | unsynchronized => exact absurd hsync sync
      | host => rw [raises_host_single hsync (single hsync), hlocal]
      | rpc => rw [raises_rpc_succeeded hsync hall hnocompare]

end Outcomes

/-! ## What a step does to a rank -/

/-- The next phase, and the collectives that the step adds. -/
structure RankAdvanced (cfg : TpConfig) (calls : List RpcCall) (rank : Nat) (phase : TpPhase)
    (effect : TpEffect) (phase' : TpPhase) (joined : List Collective) : Prop where
  phase_ok : PhaseOk cfg calls rank phase'
  script : phaseScript cfg calls rank phase' = phaseScript cfg calls rank phase ++ joined
  joined : effect.joined = joined.map fun c => (c, contribution calls rank c)

theorem moves_advanced {call : RpcCall} {phase phase' : TpPhase} {effect : TpEffect}
    (get : calls[phase.call]? = some call) (moves : Moves cfg s call rank phase effect phase')
    (hrank : rank < cfg.worldSize) (ok : PhaseOk cfg calls rank phase)
    (scripts : ScriptsOk cfg calls s) (paired : Paired cfg calls s) (now : s.phase rank = phase)
    (bytes : ∀ n w failed, phase = .reading n w failed →
      (s.runStatus w).value = if call.hostError w then .failed else .success) :
    ∃ joined, RankAdvanced cfg calls rank phase effect phase' joined := by
  have hin := ok.inCall get moves
  -- A step that stays in its call, and what it has entered there.
  have hstays : ∀ joined : List Collective, phase'.call = phase.call →
      PhaseIn cfg rank call phase' → phase'.Inside →
      presentScript cfg rank call phase' = presentScript cfg rank call phase ++ joined →
      effect.joined = joined.map (fun c => (c, contribution calls rank c)) →
      ∃ joined, RankAdvanced cfg calls rank phase effect phase' joined := by
    intro joined hcall hphase hinside hscript hjoined
    have get' : calls[phase'.call]? = some call := hcall ▸ get
    refine ⟨joined, ?_, ?_, hjoined⟩
    · cases phase' with
      | ready n | idle n | woken n | loaded n | gone n => exact absurd hinside id
      | _ => exact ⟨call, get', hphase⟩
    · rw [phaseScript_eq get', phaseScript_eq get, hcall, hscript, List.append_assoc]
  have hnil : ∀ {l : List Collective}, l = l ++ [] := (List.append_nil _).symm
  cases moves with
  | alone hworld | begin hall hsync | acked hall =>
    exact hstays _ rfl (Nat.zero_le _) trivial hnil rfl
  | write hworld =>
    obtain hin | ⟨n, hn, hcaller⟩ := hin
    · exact absurd hin id
    · exact hstays _ rfl ⟨hcaller, hworld, Nat.one_pos, Nat.le_of_lt hworld⟩ trivial hnil rfl
  | clear hworker =>
    obtain ⟨hcaller, hworld, hpos, -⟩ := hin.resolve_right nofun
    exact hstays _ rfl ⟨hcaller, hworld, hpos, hworker⟩ trivial hnil rfl
  | pend => exact hstays _ rfl (hin.resolve_right nofun) trivial hnil rfl
  | command =>
    obtain ⟨hcaller, hworld, -, hworker⟩ := hin.resolve_right nofun
    exact hstays _ rfl ⟨hcaller, hworld, Nat.succ_pos _, hworker⟩ trivial hnil
      rfl
  | wait hall hsync =>
    obtain ⟨hcaller, hworld, -⟩ := hin.resolve_right nofun
    exact hstays _ rfl ⟨hcaller, hworld, Nat.one_pos, Nat.le_of_lt hworld, hsync⟩ trivial hnil rfl
  | ack hworker hevent =>
    obtain ⟨hcaller, hworld, -, -, hsync⟩ := hin.resolve_right nofun
    exact hstays _ rfl ⟨hcaller, hworld, Nat.succ_pos _, hworker, hsync⟩ trivial
      hnil rfl
  | enterBody hmore =>
    exact hstays _ rfl hmore trivial (bodyScript_succ _ _) rfl
  | leaveBody hmet =>
    have hindex := hin.resolve_right nofun
    exact hstays _ rfl (Nat.succ_le_of_lt hindex) trivial hnil rfl
  | @unsynchronized n i hover hsync =>
    have hentered : i = call.bodyEnters rank := Nat.le_antisymm (hin.resolve_right nofun) hover
    refine hstays [] rfl ?_ trivial ?_ rfl
    · show call.localError rank = call.raises cfg rank
      unfold RpcCall.raises
      rw [hsync]
    · show callScript cfg rank n call = bodyScript n i ++ []
      rw [callScript_not_rpc (by rw [hsync]; nofun), hentered, List.append_nil]
  | @synchronize n i hover hsync =>
    have hentered : i = call.bodyEnters rank := Nat.le_antisymm (hin.resolve_right nofun) hover
    refine hstays [] rfl hsync trivial ?_ rfl
    show bodyScript n (call.bodyEnters rank) = bodyScript n i ++ []
    rw [hentered, List.append_nil]
  | @single n hworld =>
    have hsync := hin.resolve_right nofun
    obtain ⟨hphase, hscript⟩ := afterStatus_ok (n := n) get hrank hsync
      (fun hlocal => allSucceed_single hworld hrank hlocal) fun _ => hworld
    refine ⟨[], hphase, ?_, rfl⟩
    have hstatus : statusScript cfg n call = [] := if_neg fun h => absurd h.2 (by omega)
    rw [hscript, hstatus, phaseScript_eq get, List.append_nil, List.append_nil]
    rfl
  | flag hworld hsync hworker =>
    exact hstays _ rfl ⟨hworker, hworld, hsync⟩ trivial hnil rfl
  | @complete n =>
    obtain ⟨hworker, hworld, hsync⟩ := hin.resolve_right nofun
    refine hstays [] rfl (raises_host_worker hsync hworld hworker).symm trivial ?_ rfl
    show callScript cfg rank n call = bodyScript n _ ++ []
    rw [callScript_not_rpc (by rw [hsync]; nofun), List.append_nil]
  | collect hworld hsync hcaller =>
    refine hstays _ rfl ⟨hcaller, hworld, hsync, Nat.one_pos, Nat.le_of_lt hworld, nofun, ?_⟩ trivial
      hnil rfl
    rintro ⟨v, hpos, hlt, -⟩
    omega
  | completed hworker hevent =>
    obtain ⟨hcaller, hworld, hsync, hpos, -, hfailed⟩ := hin.resolve_right nofun
    exact hstays _ rfl ⟨hcaller, hworld, hsync, hpos, hworker, hfailed⟩ trivial
      hnil rfl
  | readStatus =>
    obtain ⟨hcaller, hworld, hsync, hpos, hworker, hfailed⟩ := hin.resolve_right nofun
    exact hstays _ rfl ⟨hcaller, hworld, hsync, hpos, hworker, hfailed, bytes _ _ _ rfl⟩ trivial hnil
      rfl
  | @takeFailed n w failed =>
    obtain ⟨hcaller, hworld, hsync, hpos, hworker, hfailed, hstatus⟩ := hin.resolve_right nofun
    have herror : call.hostError w = true := by
      by_contra hno
      rw [if_neg hno] at hstatus
      cases hstatus
    exact hstays _ rfl ⟨hcaller, hworld, hsync, Nat.succ_pos _, hworker,
      fun _ => ⟨w, hpos, Nat.lt_succ_self w, herror⟩, fun _ => rfl⟩ trivial
      hnil rfl
  | @takeSuccess n w failed =>
    obtain ⟨hcaller, hworld, hsync, hpos, hworker, hfailed, hstatus⟩ := hin.resolve_right nofun
    have herror : ¬ call.hostError w = true := by
      intro hyes
      rw [if_pos hyes] at hstatus
      cases hstatus
    refine hstays _ rfl ⟨hcaller, hworld, hsync, Nat.succ_pos _, hworker, hfailed.trans ?_⟩ trivial
      hnil rfl
    constructor
    · rintro ⟨v, hv, hlt, hfails⟩
      exact ⟨v, hv, by omega, hfails⟩
    · rintro ⟨v, hv, hlt, hfails⟩
      rcases Nat.lt_succ_iff_lt_or_eq.mp hlt with hlt | rfl
      · exact ⟨v, hv, hlt, hfails⟩
      · exact absurd hfails herror
  | takePending =>
    obtain ⟨-, -, -, -, -, -, hstatus⟩ := hin.resolve_right nofun
    split at hstatus <;> cases hstatus
  | @collected n w failed hall =>
    obtain ⟨hcaller, hworld, hsync, hpos, hle, hfailed⟩ := hin.resolve_right nofun
    have hw : w = cfg.worldSize := Nat.le_antisymm hle hall
    refine hstays [] rfl ?_ trivial ?_ rfl
    · show (call.hostError rank || failed) = call.raises cfg rank
      rw [hcaller, raises_host_caller hsync hworld, Bool.eq_iff_iff, Bool.or_eq_true, hfailed, hw,
        decide_eq_true_iff]
      constructor
      · rintro (hzero | ⟨v, -, hv, hfails⟩)
        · exact ⟨0, by omega, hzero⟩
        · exact ⟨v, hv, hfails⟩
      · rintro ⟨v, hv, hfails⟩
        rcases Nat.eq_zero_or_pos v with rfl | hpos
        · exact Or.inl hfails
        · exact Or.inr ⟨v, hpos, hv, hfails⟩
    · show callScript cfg rank n call = bodyScript n _ ++ []
      rw [callScript_not_rpc (by rw [hsync]; nofun), List.append_nil]
  | @enterStatus n hworld hsync =>
    have hrpc : statusSync cfg call.method = .rpc := by
      have hne := hin.resolve_right nofun
      cases hs : statusSync cfg call.method with
      | unsynchronized => exact absurd hs hne
      | host => exact absurd hs hsync
      | rpc => rfl
    refine hstays [.status n] rfl ⟨hrpc, hworld⟩ trivial ?_ ?_
    · exact congrArg _ (if_pos ⟨hrpc, hworld⟩)
    · show [(Collective.status n, _)] = [(Collective.status n, calls[n]?.elim 0 _)]
      rw [show calls[n]? = some call from get]
      rfl
  | @leaveStatus n values hmet =>
    obtain ⟨hrpc, hworld⟩ := hin.resolve_right nofun
    obtain ⟨-, rfl⟩ :=
      gathered_eq_some scripts paired hrank now (inStatus_last get hrpc hworld) hmet
    have hiff : _ ↔ ¬ call.AllSucceed cfg := statuses_ne_zero (n := n) get
    by_cases hall : call.AllSucceed cfg
    · rw [if_neg fun h => hiff.mp h hall]
      obtain ⟨hphase, hscript⟩ := afterStatus_ok (n := n) get hrank (by rw [hrpc]; nofun) (fun _ => hall)
        (by rw [hrpc]; nofun)
      refine ⟨[], hphase, ?_, rfl⟩
      rw [hscript, phaseScript_eq get, List.append_nil]
      rfl
    · rw [if_pos (hiff.mpr hall)]
      refine ⟨[], ⟨call, get, (raises_rpc_failed hrpc hall).symm⟩, ?_, rfl⟩
      rw [phaseScript_eq (show calls[(TpPhase.returned n true).call]? = some call from get),
        phaseScript_eq get, List.append_nil]
      exact congrArg _ (callScript_no_result fun hc => hall hc.2.2.2)
  | keepResult hworld =>
    obtain ⟨hrpc, -, hall⟩ := hin.resolve_right nofun
    have hnocompare : ¬ call.Compares cfg := fun hc => absurd hc.2.1 (by omega)
    refine hstays [] rfl (raises_rpc_succeeded hrpc hall hnocompare).symm trivial ?_ rfl
    rw [List.append_nil]
    exact callScript_no_result hnocompare
  | @enterResult n hworld =>
    obtain ⟨hrpc, hresult, hall⟩ := hin.resolve_right nofun
    refine hstays [.result n] rfl ⟨hrpc, hresult, hall, hworld⟩ trivial
      (callScript_compares ⟨hrpc, hworld, hresult, hall⟩) ?_
    show [(Collective.result n, _)] = [(Collective.result n, calls[n]?.elim 0 _)]
    rw [show calls[n]? = some call from get]
    rfl
  | @leaveResult n values hmet =>
    obtain ⟨hrpc, hresult, hall, hworld⟩ := hin.resolve_right nofun
    obtain ⟨-, rfl⟩ := gathered_eq_some scripts paired hrank now
      (inResult_last get ⟨hrpc, hworld, hresult, hall⟩) hmet
    have hvalues : (List.range cfg.worldSize).map (fun rank => contribution calls rank (.result n)) =
        (List.range cfg.worldSize).map call.result := List.map_congr_left fun rank _ => by
      show calls[n]?.elim 0 _ = _
      rw [show calls[n]? = some call from get]
      rfl
    refine hstays _ rfl ?_ trivial hnil rfl
    show (List.any _ _) = call.raises cfg rank
    rw [hvalues]
    exact (raises_rpc_compared ⟨hrpc, hworld, hresult, hall⟩).symm
  | @next n raised hcaller =>
    refine ⟨[], hcaller, ?_, rfl⟩
    rw [phaseScript_outside fun _ => rfl, phaseScript_eq get, List.append_nil]
    exact pastScript_succ get
  | @die n raised hworker hends =>
    have hraised : raised = call.raises cfg rank := hin.resolve_right nofun
    refine ⟨[], ⟨Nat.pos_of_ne_zero hworker, n, call, rfl, get, ?_⟩, ?_, rfl⟩
    · unfold RpcCall.Ends
      rw [← hraised]
      exact hends
    rw [phaseScript_outside fun _ => rfl, phaseScript_eq get, List.append_nil]
    exact pastScript_succ get
  | @loop n raised hworker hsurvives =>
    refine ⟨[], Nat.pos_of_ne_zero hworker, ?_, rfl⟩
    rw [phaseScript_outside fun _ => rfl, phaseScript_eq get, List.append_nil]
    exact pastScript_succ get

end SparseVllm
