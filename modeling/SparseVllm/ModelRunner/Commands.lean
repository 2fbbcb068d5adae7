import SparseVllm.ModelRunner.Moves

/-!
# Commands and status bytes

What rank 0 and a worker know of each other (`Linked`), by four counts: the commands rank 0 has set and
the worker has read, and the statuses the worker has given and rank 0 has consumed. A command is
written when every worker has read the one before, and a status byte is read when the worker has
written it for the call.
-/

namespace SparseVllm

open SparseVllm.Lib

variable {cfg : TpConfig} {calls : List RpcCall} {s t : TpState} {rank : Nat}

/-! ## Counts -/

namespace TpPhase

/-- The commands rank 0 has set for a worker. -/
def sent (worker : Nat) : TpPhase → Nat
  | .ready n => n
  | .clearing n w | .pending n w | .commanding n w => if worker < w then n + 1 else n
  | phase => phase.call + 1

/-- The commands a worker has read. -/
def received : TpPhase → Nat
  | .idle n | .woken n | .loaded n | .gone n => n
  | phase => phase.call + 1

/-- The calls whose status rank 0 has consumed from a worker. -/
def consumed (worker : Nat) : TpPhase → Nat
  | .collecting n w _ | .reading n w _ | .taken n w _ _ => if worker < w then n + 1 else n
  | .gathering n | .inResult n | .returned n _ => n + 1
  | phase => phase.call

/-- The calls whose status a worker has given. -/
def given : TpPhase → Nat
  | .gathering n | .inResult n | .returned n _ => n + 1
  | phase => phase.call

/-- A worker between the wait and the clear of its command. -/
def Awake : TpPhase → Prop
  | .woken _ | .loaded _ => True
  | _ => False

/-- Rank 0 reads the status of the worker. -/
def Reads (worker : Nat) : TpPhase → Prop
  | .reading _ w _ | .taken _ w _ _ => w = worker
  | _ => False

theorem sent_le (worker : Nat) (phase : TpPhase) :
    phase.call ≤ phase.sent worker ∧ phase.sent worker ≤ phase.call + 1 := by
  cases phase <;> simp only [sent, call] <;> (try split) <;> omega

theorem consumed_le (worker : Nat) (phase : TpPhase) :
    phase.call ≤ phase.consumed worker ∧ phase.consumed worker ≤ phase.call + 1 := by
  cases phase <;> simp only [consumed, call] <;> (try split) <;> omega

theorem given_le (phase : TpPhase) :
    phase.given ≤ phase.received ∧ phase.received ≤ phase.given + 1 := by
  cases phase <;> simp only [given, received, call] <;> omega

end TpPhase

section Link

variable (cfg : TpConfig) (calls : List RpcCall) (worker : Nat)

def HostCall (n : Nat) : Prop :=
  ∃ call, calls[n]? = some call ∧ statusSync cfg call.method = .host

/-- Rank 0 knows that the worker has read the command of the present call. -/
def Knows : TpPhase → Prop
  | .acking _ w => worker < w
  | .body n _ | .inBody n _ =>
    ∃ call, calls[n]? = some call ∧ statusSync cfg call.method = .unsynchronized
  | .collecting _ w _ | .reading _ w _ | .taken _ w _ _ => worker < w
  | .gathering _ | .inResult _ | .returned _ _ => True
  | _ => False

/-- The status byte of a worker for a call. -/
def verdict (n : Nat) : StatusByte :=
  ⟨if calls[n]?.elim false (·.hostError worker) then .failed else .success, some n⟩

/-- What rank 0 and a worker know of each other. -/
structure Linked (caller present : TpPhase) (command completion : Bool) (byte : StatusByte) :
    Prop where
  call_le : caller.call ≤ present.received
  received_le : present.received ≤ caller.sent worker
  commanded : command = decide (present.received < caller.sent worker)
  awake : present.Awake → present.received < caller.sent worker
  knows : Knows cfg calls worker caller → caller.call < present.received
  behind : ∀ m, HostCall cfg calls m → m < caller.consumed worker → m < present.given
  completed_iff : completion = true ↔
    ∃ m, HostCall cfg calls m ∧ caller.consumed worker ≤ m ∧ m < present.given
  flagged : ∀ n, present = .flagged n → byte = verdict calls worker n
  completed : completion = true → byte = verdict calls worker caller.call
  reads : caller.Reads worker → completion = true

end Link

variable {worker : Nat} {caller caller' present present' : TpPhase} {command completion : Bool}
  {byte : StatusByte}

namespace Linked

/-- A step of rank 0 that changes no count. -/
theorem stay (h : Linked cfg calls worker caller present command completion byte)
    (call : caller'.call = caller.call) (sent : caller'.sent worker = caller.sent worker)
    (consumed : caller'.consumed worker = caller.consumed worker)
    (knows : Knows cfg calls worker caller' → caller.call < present.received)
    (reads : caller'.Reads worker → completion = true) :
    Linked cfg calls worker caller' present command completion byte where
  call_le := call ▸ h.call_le
  received_le := sent ▸ h.received_le
  commanded := sent ▸ h.commanded
  awake := sent ▸ h.awake
  knows := call ▸ knows
  behind := consumed ▸ h.behind
  completed_iff := consumed ▸ h.completed_iff
  flagged := h.flagged
  completed := call ▸ h.completed
  reads := reads

/-- Rank 0 prepares the command of a worker that has not got it: its status is not set. -/
theorem uncompleted (h : Linked cfg calls worker caller present command completion byte)
    (sent : caller.sent worker = caller.call) : completion = false := by
  by_contra hne
  obtain ⟨m, -, hle, hlt⟩ := h.completed_iff.mp (eq_true_of_ne_false hne)
  have := caller.consumed_le worker
  have := present.given_le
  have := h.received_le
  omega

/-- Nor has the worker written it. -/
theorem unflagged (h : Linked cfg calls worker caller present command completion byte)
    (sent : caller.sent worker = caller.call) {n : Nat} (host : HostCall cfg calls n) :
    present ≠ .flagged n := by
  rintro rfl
  have hbehind := h.behind n host
  have hcall := h.call_le
  have hreceived := h.received_le
  have := caller.consumed_le worker
  simp only [TpPhase.given, TpPhase.received, TpPhase.call] at hbehind hcall hreceived
  omega

/-- Rank 0 resets the byte. -/
theorem reset (h : Linked cfg calls worker caller present command completion byte)
    (sent : caller.sent worker = caller.call)
    (host : ∀ n, present = .flagged n → HostCall cfg calls n) :
    Linked cfg calls worker caller present command completion {} :=
  { h with
    flagged := fun n hn => absurd hn (h.unflagged sent (host n hn))
    completed := fun hcompletion => by
      rw [h.uncompleted sent] at hcompletion
      cases hcompletion }

/-- Rank 0 sets the command. -/
theorem send (h : Linked cfg calls worker caller present command completion byte)
    (call : caller'.call = caller.call) (before : caller.sent worker = caller.call)
    (sent : caller'.sent worker = caller.call + 1)
    (consumed : caller'.consumed worker = caller.consumed worker)
    (unknown : ¬ Knows cfg calls worker caller') (noRead : ¬ caller'.Reads worker) :
    Linked cfg calls worker caller' present true completion byte where
  call_le := call ▸ h.call_le
  received_le := sent ▸ Nat.le_succ_of_le (before ▸ h.received_le)
  commanded := by
    have hle := h.received_le
    rw [sent, decide_eq_true (by omega)]
  awake _ := by
    have hle := h.received_le
    rw [sent]
    omega
  knows hknows := absurd hknows unknown
  behind := consumed ▸ h.behind
  completed_iff := consumed ▸ h.completed_iff
  flagged := h.flagged
  completed := call ▸ h.completed
  reads hread := absurd hread noRead

/-- `_sync_tp_host_status` is over for the worker. -/
theorem consume (h : Linked cfg calls worker caller present command completion byte)
    (reads : completion = true) (call : caller'.call = caller.call)
    (sent : caller'.sent worker = caller.sent worker)
    (before : caller.consumed worker = caller.call)
    (consumed : caller'.consumed worker = caller.call + 1)
    (noRead : ¬ caller'.Reads worker) :
    Linked cfg calls worker caller' present command false byte := by
  obtain ⟨m, hhost, hle, hlt⟩ := h.completed_iff.mp reads
  have hgiven := present.given_le
  have hreceived := h.received_le
  have hsent := caller.sent_le worker
  have hm : m = caller.call := by omega
  refine ⟨call ▸ h.call_le, sent ▸ h.received_le, sent ▸ h.commanded, sent ▸ h.awake, fun _ => ?_,
    fun k hk hlt => ?_, ⟨nofun, ?_⟩, h.flagged, nofun, fun hread => absurd hread noRead⟩
  · omega
  · omega
  · rintro ⟨k, -, hk, hk'⟩
    omega

/-- The status of a call that is not synchronized on the host needs no byte. -/
theorem skip (h : Linked cfg calls worker caller present command completion byte)
    (nohost : ¬ HostCall cfg calls caller.call) (call : caller'.call = caller.call)
    (sent : caller'.sent worker = caller.sent worker)
    (before : caller.consumed worker = caller.call)
    (consumed : caller'.consumed worker = caller.call + 1)
    (knows : caller.call < present.received) (noRead : ¬ caller'.Reads worker) :
    Linked cfg calls worker caller' present command completion byte where
  call_le := call ▸ h.call_le
  received_le := sent ▸ h.received_le
  commanded := sent ▸ h.commanded
  awake := sent ▸ h.awake
  knows _ := call ▸ knows
  behind m hm hlt := by
    have hne : m ≠ caller.call := fun heq => nohost (heq ▸ hm)
    exact h.behind m hm (by omega)
  completed_iff := by
    rw [h.completed_iff, before, consumed]
    constructor
    · rintro ⟨m, hm, hle, hlt⟩
      have hne : m ≠ caller.call := fun heq => nohost (heq ▸ hm)
      exact ⟨m, hm, by omega, hlt⟩
    · rintro ⟨m, hm, hle, hlt⟩
      exact ⟨m, hm, by omega, hlt⟩
  flagged := h.flagged
  completed := call ▸ h.completed
  reads hread := absurd hread noRead

/-- Rank 0 goes on to the next call. -/
theorem next {n : Nat} {raised : Bool}
    (h : Linked cfg calls worker (.returned n raised) present command completion byte) :
    Linked cfg calls worker (.ready (n + 1)) present command completion byte where
  call_le := h.knows trivial
  received_le := h.received_le
  commanded := h.commanded
  awake := h.awake
  knows := nofun
  behind := h.behind
  completed_iff := h.completed_iff
  flagged := h.flagged
  completed hcompletion := by
    obtain ⟨m, -, hle, hlt⟩ := h.completed_iff.mp hcompletion
    have hgiven := present.given_le
    have hreceived := h.received_le
    simp only [TpPhase.consumed, TpPhase.sent, TpPhase.call] at hle hreceived
    omega
  reads := nofun

end Linked

/-! ## The steps of rank 0 -/

/-- Past the statuses, rank 0 has consumed them all. -/
theorem afterStatus_counts (call : RpcCall) (rank n worker : Nat) :
    (afterStatus call rank n).call = n ∧ (afterStatus call rank n).sent worker = n + 1 ∧
      (afterStatus call rank n).consumed worker = n + 1 ∧
      ¬ (afterStatus call rank n).Reads worker := by
  unfold afterStatus
  split
  · exact ⟨rfl, rfl, rfl, id⟩
  · split
    · exact ⟨rfl, rfl, rfl, id⟩
    · exact ⟨rfl, rfl, rfl, id⟩

/-- The call of a collective. -/
def Collective.call : Collective → Nat
  | .body n _ | .status n | .result n => n

theorem call_of_mem_callScript {n : Nat} {call : RpcCall} {c : Collective}
    (h : c ∈ callScript cfg rank n call) : c.call = n := by
  unfold callScript bodyScript statusScript resultScript at h
  rcases List.mem_append.mp h with h | h
  · rcases List.mem_append.mp h with h | h
    · obtain ⟨i, -, rfl⟩ := List.mem_map.mp h
      rfl
    · split at h
      · rw [List.mem_singleton.mp h]
        rfl
      · cases h
  · split at h
    · rw [List.mem_singleton.mp h]
      rfl
    · cases h

theorem call_of_mem_pastScript {n : Nat} {c : Collective} (h : c ∈ pastScript cfg calls rank n) :
    c.call < n := by
  induction n with
  | zero => cases h
  | succ n ih =>
    rcases List.mem_append.mp h with h | h
    · exact Nat.lt_succ_of_lt (ih h)
    · cases hget : calls[n]? with
      | none => rw [hget] at h; cases h
      | some call =>
        rw [hget] at h
        rw [call_of_mem_callScript h]
        exact Nat.lt_succ_self n

/-- A worker reads the command of a call before it enters a collective of it. -/
theorem call_lt_received {phase : TpPhase} {c : Collective}
    (h : c ∈ phaseScript cfg calls rank phase) : c.call < phase.received := by
  have hreceived : phase.call ≤ phase.received := by
    cases phase <;> simp only [TpPhase.received, TpPhase.call] <;> omega
  rcases List.mem_append.mp h with h | h
  · exact Nat.lt_of_lt_of_le (call_of_mem_pastScript h) hreceived
  · cases hget : calls[phase.call]? with
    | none => rw [hget] at h; cases h
    | some call =>
      rw [hget] at h
      have hbody : ∀ {n i : Nat}, c ∈ bodyScript n i → c.call < n + 1 := by
        intro n i hc
        obtain ⟨j, -, rfl⟩ := List.mem_map.mp hc
        exact Nat.lt_succ_self n
      have hstatus : ∀ {n i : Nat}, c ∈ bodyScript n i ++ statusScript cfg n call →
          c.call < n + 1 := by
        intro n i hc
        rcases List.mem_append.mp hc with hc | hc
        · exact hbody hc
        · unfold statusScript at hc
          split at hc
          · rw [List.mem_singleton.mp hc]
            exact Nat.lt_succ_self n
          · cases hc
      cases phase with
      | body n i | inBody n i | syncing n | flagged n | collecting n w failed
      | reading n w failed | taken n w failed status => exact hbody h
      | inStatus n | gathering n => exact hstatus h
      | inResult n | returned n raised =>
        exact Nat.lt_succ_of_le (Nat.le_of_eq (call_of_mem_callScript h))
      | _ => cases h

theorem not_hostCall {n : Nat} {call : RpcCall} (get : calls[n]? = some call)
    (sync : statusSync cfg call.method ≠ .host) : ¬ HostCall cfg calls n := by
  rintro ⟨other, hother, hhost⟩
  rw [get] at hother
  cases hother
  exact sync hhost

/-- Rank 0 takes the status of a worker. -/
theorem linked_take {n w : Nat} {failed failed' : Bool} {status : RunStatus}
    (h : Linked cfg calls worker (.taken n w failed status) (s.phase worker) (s.commandEvent worker)
      (s.completionEvent worker) (s.runStatus worker)) :
    Linked cfg calls worker (.collecting n (w + 1) failed') (s.phase worker) (s.commandEvent worker)
      (Function.update s.completionEvent w false worker) (s.runStatus worker) := by
  by_cases heq : w = worker
  · subst heq
    rw [Function.update_self]
    exact h.consume (h.reads rfl) rfl rfl (if_neg (Nat.lt_irrefl w)) (if_pos (Nat.lt_succ_self w)) id
  · rw [Function.update_of_ne (Ne.symm heq)]
    have hiff : worker < w + 1 ↔ worker < w := by omega
    exact h.stay rfl rfl (if_congr hiff rfl rfl) (fun hknows => h.knows (hiff.mp hknows)) nofun

/-- What rank 0 does keeps it linked with a worker. -/
theorem linked_caller {call : RpcCall} {effect : TpEffect} (get : calls[caller.call]? = some call)
    (moves : Moves cfg s call 0 caller effect caller') (ok : PhaseOk cfg calls 0 caller)
    (scripts : ScriptsOk cfg calls s) (paired : Paired cfg calls s) (now : s.phase 0 = caller)
    (pos : 0 < worker) (lt : worker < cfg.worldSize)
    (flagged : ∀ n, s.phase worker = .flagged n → HostCall cfg calls n)
    (h : Linked cfg calls worker caller (s.phase worker) (s.commandEvent worker)
      (s.completionEvent worker) (s.runStatus worker)) :
    Linked cfg calls worker caller' (s.phase worker) ((s.apply 0 effect caller').commandEvent worker)
      ((s.apply 0 effect caller').completionEvent worker)
      ((s.apply 0 effect caller').runStatus worker) := by
  have hin := ok.inCall get moves
  have hhost : statusSync cfg call.method ≠ .host → ¬ HostCall cfg calls caller.call :=
    not_hostCall get
  cases moves with
  | alone hworld => omega
  | write hworld => exact h.stay rfl (if_neg (by omega)) rfl nofun nofun
  | @clear n w hw =>
    have hstay : Linked cfg calls worker (.pending n w) (s.phase worker) (s.commandEvent worker)
        (s.completionEvent worker) (s.runStatus worker) := h.stay rfl rfl rfl nofun nofun
    show Linked _ _ _ _ _ (s.commandEvent worker) (Function.update s.completionEvent w false worker)
      (s.runStatus worker)
    by_cases heq : w = worker
    · subst heq
      rw [Function.update_self, ← h.uncompleted (if_neg (Nat.lt_irrefl w))]
      exact hstay
    · rw [Function.update_of_ne (Ne.symm heq)]
      exact hstay
  | @pend n w =>
    have hstay : Linked cfg calls worker (.commanding n w) (s.phase worker) (s.commandEvent worker)
        (s.completionEvent worker) (s.runStatus worker) := h.stay rfl rfl rfl nofun nofun
    show Linked _ _ _ _ _ (s.commandEvent worker) (s.completionEvent worker)
      (Function.update s.runStatus w {} worker)
    by_cases heq : w = worker
    · subst heq
      rw [Function.update_self]
      exact hstay.reset (if_neg (Nat.lt_irrefl w)) flagged
    · rw [Function.update_of_ne (Ne.symm heq)]
      exact hstay
  | @command n w =>
    show Linked _ _ _ _ _ (Function.update s.commandEvent w true worker) (s.completionEvent worker)
      (s.runStatus worker)
    by_cases heq : w = worker
    · subst heq
      rw [Function.update_self]
      exact h.send rfl (if_neg (Nat.lt_irrefl w)) (if_pos (Nat.lt_succ_self w)) rfl id id
    · rw [Function.update_of_ne (Ne.symm heq)]
      refine h.stay rfl ?_ rfl nofun nofun
      show (if worker < w + 1 then n + 1 else n) = if worker < w then n + 1 else n
      exact if_congr (by omega) rfl rfl
  | @wait n w hall hsync =>
    have hsent : (TpPhase.clearing n w).sent worker = n + 1 := if_pos (by omega)
    exact h.stay rfl hsent.symm rfl (fun hknows => absurd hknows (Nat.not_lt.mpr pos)) nofun
  | @begin n w hall hsync =>
    have hsent : (TpPhase.clearing n w).sent worker = n + 1 := if_pos (by omega)
    refine h.stay rfl hsent.symm rfl ?_ nofun
    rintro ⟨other, hother, hunsync⟩
    rw [show calls[n]? = some call from get] at hother
    cases hother
    exact absurd hunsync hsync
  | @ack n w hw hevent =>
    refine h.stay rfl rfl rfl (fun hknows => ?_) nofun
    rcases Nat.lt_succ_iff_lt_or_eq.mp hknows with hlt | rfl
    · exact h.knows hlt
    · have hcommand := h.commanded
      rw [hevent] at hcommand
      exact Nat.not_lt.mp (of_decide_eq_false hcommand.symm)
  | @acked n w hall =>
    exact h.stay rfl rfl rfl (fun _ => h.knows (Nat.lt_of_lt_of_le lt hall)) nofun
  | enterBody hmore | leaveBody hmet =>
    exact h.stay rfl rfl rfl (fun hknows => h.knows hknows) nofun
  | unsynchronized hover hsync =>
    exact h.skip (hhost (by rw [hsync]; nofun)) rfl rfl rfl rfl (h.knows ⟨call, get, hsync⟩) id
  | synchronize hover hsync => exact h.stay rfl rfl rfl nofun nofun
  | single hworld => omega
  | flag hworld hsync hworker => exact absurd hworker (Nat.lt_irrefl 0)
  | complete => exact absurd (hin.resolve_right nofun).1 (Nat.lt_irrefl 0)
  | collect hworld hsync hcaller =>
    refine h.stay rfl rfl (if_neg (by omega)) (fun hknows => ?_) nofun
    exact absurd hknows (Nat.not_lt.mpr pos)
  | completed hw hevent =>
    exact h.stay rfl rfl rfl (fun hknows => h.knows hknows) fun hreads => hreads ▸ hevent
  | readStatus => exact h.stay rfl rfl rfl (fun hknows => h.knows hknows) fun hreads => h.reads hreads
  | @takeFailed n w failed | @takeSuccess n w failed => exact linked_take h
  | takePending =>
    obtain ⟨-, -, -, -, -, -, hstatus⟩ := hin.resolve_right nofun
    split at hstatus <;> cases hstatus
  | @collected n w failed hall =>
    have hconsumed : (TpPhase.collecting n w failed).consumed worker = n + 1 := if_pos (by omega)
    exact h.stay rfl rfl hconsumed.symm (fun _ => h.knows (Nat.lt_of_lt_of_le lt hall)) nofun
  | enterStatus hworld hsync => exact h.stay rfl rfl rfl nofun nofun
  | @leaveStatus n values hmet =>
    obtain ⟨hrpc, hworld⟩ := hin.resolve_right nofun
    obtain ⟨hentered, -⟩ := gathered_eq_some scripts paired (Nat.zero_lt_of_lt lt) now
      (inStatus_last get hrpc hworld) hmet
    have hread : n < (s.phase worker).received := call_lt_received (hentered worker lt)
    have hno : ¬ HostCall cfg calls n := hhost (by rw [hrpc]; nofun)
    split
    · exact h.skip hno rfl rfl rfl rfl hread id
    · obtain ⟨hcall, hsent, hconsumed, hreads⟩ := afterStatus_counts call 0 n worker
      exact h.skip hno hcall hsent rfl hconsumed hread hreads
  | keepResult hworld => omega
  | enterResult hworld | leaveResult hmet =>
    exact h.stay rfl rfl rfl (fun _ => h.knows trivial) nofun
  | next hcaller => exact h.next
  | die hworker hends | loop hworker hsurvives => exact absurd rfl hworker

/-! ## The steps of a worker -/

namespace Linked

/-- A step of a worker that changes no count. -/
theorem workerStay (h : Linked cfg calls worker caller present command completion byte)
    (received : present'.received = present.received) (given : present'.given = present.given)
    (awake : present'.Awake → command = true)
    (flagged : ∀ n, present' = .flagged n → byte = verdict calls worker n) :
    Linked cfg calls worker caller present' command completion byte where
  call_le := received ▸ h.call_le
  received_le := received ▸ h.received_le
  commanded := received ▸ h.commanded
  awake hawake := by
    have hcommand := h.commanded
    rw [awake hawake] at hcommand
    exact received ▸ of_decide_eq_true hcommand.symm
  knows := received ▸ h.knows
  behind := given ▸ h.behind
  completed_iff := given ▸ h.completed_iff
  flagged := flagged
  completed := h.completed
  reads := h.reads

/-- The worker has read its command. -/
theorem receive {n : Nat} (h : Linked cfg calls worker caller (.loaded n) command completion byte) :
    Linked cfg calls worker caller (.body n 0) false completion byte where
  call_le := Nat.le_succ_of_le h.call_le
  received_le := h.awake trivial
  commanded := by
    have hlt := h.awake trivial
    have hsent := caller.sent_le worker
    have hcall := h.call_le
    simp only [TpPhase.received] at hlt hcall
    exact (decide_eq_false (by simp only [TpPhase.received, TpPhase.call]; omega)).symm
  awake := nofun
  knows hknows := Nat.lt_succ_of_lt (h.knows hknows)
  behind := h.behind
  completed_iff := h.completed_iff
  flagged := nofun
  completed := h.completed
  reads := h.reads

/-- The worker is past the status of a call that needs no byte. -/
theorem workerSkip (h : Linked cfg calls worker caller present command completion byte)
    (nohost : ¬ HostCall cfg calls present.given)
    (received : present'.received = present.received)
    (given : present'.given = present.given + 1) (awake : ¬ present'.Awake)
    (flagged : ∀ n, present' ≠ .flagged n) :
    Linked cfg calls worker caller present' command completion byte where
  call_le := received ▸ h.call_le
  received_le := received ▸ h.received_le
  commanded := received ▸ h.commanded
  awake hawake := absurd hawake awake
  knows := received ▸ h.knows
  behind m hm hlt := by
    have := h.behind m hm hlt
    omega
  completed_iff := by
    rw [h.completed_iff, given]
    constructor
    · rintro ⟨m, hm, hle, hlt⟩
      exact ⟨m, hm, hle, by omega⟩
    · rintro ⟨m, hm, hle, hlt⟩
      have hne : m ≠ present.given := fun heq => nohost (heq ▸ hm)
      exact ⟨m, hm, hle, by omega⟩
  flagged n hn := absurd hn (flagged n)
  completed := h.completed
  reads := h.reads

/-- The worker sets its completion event. -/
theorem complete {n : Nat} {raised : Bool} (host : HostCall cfg calls n)
    (h : Linked cfg calls worker caller (.flagged n) command completion byte) :
    Linked cfg calls worker caller (.returned n raised) command true byte := by
  have hreceived := h.received_le
  have hsent := caller.sent_le worker
  have hconsumed := caller.consumed_le worker
  have hbehind := h.behind n host
  simp only [TpPhase.received, TpPhase.given, TpPhase.call] at hreceived hbehind
  have hcall : n = caller.call := by omega
  have hbefore : caller.consumed worker = n := by
    by_contra hne
    have := hbehind (by omega)
    omega
  refine ⟨h.call_le, h.received_le, h.commanded, nofun, h.knows, fun m hm hlt => ?_,
    ⟨fun _ => ⟨n, host, Nat.le_of_eq hbefore, Nat.lt_succ_self n⟩, fun _ => rfl⟩, nofun, fun _ => ?_,
    fun _ => rfl⟩
  · show m < n + 1
    omega
  · exact hcall ▸ h.flagged n rfl

end Linked

/-- What a worker does keeps it linked with rank 0. -/
theorem linked_worker {effect : TpEffect} (acts : Acts cfg calls s worker present effect present')
    (ok : PhaseOk cfg calls worker present) (pos : 0 < worker) (lt : worker < cfg.worldSize)
    (buffered : ∀ n m, present = .woken n → s.buffer = some m → m = n)
    (h : Linked cfg calls worker caller present (s.commandEvent worker) (s.completionEvent worker)
      (s.runStatus worker)) :
    Linked cfg calls worker caller present' ((s.apply worker effect present').commandEvent worker)
      ((s.apply worker effect present').completionEvent worker)
      ((s.apply worker effect present').runStatus worker) := by
  cases acts with
  | wake hevent => exact h.workerStay rfl rfl (fun _ => hevent) nofun
  | @load n m hbuffer =>
    obtain rfl := buffered n m rfl hbuffer
    have hcommand : s.commandEvent worker = true := by
      rw [h.commanded]
      exact decide_eq_true (h.awake trivial)
    exact h.workerStay rfl rfl (fun _ => hcommand) nofun
  | @read n =>
    show Linked _ _ _ _ _ (Function.update s.commandEvent worker false worker) _ _
    rw [Function.update_self]
    exact h.receive
  | @inCall call _ _ _ get moves =>
    have hin := ok.inCall get moves
    have hworker : worker ≠ 0 := Nat.pos_iff_ne_zero.mp pos
    have hhost : statusSync cfg call.method ≠ .host → ¬ HostCall cfg calls present.call :=
      not_hostCall get
    cases moves with
    | alone hworld | single hworld | keepResult hworld => omega
    | write hworld => exact absurd ok hworker
    | clear hw | pend | command | wait hall hsync | begin hall hsync | ack hw hevent
    | acked hall | completed hw hevent | readStatus | takeFailed | takeSuccess | takePending
    | collected hall => exact absurd (hin.resolve_right nofun).1 hworker
    | enterBody hmore | leaveBody hmet | synchronize hover hsync | enterStatus hworld hsync
    | enterResult hworld | leaveResult hmet | die _ hends | loop _ hsurvives =>
      exact h.workerStay rfl rfl nofun nofun
    | unsynchronized hover hsync =>
      exact h.workerSkip (hhost (by rw [hsync]; nofun)) rfl rfl id nofun
    | @flag n hworld hsync _ =>
      show Linked _ _ _ _ _ _ _ (Function.update s.runStatus worker _ worker)
      rw [Function.update_self]
      have hverdict : (⟨if call.hostError worker then .failed else .success, some n⟩ : StatusByte) =
          verdict calls worker n := by
        unfold verdict
        rw [show calls[n]? = some call from get]
        rfl
      rw [hverdict]
      have hhostCall : HostCall cfg calls n := ⟨call, get, hsync⟩
      refine { h with
        call_le := h.call_le
        awake := nofun
        flagged := fun m hm => TpPhase.flagged.inj hm ▸ rfl
        completed := fun hcompletion => ?_ }
      obtain ⟨m, -, hle, hlt⟩ := h.completed_iff.mp hcompletion
      have hconsumed := caller.consumed_le worker
      have hcall := h.received_le
      have hsent := caller.sent_le worker
      simp only [TpPhase.given, TpPhase.received, TpPhase.call] at hlt hcall
      omega
    | @complete n =>
      show Linked _ _ _ _ _ _ (Function.update s.completionEvent worker true worker) _
      rw [Function.update_self]
      exact h.complete ⟨call, get, (hin.resolve_right nofun).2.2⟩
    | collect hworld hsync hcaller | next hcaller => exact absurd hcaller hworker
    | @leaveStatus n values hmet =>
      obtain ⟨hrpc, -⟩ := hin.resolve_right nofun
      have hno : ¬ HostCall cfg calls n := hhost (by rw [hrpc]; nofun)
      split
      · exact h.workerSkip hno rfl rfl id nofun
      · unfold afterStatus
        split
        · exact h.workerSkip hno rfl rfl id nofun
        · split
          · exact h.workerSkip hno rfl rfl id nofun
          · exact h.workerSkip hno rfl rfl id nofun

/-! ## The scripts of the ranks -/

theorem pastScript_extends {m n : Nat} (le : m ≤ n) :
    pastScript cfg calls rank m <+: pastScript cfg calls rank n := by
  induction n with
  | zero =>
    rw [Nat.le_zero.mp le]
  | succ n ih =>
    rcases Nat.le_succ_iff.mp le with hle | rfl
    · exact (ih hle).trans (List.prefix_append _ _)
    · exact List.prefix_rfl

theorem bodyScript_extends {n i j : Nat} (le : i ≤ j) : bodyScript n i <+: bodyScript n j := by
  obtain ⟨d, rfl⟩ := Nat.exists_eq_add_of_le le
  induction d with
  | zero => exact List.prefix_rfl
  | succ d ih =>
    rw [← Nat.add_assoc, bodyScript_succ]
    exact (ih (Nat.le_add_right _ _)).trans (List.prefix_append _ _)

theorem presentScript_extends {phase : TpPhase} {call : RpcCall}
    (ok : PhaseOk cfg calls rank phase) (get : calls[phase.call]? = some call) :
    presentScript cfg rank call phase <+: callScript cfg rank phase.call call := by
  have hin := phaseIn_of_get cfg rank get
  have hbodies : ∀ {n i : Nat}, i ≤ call.bodyEnters rank →
      bodyScript n i <+: callScript cfg rank n call := fun hle =>
    (bodyScript_extends hle).trans ((List.prefix_append _ _).trans (List.prefix_append _ _))
  cases phase with
  | body n i | inBody n i => exact hbodies (hin ok)
  | syncing n | flagged n | collecting n w failed | reading n w failed
  | taken n w failed status => exact hbodies (Nat.le_refl _)
  | inStatus n | gathering n => exact List.prefix_append _ _
  | inResult n | returned n raised => exact List.prefix_rfl
  | _ => exact List.nil_prefix

/-- A rank has entered no more than the collectives of the calls it has received. -/
theorem phaseScript_received {phase : TpPhase} (ok : PhaseOk cfg calls rank phase) :
    phaseScript cfg calls rank phase <+: pastScript cfg calls rank phase.received := by
  have houtside : (∀ call, presentScript cfg rank call phase = []) →
      phaseScript cfg calls rank phase <+: pastScript cfg calls rank phase.received := fun h => by
    rw [phaseScript_outside h]
    refine pastScript_extends ?_
    cases phase <;> simp only [TpPhase.received, TpPhase.call] <;> omega
  have hinside : phase.received = phase.call + 1 →
      phaseScript cfg calls rank phase <+: pastScript cfg calls rank phase.received := fun h => by
    rw [h]
    cases hget : calls[phase.call]? with
    | none =>
      unfold phaseScript
      rw [hget, Option.elim_none, List.append_nil]
      exact pastScript_extends (Nat.le_succ _)
    | some call =>
      rw [phaseScript_eq hget, pastScript_succ hget]
      exact (List.prefix_append_right_inj _).mpr (presentScript_extends ok hget)
  cases phase with
  | idle n | woken n | loaded n | gone n => exact houtside fun _ => rfl
  | _ => exact hinside rfl

/-- No collective stands twice in the script. -/
theorem pastScript_nodup (n : Nat) : (pastScript cfg calls rank n).Nodup := by
  induction n with
  | zero => exact List.nodup_nil
  | succ n ih =>
    cases hget : calls[n]? with
    | none =>
      show (pastScript cfg calls rank n ++ calls[n]?.elim [] _).Nodup
      rw [hget, Option.elim_none, List.append_nil]
      exact ih
    | some call =>
      rw [pastScript_succ hget]
      refine List.nodup_append.mpr ⟨ih, ?_, fun a ha b hb hab => ?_⟩
      · unfold callScript bodyScript statusScript resultScript
        have hbody : ((List.range (call.bodyEnters rank)).map (Collective.body n)).Nodup :=
          List.Nodup.map (fun i j h => (Collective.body.inj h).2) List.nodup_range
        split <;> split <;> simp [List.nodup_append, hbody]
      · have hlt := call_of_mem_pastScript ha
        rw [hab, call_of_mem_callScript hb] at hlt
        exact Nat.lt_irrefl n hlt

/-- Up to a call the body enters on every rank as many collectives as on rank 0. -/
def Even (cfg : TpConfig) (calls : List RpcCall) (k : Nat) : Prop :=
  ∀ n call, n ≤ k → calls[n]? = some call → ∀ rank < cfg.worldSize,
    call.bodyEnters rank = call.bodyEnters 0

theorem Even.pastScript_eq {k : Nat} (h : Even cfg calls k) (lt : rank < cfg.worldSize) {n : Nat}
    (le : n ≤ k + 1) : pastScript cfg calls rank n = pastScript cfg calls 0 n := by
  induction n with
  | zero => rfl
  | succ n ih =>
    show _ ++ calls[n]?.elim [] _ = _ ++ calls[n]?.elim [] _
    rw [ih (by omega)]
    cases hget : calls[n]? with
    | none => rfl
    | some call =>
      show _ ++ callScript cfg rank n call = _ ++ callScript cfg 0 n call
      unfold callScript
      rw [h n call (by omega) hget rank lt]

/-! ## The run -/

/-- The invariant of the runs. -/
structure TpInv (cfg : TpConfig) (calls : List RpcCall) (s : TpState) : Prop where
  phases : ∀ rank < cfg.worldSize, PhaseOk cfg calls rank (s.phase rank)
  bounded : ∀ rank < cfg.worldSize, (s.phase rank).call ≤ calls.length
  scripts : ScriptsOk cfg calls s
  buffered : 1 < cfg.worldSize → (∀ n, s.phase 0 ≠ .ready n) → s.buffer = some (s.phase 0).call
  stored : ∀ m, s.buffer = some m → ∃ call, calls[m]? = some call
  outcomes : ∀ rank < cfg.worldSize,
    s.outcomes rank = (calls.take (s.phase rank).call).map fun call => call.raises cfg rank
  linked : ∀ worker, 0 < worker → worker < cfg.worldSize →
    Linked cfg calls worker (s.phase 0) (s.phase worker) (s.commandEvent worker)
      (s.completionEvent worker) (s.runStatus worker)

/-- The command a worker is about to load is the one after those it has read. -/
theorem TpInv.buffer_eq (h : TpInv cfg calls s) {worker : Nat} (pos : 0 < worker)
    (lt : worker < cfg.worldSize) {n m : Nat} (phase : s.phase worker = .woken n)
    (stored : s.buffer = some m) : m = n := by
  have hlink := h.linked worker pos lt
  rw [phase] at hlink
  have hawake := hlink.awake trivial
  have hcall := hlink.call_le
  have hsent := (s.phase 0).sent_le worker
  simp only [TpPhase.received] at hawake hcall
  have hbusy : ∀ k, s.phase 0 ≠ .ready k := by
    intro k hk
    rw [hk] at hawake hcall
    simp only [TpPhase.sent, TpPhase.call] at hawake hcall
    omega
  have hbuffer := h.buffered (by omega) hbusy
  rw [stored] at hbuffer
  have := Option.some.inj hbuffer
  omega

/-- The status byte that rank 0 reads. -/
theorem TpInv.byte_eq (h : TpInv cfg calls s) {n worker : Nat} {failed : Bool} (pos : 0 < worker)
    (lt : worker < cfg.worldSize) (phase : s.phase 0 = .reading n worker failed) :
    s.runStatus worker = verdict calls worker n := by
  have hlink := h.linked worker pos lt
  rw [phase] at hlink
  exact hlink.completed (hlink.reads rfl)

/-- While the bodies are even, the ranks follow one script. -/
theorem TpInv.paired (h : TpInv cfg calls s) (even : Even cfg calls (s.phase 0).call) :
    Paired cfg calls s := by
  refine ⟨pastScript cfg calls 0 ((s.phase 0).call + 1), pastScript_nodup _, fun rank lt => ?_⟩
  rw [← even.pastScript_eq lt (Nat.le_refl _)]
  refine (phaseScript_received (h.phases rank lt)).trans (pastScript_extends ?_)
  rcases Nat.eq_zero_or_pos rank with rfl | hpos
  · have hcaller := h.phases 0 lt
    cases hp : s.phase 0 <;> simp only [TpPhase.received, TpPhase.call] <;> omega
  · exact (h.linked rank hpos lt).received_le.trans ((s.phase 0).sent_le rank).2

theorem TpInv.init (cfg : TpConfig) (calls : List RpcCall) : TpInv cfg calls {} where
  phases rank _ := by
    show PhaseOk cfg calls rank (if rank = 0 then .ready 0 else .idle 0)
    split
    · assumption
    · exact Nat.pos_of_ne_zero ‹_›
  bounded rank _ := by
    show TpPhase.call (if rank = 0 then .ready 0 else .idle 0) ≤ _
    split <;> exact Nat.zero_le _
  scripts rank _ := by
    show [] = (phaseScript cfg calls rank (if rank = 0 then .ready 0 else .idle 0)).map _
    split
    · rw [phaseScript_outside fun _ => rfl]
      rfl
    · rw [phaseScript_outside fun _ => rfl]
      rfl
  buffered _ h := absurd rfl (h 0)
  stored := nofun
  outcomes rank _ := by
    show [] = (calls.take (TpPhase.call (if rank = 0 then .ready 0 else .idle 0))).map _
    split <;> rfl
  linked worker pos _ := by
    have hidle : (({} : TpState).phase worker) = .idle 0 := if_neg (Nat.pos_iff_ne_zero.mp pos)
    rw [hidle]
    refine ⟨Nat.le_refl 0, Nat.le_refl 0, rfl, nofun, nofun, nofun, ⟨nofun, ?_⟩, nofun, nofun, nofun⟩
    rintro ⟨m, -, -, hlt⟩
    exact absurd hlt (Nat.not_lt_zero m)

theorem apply_outcomes (s : TpState) (rank : Nat) (effect : TpEffect) (phase : TpPhase)
    {other : Nat} (h : ∀ raised, effect ≠ .finish raised) :
    (s.apply rank effect phase).outcomes other = s.outcomes other := by
  cases effect with
  | finish raised => exact absurd rfl (h raised)
  | _ => rfl

/-- A worker's step does not reach what rank 0 and another worker share. -/
theorem apply_others {effect : TpEffect} {phase phase' : TpPhase} {other : Nat} (ne : other ≠ rank)
    (pos : 0 < rank) (acts : Acts cfg calls s rank phase effect phase')
    (ok : PhaseOk cfg calls rank phase) :
    (s.apply rank effect phase').commandEvent other = s.commandEvent other ∧
      (s.apply rank effect phase').completionEvent other = s.completionEvent other ∧
      (s.apply rank effect phase').runStatus other = s.runStatus other ∧
      (s.apply rank effect phase').buffer = s.buffer := by
  have hworker : rank ≠ 0 := Nat.pos_iff_ne_zero.mp pos
  cases acts with
  | wake hevent | load hbuffer => exact ⟨rfl, rfl, rfl, rfl⟩
  | read => exact ⟨Function.update_of_ne ne _ _, rfl, rfl, rfl⟩
  | @inCall call _ _ _ get moves =>
    have hin := ok.inCall get moves
    cases moves with
    | write hworld => exact absurd ok hworker
    | clear hw | pend | command | takeFailed | takeSuccess | takePending =>
      exact absurd (hin.resolve_right nofun).1 hworker
    | flag hworld hsync _ => exact ⟨rfl, rfl, Function.update_of_ne ne _ _, rfl⟩
    | complete => exact ⟨rfl, Function.update_of_ne ne _ _, rfl, rfl⟩
    | _ => exact ⟨rfl, rfl, rfl, rfl⟩

theorem TpInv.advanced (h : TpInv cfg calls s) (even : Even cfg calls (s.phase 0).call)
    (lt : rank < cfg.worldSize) {effect : TpEffect} {phase' : TpPhase}
    (acts : Acts cfg calls s rank (s.phase rank) effect phase') :
    ∃ joined, RankAdvanced cfg calls rank (s.phase rank) effect phase' joined := by
  have hok := h.phases rank lt
  generalize hphase : s.phase rank = phase at acts hok ⊢
  cases acts with
  | @wake n hevent =>
    refine ⟨[], hok, ?_, rfl⟩
    rw [phaseScript_outside fun _ => rfl, phaseScript_outside fun _ => rfl, List.append_nil]
    rfl
  | @load n m hbuffer =>
    obtain rfl := h.buffer_eq hok lt hphase hbuffer
    refine ⟨[], ⟨hok, h.stored m hbuffer⟩, ?_, rfl⟩
    rw [phaseScript_outside fun _ => rfl, phaseScript_outside fun _ => rfl, List.append_nil]
    rfl
  | @read n =>
    obtain ⟨hpos, call, hget⟩ := hok
    refine ⟨[], ⟨call, hget, Nat.zero_le _⟩, ?_, rfl⟩
    rw [phaseScript_eq (show calls[(TpPhase.body n 0).call]? = some call from hget),
      phaseScript_outside fun _ => rfl]
    rfl
  | @inCall call _ _ _ get moves =>
    refine moves_advanced get moves lt hok h.scripts (h.paired even) hphase
      fun n w failed hreading => ?_
    subst hreading
    obtain ⟨other, hother, hcaller, -, -, hpos, hw, -⟩ := hok
    rw [hcaller] at hphase
    rw [h.byte_eq hpos hw hphase]
    unfold verdict
    rw [show calls[n]? = some call from get]
    rfl

theorem afterStatus_call (call : RpcCall) (rank n : Nat) : (afterStatus call rank n).call = n := by
  unfold afterStatus
  split
  · rfl
  · split <;> rfl

/-- Only the end of a call changes the number of the call, and only it has an outcome. -/
theorem moves_call {call : RpcCall} {phase phase' : TpPhase} {effect : TpEffect}
    (moves : Moves cfg s call rank phase effect phase') :
    (∃ n raised, phase = .returned n raised ∧ effect = .finish raised ∧ phase'.call = n + 1) ∨
      phase'.call = phase.call ∧ (∀ n, phase' ≠ .ready n) ∧ ∀ raised, effect ≠ .finish raised := by
  have hafter : ∀ n, (∀ m, afterStatus call rank n ≠ .ready m) := by
    intro n m
    unfold afterStatus
    split
    · nofun
    · split <;> nofun
  cases moves with
  | next | die | loop => exact Or.inl ⟨_, _, rfl, rfl, rfl⟩
  | single => exact Or.inr ⟨afterStatus_call call rank _, hafter _, nofun⟩
  | leaveStatus =>
    refine Or.inr ?_
    split
    · exact ⟨rfl, nofun, nofun⟩
    · exact ⟨afterStatus_call call rank _, hafter _, nofun⟩
  | _ => exact Or.inr ⟨rfl, nofun, nofun⟩

theorem acts_bounded {phase phase' : TpPhase} {effect : TpEffect}
    (acts : Acts cfg calls s rank phase effect phase') (bounded : phase.call ≤ calls.length)
    (buffered : ∀ n m, phase = .woken n → s.buffer = some m → m = n) :
    phase'.call ≤ calls.length := by
  cases acts with
  | wake hevent | read => exact bounded
  | load hbuffer =>
    obtain rfl := buffered _ _ rfl hbuffer
    exact bounded
  | inCall get moves =>
    have hlt := (List.getElem?_eq_some_iff.mp get).1
    rcases moves_call moves with ⟨n, raised, rfl, rfl, hcall⟩ | ⟨hcall, -, -⟩
    · rw [hcall]
      exact hlt
    · rw [hcall]
      exact bounded

/-- Rank 0 reads no command. -/
theorem caller_moves {phase phase' : TpPhase} {effect : TpEffect}
    (acts : Acts cfg calls s 0 phase effect phase') (ok : PhaseOk cfg calls 0 phase) :
    ∃ call, calls[phase.call]? = some call ∧ Moves cfg s call 0 phase effect phase' := by
  cases acts with
  | wake hevent | load hbuffer => exact absurd ok (Nat.lt_irrefl 0)
  | read => exact absurd ok.1 (Nat.lt_irrefl 0)
  | inCall get moves => exact ⟨_, get, moves⟩

/-- Past `write_shm` the buffer holds the present command. -/
theorem Moves.buffer {call : RpcCall} {phase phase' : TpPhase} {effect : TpEffect}
    (moves : Moves cfg s call 0 phase effect phase') (world : 1 < cfg.worldSize)
    (busy : ∀ n, phase' ≠ .ready n)
    (h : (∀ n, phase ≠ .ready n) → s.buffer = some phase.call) :
    (s.apply 0 effect phase').buffer = some phase'.call := by
  rcases moves_call moves with ⟨n, raised, rfl, rfl, -⟩ | ⟨hcall, -, -⟩
  · cases moves with
    | next hcaller => exact absurd rfl (busy _)
    | die hworker hends | loop hworker hsurvives => exact absurd rfl hworker
  · rw [hcall]
    cases moves with
    | alone hworld => omega
    | write hworld => rfl
    | _ => exact h nofun

theorem Moves.stored {call : RpcCall} {phase phase' : TpPhase} {effect : TpEffect} {m : Nat}
    (moves : Moves cfg s call 0 phase effect phase')
    (h : (s.apply 0 effect phase').buffer = some m) : s.buffer = some m ∨ phase.call = m := by
  cases moves with
  | write hworld => exact Or.inr (Option.some.inj h)
  | _ => exact Or.inl h

theorem TpInv.step (h : TpInv cfg calls s) (even : Even cfg calls (s.phase 0).call)
    (lt : rank < cfg.worldSize)
    (run : s.step cfg calls rank = some t) : TpInv cfg calls t := by
  obtain ⟨effect, phase', hacts, rfl⟩ := step_acts run
  have hok := h.phases rank lt
  obtain ⟨joined, hphase, hscript, hjoined⟩ := h.advanced even lt hacts
  have hupdate : ∀ other, other ≠ rank →
      (s.apply rank effect phase').phase other = s.phase other := fun other hne => by
    rw [apply_phase, Function.update_of_ne hne]
  have hself : (s.apply rank effect phase').phase rank = phase' := by
    rw [apply_phase, Function.update_self]
  refine ⟨fun other hother => ?_, fun other hother => ?_, fun other hother => ?_,
    fun hworld hready => ?_, fun m hm => ?_, fun other hother => ?_, fun worker hpos hlt => ?_⟩
  · by_cases heq : other = rank
    · rw [heq, hself]
      exact hphase
    · rw [hupdate other heq]
      exact h.phases other hother
  · by_cases heq : other = rank
    · rw [heq, hself]
      refine acts_bounded hacts (h.bounded rank lt) fun n m hn => ?_
      rw [hn] at hok
      exact h.buffer_eq hok lt hn
    · rw [hupdate other heq]
      exact h.bounded other hother
  · rw [apply_entered]
    by_cases heq : other = rank
    · rw [heq, hself, hscript, Function.update_self, List.map_append, ← hjoined, h.scripts rank lt]
    · rw [hupdate other heq, Function.update_of_ne heq]
      exact h.scripts other hother
  · rcases Nat.eq_zero_or_pos rank with rfl | hpos
    · rw [hself] at hready ⊢
      obtain ⟨call, hget, hmoves⟩ := caller_moves hacts hok
      exact hmoves.buffer hworld hready (h.buffered hworld)
    · rw [hupdate 0 (Nat.ne_of_lt hpos)] at hready ⊢
      rw [(apply_others (Nat.ne_of_lt hpos) hpos hacts hok).2.2.2]
      exact h.buffered hworld hready
  · rcases Nat.eq_zero_or_pos rank with rfl | hpos
    · obtain ⟨call, hget, hmoves⟩ := caller_moves hacts hok
      rcases hmoves.stored hm with hm | hm
      · exact h.stored m hm
      · exact ⟨call, hm ▸ hget⟩
    · rw [(apply_others (Nat.ne_of_lt hpos) hpos hacts hok).2.2.2] at hm
      exact h.stored m hm
  · have hquiet : (∀ raised, effect ≠ .finish raised) → phase'.call = (s.phase rank).call →
        (s.apply rank effect phase').outcomes other =
          (calls.take ((s.apply rank effect phase').phase other).call).map fun call =>
            call.raises cfg other := by
      intro heffect hcall
      rw [apply_outcomes s rank effect phase' heffect, h.outcomes other hother]
      by_cases heq : other = rank
      · rw [heq, hself, hcall]
      · rw [hupdate other heq]
    generalize hp : s.phase rank = phase at hacts hok hquiet
    cases hacts with
    | wake hevent | read => exact hquiet nofun rfl
    | load hbuffer =>
      obtain rfl := h.buffer_eq hok lt hp hbuffer
      exact hquiet nofun rfl
    | @inCall call _ _ _ get moves =>
      rcases moves_call moves with ⟨n, raised, rfl, rfl, hcall⟩ | ⟨hcall, -, heffect⟩
      · by_cases heq : other = rank
        · subst heq
          obtain ⟨call', hget', hraised⟩ := hok
          rw [hself, hcall]
          show Function.update s.outcomes other (s.outcomes other ++ [raised]) other = _
          rw [Function.update_self, h.outcomes other hother, hp, List.take_add_one,
            show calls[n]? = some call' from hget', show raised = call'.raises cfg other from hraised,
            List.map_append]
          rfl
        · rw [hupdate other heq]
          show Function.update s.outcomes rank _ other = _
          rw [Function.update_of_ne heq]
          exact h.outcomes other hother
      · exact hquiet heffect hcall
  · have hlink := h.linked worker hpos hlt
    have hflagged : ∀ n, s.phase worker = .flagged n → HostCall cfg calls n := by
      intro n hn
      have hworker := h.phases worker hlt
      rw [hn] at hworker
      obtain ⟨call, hget, -, -, hsync⟩ := hworker
      exact ⟨call, hget, hsync⟩
    rcases Nat.eq_zero_or_pos rank with rfl | hrank
    · obtain ⟨call, hget, hmoves⟩ := caller_moves hacts hok
      rw [hself, hupdate worker (Nat.pos_iff_ne_zero.mp hpos)]
      exact linked_caller hget hmoves hok h.scripts (h.paired even) rfl hpos hlt hflagged hlink
    · rw [hupdate 0 (Nat.ne_of_lt hrank)]
      by_cases heq : worker = rank
      · subst heq
        rw [hself]
        exact linked_worker hacts hok hpos hlt (fun n m hn => h.buffer_eq hpos hlt hn) hlink
      · rw [hupdate worker heq]
        obtain ⟨hcommand, hcompletion, hstatus, -⟩ := apply_others heq hrank hacts hok
        rw [hcommand, hcompletion, hstatus]
        exact hlink

/-- The steps of the processes while the bodies are even, up to the call of rank 0. -/
def EvenSteps (cfg : TpConfig) (calls : RpcCalls) (s : TpState) (rank : Nat) (t : TpState) : Prop :=
  TpState.Steps cfg calls s rank t ∧ Even cfg calls.calls (s.outcomes 0).length

theorem step_outcomes_le (run : s.step cfg calls rank = some t) :
    (s.outcomes 0).length ≤ (t.outcomes 0).length := by
  obtain ⟨effect, phase', -, rfl⟩ := step_acts run
  cases effect with
  | finish raised =>
    show _ ≤ (Function.update s.outcomes rank (s.outcomes rank ++ [raised]) 0).length
    by_cases heq : 0 = rank
    · subst heq
      rw [Function.update_self, List.length_append]
      exact Nat.le_add_right _ _
    · rw [Function.update_of_ne heq]
  | _ => exact Nat.le_refl _

/-- A run up to an even call is even all along. -/
theorem evenSteps {calls : RpcCalls} {ranks : List Nat}
    (run : Trace (TpState.Steps cfg calls) s ranks t)
    (even : Even cfg calls.calls (t.outcomes 0).length) :
    Trace (EvenSteps cfg calls) s ranks t ∧ (s.outcomes 0).length ≤ (t.outcomes 0).length := by
  induction run with
  | nil s => exact ⟨.nil s, Nat.le_refl _⟩
  | cons first rest ih =>
    obtain ⟨hrest, hle⟩ := ih even
    have hle := (step_outcomes_le first.2).trans hle
    exact ⟨.cons ⟨first, fun n call hn => even n call (hn.trans hle)⟩ hrest, hle⟩

theorem TpInv.outcomes_length (h : TpInv cfg calls s) :
    (s.outcomes 0).length = (s.phase 0).call := by
  rw [h.outcomes 0 cfg.world_pos, List.length_map, List.length_take,
    Nat.min_eq_left (h.bounded 0 cfg.world_pos)]

theorem TpInv.evenStep {calls : RpcCalls} (h : TpInv cfg calls.calls s)
    (run : EvenSteps cfg calls s rank t) : TpInv cfg calls.calls t :=
  h.step (h.outcomes_length ▸ run.2) run.1.1 run.1.2

theorem TpState.Reachable.inv {calls : RpcCalls} (reach : TpState.Reachable cfg calls s)
    (even : Even cfg calls.calls (s.outcomes 0).length) : TpInv cfg calls.calls s := by
  obtain ⟨ranks, hrun⟩ := reach
  exact (evenSteps hrun even).1.invariant TpInv.evenStep (.init cfg calls.calls)

/-- Before rank 0 writes a command, every worker has read and cleared the one before. -/
theorem TpInv.read_before_write (h : TpInv cfg calls s) {n worker : Nat}
    (phase : s.phase 0 = .ready n) (pos : 0 < worker) (lt : worker < cfg.worldSize) :
    s.commandEvent worker = false ∧ (s.phase worker).received = n ∧ ¬ (s.phase worker).Awake := by
  have hlink := h.linked worker pos lt
  rw [phase] at hlink
  have hle := hlink.call_le
  have hge := hlink.received_le
  simp only [TpPhase.call, TpPhase.sent] at hle hge
  refine ⟨?_, Nat.le_antisymm hge hle, fun hawake => ?_⟩
  · rw [hlink.commanded]
    exact decide_eq_false (Nat.not_lt.mpr hle)
  · exact absurd (hlink.awake hawake) (Nat.not_lt.mpr hle)

end SparseVllm
