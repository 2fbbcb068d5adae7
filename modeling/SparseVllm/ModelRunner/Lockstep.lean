import Mathlib.Algebra.Order.BigOperators.Group.Finset
import Mathlib.Data.Finset.Max
import SparseVllm.ModelRunner.Commands

/-!
# Tensor-parallel ranks in lockstep

A clock orders the phases of all ranks; every step moves the clock of its rank. While every rank enters
as many collectives as the others and no worker has ended, the rank whose clock is least can move: what
it waits for is behind the others already. So a recoverable call ends on every rank. A rank that raises
before a collective that another rank enters gives its status to that collective, and the other rank
waits for a status that nobody gives (`prune_stuck`).

Results: `tp_lockstep`, about every reachable state of every sequence of calls with even bodies.
-/

namespace SparseVllm

open SparseVllm.Lib

variable {cfg : TpConfig} {calls : List RpcCall} {s t : TpState} {rank : Nat}

/-! ## The clock -/

/-- The most collectives a body enters. -/
def maxCollectives (calls : List RpcCall) : Nat :=
  (calls.map (·.collectives)).foldr max 0

theorem le_foldr_max {a : Nat} {values : List Nat} (h : a ∈ values) : a ≤ values.foldr max 0 := by
  induction values with
  | nil => cases h
  | cons value rest ih =>
    rw [List.foldr_cons]
    rcases List.mem_cons.mp h with rfl | hrest
    · exact Nat.le_max_left _ _
    · exact (ih hrest).trans (Nat.le_max_right _ _)

theorem bodyEnters_le {n : Nat} {call : RpcCall} (get : calls[n]? = some call) (rank : Nat) :
    call.bodyEnters rank ≤ maxCollectives calls := by
  have hle : call.bodyEnters rank ≤ call.collectives := by
    unfold RpcCall.bodyEnters
    split
    · exact Nat.le_refl _
    · exact Nat.min_le_right _ _
  exact hle.trans (le_foldr_max (List.mem_map_of_mem (List.mem_of_getElem? get)))

/-- How far a phase is in its call, in a world of `w` ranks and with bodies of at most `m`
collectives. -/
def TpPhase.stage (w m : Nat) : TpPhase → Nat
  | .ready _ | .gone _ => 0
  | .clearing _ v => 3 * v + 1
  | .pending _ v => 3 * v + 2
  | .commanding _ v => 3 * v + 3
  | .idle _ => 3 * w + 5
  | .woken _ => 3 * w + 6
  | .loaded _ => 3 * w + 7
  | .acking _ v => 3 * w + 8 + v
  | .body _ i => 4 * w + 9 + 2 * i
  | .inBody _ i => 4 * w + 10 + 2 * i
  | .syncing _ => 4 * w + 2 * m + 11
  | .inStatus _ | .flagged _ => 4 * w + 2 * m + 12
  | .collecting _ v _ => 4 * w + 2 * m + 13 + 3 * v
  | .reading _ v _ => 4 * w + 2 * m + 14 + 3 * v
  | .taken _ v _ _ => 4 * w + 2 * m + 15 + 3 * v
  | .gathering _ => 7 * w + 2 * m + 16
  | .inResult _ => 7 * w + 2 * m + 17
  | .returned _ _ => 7 * w + 2 * m + 18

def stages (w m : Nat) : Nat := 7 * w + 2 * m + 19

def TpPhase.clock (w m : Nat) (phase : TpPhase) : Nat :=
  phase.call * stages w m + phase.stage w m

/-- The facts about the present call that the clock needs. -/
theorem PhaseOk.stage_lt {phase : TpPhase} (h : PhaseOk cfg calls rank phase) :
    phase.stage cfg.worldSize (maxCollectives calls) <
      stages cfg.worldSize (maxCollectives calls) := by
  unfold stages
  cases phase with
  | clearing n w =>
    obtain ⟨call, -, -, -, -, hle⟩ := h
    simp only [TpPhase.stage]
    omega
  | pending n w | commanding n w =>
    obtain ⟨call, -, -, -, -, hlt⟩ := h
    simp only [TpPhase.stage]
    omega
  | acking n w =>
    obtain ⟨call, -, -, -, -, hle, -⟩ := h
    simp only [TpPhase.stage]
    omega
  | body n i =>
    obtain ⟨call, hget, hle⟩ := h
    have hmax := bodyEnters_le hget rank
    simp only [PhaseIn] at hle
    simp only [TpPhase.stage]
    omega
  | inBody n i =>
    obtain ⟨call, hget, hlt⟩ := h
    have hmax := bodyEnters_le hget rank
    simp only [PhaseIn] at hlt
    simp only [TpPhase.stage]
    omega
  | collecting n w failed =>
    obtain ⟨call, -, -, -, -, -, hle, -⟩ := h
    simp only [TpPhase.stage]
    omega
  | reading n w failed | taken n w failed status =>
    obtain ⟨call, -, -, -, -, -, hlt, -⟩ := h
    simp only [TpPhase.stage]
    omega
  | _ =>
    simp only [TpPhase.stage]
    omega

theorem clock_lt_of_call_lt {w m : Nat} {phase phase' : TpPhase}
    (stage : phase.stage w m < stages w m) (call : phase.call < phase'.call) :
    phase.clock w m < phase'.clock w m := by
  unfold TpPhase.clock
  have hmul : (phase.call + 1) * stages w m ≤ phase'.call * stages w m := Nat.mul_le_mul_right _ call
  rw [Nat.add_mul, Nat.one_mul] at hmul
  omega

/-- A clock is ahead by its call, or by its stage in the same call. -/
theorem call_le_of_clock_le {w m : Nat} {phase phase' : TpPhase}
    (stage : phase'.stage w m < stages w m) (clock : phase.clock w m ≤ phase'.clock w m) :
    phase.call < phase'.call ∨
      phase.call = phase'.call ∧ phase.stage w m ≤ phase'.stage w m := by
  rcases Nat.lt_trichotomy phase.call phase'.call with hlt | heq | hgt
  · exact Or.inl hlt
  · refine Or.inr ⟨heq, ?_⟩
    unfold TpPhase.clock at clock
    rw [heq] at clock
    omega
  · exact absurd (clock_lt_of_call_lt stage hgt) (Nat.not_lt.mpr clock)

theorem afterStatus_stage (call : RpcCall) (rank n w m : Nat) :
    7 * w + 2 * m + 16 ≤ (afterStatus call rank n).stage w m := by
  unfold afterStatus
  split
  · simp only [TpPhase.stage]
    omega
  · split <;> simp only [TpPhase.stage] <;> omega

/-- A step within a call moves on in it. -/
theorem moves_stage {call : RpcCall} {phase phase' : TpPhase} {effect : TpEffect} {w m : Nat}
    (moves : Moves cfg s call rank phase effect phase')
    (ok : PhaseIn cfg rank call phase ∨ ∃ n, phase = .ready n ∧ rank = 0) (world : w = cfg.worldSize)
    (bodies : call.bodyEnters rank ≤ m) (same : phase'.call = phase.call) :
    phase.stage w m < phase'.stage w m := by
  subst world
  have hin : (∀ n, phase ≠ .ready n) → PhaseIn cfg rank call phase := fun hno =>
    ok.resolve_right fun ⟨n, hn, _⟩ => hno n hn
  cases moves with
  | wait | begin =>
    have hle := (hin nofun).2.2.2
    simp only [TpPhase.stage]
    omega
  | acked =>
    have hle := (hin nofun).2.2.2.1
    simp only [TpPhase.stage]
    omega
  | unsynchronized | synchronize =>
    have hle := hin nofun
    simp only [PhaseIn] at hle
    simp only [TpPhase.stage]
    omega
  | single =>
    refine Nat.lt_of_lt_of_le ?_ (afterStatus_stage call rank _ _ _)
    simp only [TpPhase.stage]
    omega
  | takePending =>
    have hlt := (hin nofun).2.2.2.2.1
    simp only [TpPhase.stage]
    omega
  | collected =>
    have hle := (hin nofun).2.2.2.2.1
    simp only [TpPhase.stage]
    omega
  | leaveStatus =>
    split
    · simp only [TpPhase.stage]
      omega
    · refine Nat.lt_of_lt_of_le ?_ (afterStatus_stage call rank _ _ _)
      simp only [TpPhase.stage]
      omega
  | next | die | loop => exact absurd same (Nat.succ_ne_self _)
  | _ =>
    simp only [TpPhase.stage]
    omega

/-- Every step moves the clock of its rank. -/
theorem TpInv.clock_lt (h : TpInv cfg calls s) (lt : rank < cfg.worldSize) {effect : TpEffect}
    {phase' : TpPhase} (acts : Acts cfg calls s rank (s.phase rank) effect phase') :
    (s.phase rank).clock cfg.worldSize (maxCollectives calls) <
      phase'.clock cfg.worldSize (maxCollectives calls) := by
  have hok := h.phases rank lt
  generalize hp : s.phase rank = phase at acts hok
  cases acts with
  | wake hevent => exact Nat.add_lt_add_left (Nat.lt_succ_self _) _
  | load hbuffer =>
    obtain rfl := h.buffer_eq hok lt hp hbuffer
    exact Nat.add_lt_add_left (Nat.lt_succ_self _) _
  | read =>
    refine Nat.add_lt_add_left ?_ _
    simp only [TpPhase.stage]
    omega
  | @inCall call _ _ _ get moves =>
    rcases moves_call moves with ⟨n, raised, rfl, -, hcall⟩ | ⟨hcall, -, -⟩
    · exact clock_lt_of_call_lt hok.stage_lt (hcall ▸ Nat.lt_succ_self n)
    · unfold TpPhase.clock
      rw [hcall]
      exact Nat.add_lt_add_left
        (moves_stage moves (hok.inCall get moves) rfl (bodyEnters_le get rank) hcall) _

/-- The steps that the ranks still have before them, at most. -/
def remainingSteps (cfg : TpConfig) (calls : List RpcCall) (s : TpState) : Nat :=
  ∑ rank ∈ Finset.range cfg.worldSize,
    ((calls.length + 1) * stages cfg.worldSize (maxCollectives calls) -
      (s.phase rank).clock cfg.worldSize (maxCollectives calls))

theorem TpInv.clock_lt_end (h : TpInv cfg calls s) (lt : rank < cfg.worldSize) :
    (s.phase rank).clock cfg.worldSize (maxCollectives calls) <
      (calls.length + 1) * stages cfg.worldSize (maxCollectives calls) := by
  have hstage := (h.phases rank lt).stage_lt
  have hmul := Nat.mul_le_mul_right (stages cfg.worldSize (maxCollectives calls)) (h.bounded rank lt)
  unfold TpPhase.clock
  rw [Nat.add_mul, Nat.one_mul]
  omega

theorem TpInv.remaining_lt (h : TpInv cfg calls s) (ht : TpInv cfg calls t)
    (lt : rank < cfg.worldSize) (run : s.step cfg calls rank = some t) :
    remainingSteps cfg calls t < remainingSteps cfg calls s := by
  obtain ⟨effect, phase', hacts, rfl⟩ := step_acts run
  have hclock := h.clock_lt lt hacts
  have hend := ht.clock_lt_end lt
  rw [apply_phase, Function.update_self] at hend
  unfold remainingSteps
  refine Finset.sum_lt_sum (fun other hother => ?_) ⟨rank, Finset.mem_range.mpr lt, ?_⟩
  · rw [apply_phase]
    by_cases heq : other = rank
    · rw [heq, Function.update_self]
      omega
    · rw [Function.update_of_ne heq]
  · rw [apply_phase, Function.update_self]
    omega

/-! ## Collectives by the clock -/

/-- The stage in which a rank enters a collective. -/
def Collective.stage (w m : Nat) : Collective → Nat
  | .body _ i => 4 * w + 10 + 2 * i
  | .status _ => 4 * w + 2 * m + 12
  | .result _ => 7 * w + 2 * m + 17

theorem mem_pastScript {n k : Nat} {call : RpcCall} {c : Collective} (get : calls[n]? = some call)
    (mem : c ∈ callScript cfg rank n call) (lt : n < k) : c ∈ pastScript cfg calls rank k := by
  induction k with
  | zero => exact absurd lt (Nat.not_lt_zero n)
  | succ k ih =>
    rcases Nat.lt_succ_iff_lt_or_eq.mp lt with hlt | rfl
    · exact List.mem_append_left _ (ih hlt)
    · rw [pastScript_succ get]
      exact List.mem_append_right _ mem

theorem mem_bodyScript {n i entered : Nat} : Collective.body n i ∈ bodyScript n entered ↔
    i < entered := by
  unfold bodyScript
  simp

theorem not_mem_bodyScript {n entered : Nat} {c : Collective} (h : ∀ k i, c ≠ .body k i) :
    c ∉ bodyScript n entered := by
  unfold bodyScript
  intro hmem
  obtain ⟨i, -, rfl⟩ := List.mem_map.mp hmem
  exact h n i rfl

theorem body_mem_callScript {n i : Nat} {call : RpcCall} :
    Collective.body n i ∈ callScript cfg rank n call ↔ i < call.bodyEnters rank := by
  unfold callScript statusScript resultScript
  rw [List.mem_append, List.mem_append, mem_bodyScript]
  constructor
  · rintro ((h | h) | h)
    · exact h
    · split at h <;> simp at h
    · split at h <;> simp at h
  · exact fun h => Or.inl (Or.inl h)

theorem status_mem_callScript {n : Nat} {call : RpcCall} :
    Collective.status n ∈ callScript cfg rank n call ↔
      statusSync cfg call.method = .rpc ∧ 1 < cfg.worldSize := by
  unfold callScript statusScript resultScript
  rw [List.mem_append, List.mem_append]
  constructor
  · rintro ((h | h) | h)
    · exact absurd h (not_mem_bodyScript nofun)
    · split at h
      · assumption
      · cases h
    · split at h <;> simp at h
  · intro h
    rw [if_pos h]
    exact Or.inl (Or.inr (List.mem_singleton_self _))

theorem result_mem_callScript {n : Nat} {call : RpcCall} :
    Collective.result n ∈ callScript cfg rank n call ↔ call.Compares cfg := by
  unfold callScript statusScript resultScript
  rw [List.mem_append, List.mem_append]
  constructor
  · rintro ((h | h) | h)
    · exact absurd h (not_mem_bodyScript nofun)
    · split at h <;> simp at h
    · split at h
      · assumption
      · cases h
  · intro h
    rw [if_pos h]
    exact Or.inr (List.mem_singleton_self _)

theorem mem_statusScript {n : Nat} {call : RpcCall} {c : Collective}
    (h : c ∈ statusScript cfg n call) : c = .status n := by
  unfold statusScript at h
  split at h
  · exact List.mem_singleton.mp h
  · cases h

theorem mem_resultScript {n : Nat} {call : RpcCall} {c : Collective}
    (h : c ∈ resultScript cfg n call) : c = .result n := by
  unfold resultScript at h
  split at h
  · exact List.mem_singleton.mp h
  · cases h

/-- A rank whose clock is past the stage of a collective has entered it. -/
theorem mem_phaseScript {phase : TpPhase} {call : RpcCall} {c : Collective}
    (ok : PhaseOk cfg calls rank phase) (get : calls[c.call]? = some call)
    (mem : c ∈ callScript cfg rank c.call call)
    (ahead : c.call < phase.call ∨ c.call = phase.call ∧
      c.stage cfg.worldSize (maxCollectives calls) ≤
        phase.stage cfg.worldSize (maxCollectives calls)) :
    c ∈ phaseScript cfg calls rank phase := by
  rcases ahead with hlt | ⟨hcall, hstage⟩
  · exact List.mem_append_left _ (mem_pastScript get mem hlt)
  rw [hcall] at get mem
  rw [phaseScript_eq get]
  refine List.mem_append_right _ ?_
  have hmax := bodyEnters_le get rank
  have hin := phaseIn_of_get cfg rank get
  have hlow : 4 * cfg.worldSize + 10 ≤ c.stage cfg.worldSize (maxCollectives calls) := by
    cases c <;> simp only [Collective.stage] <;> omega
  cases phase with
  | ready n | gone n | idle n | woken n | loaded n => simp only [TpPhase.stage] at hstage; omega
  | clearing n w =>
    have hle := (hin ok).2.2.2
    simp only [TpPhase.stage] at hstage
    omega
  | pending n w | commanding n w =>
    have hlt := (hin ok).2.2.2
    simp only [TpPhase.stage] at hstage
    omega
  | acking n w =>
    have hle := (hin ok).2.2.2.1
    simp only [TpPhase.stage] at hstage
    omega
  | body n i =>
    have hle := hin ok
    simp only [PhaseIn] at hle
    cases c with
    | body k j =>
      obtain rfl : k = n := hcall
      simp only [TpPhase.stage, Collective.stage] at hstage
      exact mem_bodyScript.mpr (by omega)
    | _ =>
      simp only [TpPhase.stage, Collective.stage] at hstage
      omega
  | inBody n i =>
    have hlt := hin ok
    simp only [PhaseIn] at hlt
    cases c with
    | body k j =>
      obtain rfl : k = n := hcall
      simp only [TpPhase.stage, Collective.stage] at hstage
      exact mem_bodyScript.mpr (by omega)
    | _ =>
      simp only [TpPhase.stage, Collective.stage] at hstage
      omega
  | syncing n =>
    rcases List.mem_append.mp mem with hmem | hmem
    · rcases List.mem_append.mp hmem with hmem | hmem
      · exact hmem
      · rw [mem_statusScript hmem] at hstage
        simp only [TpPhase.stage, Collective.stage] at hstage
        omega
    · rw [mem_resultScript hmem] at hstage
      simp only [TpPhase.stage, Collective.stage] at hstage
      omega
  | flagged n =>
    rw [callScript_not_rpc (by rw [(hin ok).2.2]; nofun)] at mem
    exact mem
  | collecting n w failed | reading n w failed | taken n w failed status =>
    rw [callScript_not_rpc (by rw [(hin ok).2.2.1]; nofun)] at mem
    exact mem
  | inStatus n | gathering n =>
    rcases List.mem_append.mp mem with hmem | hmem
    · exact hmem
    · rw [mem_resultScript hmem] at hstage
      simp only [TpPhase.stage, Collective.stage] at hstage
      omega
  | inResult n | returned n raised => exact mem

/-! ## The least clock -/

/-- Up to a call every rank enters as many collectives as the others, no worker ends before it, and
none raises in it what `loop` does not catch. -/
structure InStep (cfg : TpConfig) (calls : List RpcCall) (k : Nat) : Prop where
  even : Even cfg calls k
  alive : ∀ n call, n < k → calls[n]? = some call → ∀ rank, 0 < rank → rank < cfg.worldSize →
    ¬ call.Ends cfg rank
  caught : ∀ call, calls[k]? = some call → ∀ rank, 0 < rank → rank < cfg.worldSize →
    call.escapes cfg rank = false

/-- The phase of a rank whose clock is not behind. -/
theorem TpInv.ahead (h : TpInv cfg calls s) {other : Nat} (lt : other < cfg.worldSize)
    (clock : (s.phase rank).clock cfg.worldSize (maxCollectives calls) ≤
      (s.phase other).clock cfg.worldSize (maxCollectives calls)) :
    (s.phase rank).call < (s.phase other).call ∨ (s.phase rank).call = (s.phase other).call ∧
      (s.phase rank).stage cfg.worldSize (maxCollectives calls) ≤
        (s.phase other).stage cfg.worldSize (maxCollectives calls) :=
  call_le_of_clock_le (h.phases other lt).stage_lt clock

/-- A collective that every rank enters completes for the rank whose clock is least. -/
theorem TpInv.completes (h : TpInv cfg calls s) (paired : Paired cfg calls s)
    (lt : rank < cfg.worldSize) {call : RpcCall} {c : Collective} {before : List Collective}
    (last : phaseScript cfg calls rank (s.phase rank) = before ++ [c])
    (get : calls[c.call]? = some call) (number : c.call = (s.phase rank).call)
    (stage : c.stage cfg.worldSize (maxCollectives calls) =
      (s.phase rank).stage cfg.worldSize (maxCollectives calls))
    (all : ∀ other < cfg.worldSize, c ∈ callScript cfg other c.call call)
    (least : ∀ other < cfg.worldSize,
      (s.phase rank).clock cfg.worldSize (maxCollectives calls) ≤
        (s.phase other).clock cfg.worldSize (maxCollectives calls)) :
    ∃ values, gathered cfg s rank = some values := by
  refine gathered_of_forall h.scripts paired lt rfl last fun other hother => ?_
  refine mem_phaseScript (h.phases other hother) get (all other hother) ?_
  rw [number, stage]
  exact h.ahead hother (least other hother)

theorem received_of_stage {w m : Nat} {phase : TpPhase} (h : 3 * w + 8 ≤ phase.stage w m) :
    phase.received = phase.call + 1 := by
  cases phase <;> simp only [TpPhase.stage, TpPhase.received, TpPhase.call] at h ⊢ <;> omega

theorem sent_of_stage {phase : TpPhase} {worker m : Nat} (ok : PhaseOk cfg calls 0 phase)
    (_ : worker < cfg.worldSize) (h : 3 * cfg.worldSize + 5 ≤ phase.stage cfg.worldSize m) :
    phase.sent worker = phase.call + 1 := by
  cases phase with
  | ready n => simp only [TpPhase.stage] at h; omega
  | clearing n w =>
    obtain ⟨call, -, -, -, -, hle⟩ := ok
    simp only [TpPhase.stage] at h
    omega
  | pending n w | commanding n w =>
    obtain ⟨call, -, -, -, -, hlt⟩ := ok
    simp only [TpPhase.stage] at h
    omega
  | _ => rfl

theorem given_of_stage {phase : TpPhase} {m : Nat} (ok : PhaseOk cfg calls rank phase)
    (pos : 0 < rank) (h : 4 * cfg.worldSize + 2 * m + 13 ≤ phase.stage cfg.worldSize m)
    (bodies : maxCollectives calls ≤ m) : phase.given = phase.call + 1 := by
  cases phase with
  | gathering n => rfl
  | inResult n => rfl
  | returned n raised => rfl
  | collecting n w failed | reading n w failed | taken n w failed status | clearing n w
  | pending n w | commanding n w | acking n w =>
    obtain ⟨call, -, hcaller, -⟩ := ok
    omega
  | body n i =>
    obtain ⟨call, hget, hle⟩ := ok
    have hmax := bodyEnters_le hget rank
    simp only [PhaseIn] at hle
    simp only [TpPhase.stage] at h
    omega
  | inBody n i =>
    obtain ⟨call, hget, hlt⟩ := ok
    have hmax := bodyEnters_le hget rank
    simp only [PhaseIn] at hlt
    simp only [TpPhase.stage] at h
    omega
  | _ =>
    simp only [TpPhase.stage] at h
    omega

/-- The phases in `read_shm`. -/
def TpPhase.InReadShm : TpPhase → Prop
  | .idle _ | .woken _ | .loaded _ => True
  | _ => False

theorem next_inCall {phase : TpPhase} {call : RpcCall} (now : s.phase rank = phase)
    (get : calls[phase.call]? = some call) (moving : ¬ phase.InReadShm) :
    s.next cfg calls rank = stepInCall cfg s call rank phase := by
  unfold TpState.next
  rw [now]
  split
  · exact absurd trivial moving
  · exact absurd trivial moving
  · exact absurd trivial moving
  · rw [get]
    rfl

/-- The rank whose clock is least can move. -/
theorem TpInv.least_moves (h : TpInv cfg calls s) (paired : Paired cfg calls s) {k : Nat}
    (inStep : InStep cfg calls k)
    (exists_k : k < calls.length) (lt : rank < cfg.worldSize) (before : (s.phase rank).call ≤ k)
    (least : ∀ other < cfg.worldSize,
      (s.phase rank).clock cfg.worldSize (maxCollectives calls) ≤
        (s.phase other).clock cfg.worldSize (maxCollectives calls)) :
    ∃ out, s.next cfg calls rank = some out := by
  have hok := h.phases rank lt
  have hahead := fun other hother => h.ahead hother (least other hother)
  have hmeets : ∀ (call : RpcCall) (c : Collective) (before : List Collective),
      phaseScript cfg calls rank (s.phase rank) = before ++ [c] → calls[c.call]? = some call →
      c.call = (s.phase rank).call → c.stage cfg.worldSize (maxCollectives calls) =
        (s.phase rank).stage cfg.worldSize (maxCollectives calls) →
      (∀ other < cfg.worldSize, c ∈ callScript cfg other c.call call) →
      ∃ values, gathered cfg s rank = some values :=
    fun _ _ _ last get number stage all => h.completes paired lt last get number stage all least
  obtain ⟨call, hget⟩ : ∃ call, calls[(s.phase rank).call]? = some call :=
    ⟨_, List.getElem?_eq_getElem (Nat.lt_of_le_of_lt before exists_k)⟩
  generalize hp : s.phase rank = phase at hok hahead hmeets hget before
  have hcall : ¬ phase.InReadShm → s.next cfg calls rank = stepInCall cfg s call rank phase :=
    next_inCall hp hget
  have hin := phaseIn_of_get cfg rank hget
  cases phase with
  | ready n =>
    rw [hcall id]
    unfold stepInCall
    simp only
    split <;> exact ⟨_, rfl⟩
  | clearing n w =>
    rw [hcall id]
    unfold stepInCall writeShm
    simp only
    split
    · exact ⟨_, rfl⟩
    · split <;> exact ⟨_, rfl⟩
  | pending n w | commanding n w => exact ⟨_, hcall id⟩
  | acking n w =>
    obtain ⟨hcaller, hworld, hpos, -⟩ := hin hok
    subst hcaller
    rw [hcall id]
    unfold stepInCall writeShm
    simp only
    by_cases hw : w < cfg.worldSize
    · have hlink := h.linked w hpos hw
      have hread : n < (s.phase w).received := by
        rcases hahead w hw with hlt | ⟨hsame, hstage⟩
        · refine Nat.lt_of_lt_of_le hlt ?_
          have := (s.phase w).given_le
          cases s.phase w <;> simp only [TpPhase.received, TpPhase.call] <;> omega
        · have hstage : 3 * cfg.worldSize + 8 + w ≤
            (s.phase w).stage cfg.worldSize (maxCollectives calls) := hstage
          have hreceived : (s.phase w).received = (s.phase w).call + 1 :=
            received_of_stage (w := cfg.worldSize) (m := maxCollectives calls) (by omega)
          rw [hreceived, ← hsame]
          exact Nat.lt_succ_self n
      have hcommand : s.commandEvent w = false := by
        rw [hlink.commanded, hp]
        exact decide_eq_false (Nat.not_lt.mpr hread)
      rw [if_pos hw, if_neg (by rw [hcommand]; simp)]
      exact ⟨_, rfl⟩
    · rw [if_neg hw]
      exact ⟨_, rfl⟩
  | idle n =>
    have hlink := h.linked rank hok lt
    rw [hp] at hlink
    have hsent : (s.phase 0).sent rank = n + 1 := by
      have hle := hlink.call_le
      rcases hahead 0 (by omega) with hlt | ⟨hsame, hstage⟩
      · simp only [TpPhase.received, TpPhase.call] at hle hlt
        omega
      · rw [sent_of_stage (h.phases 0 (by omega)) lt hstage, ← hsame]
        rfl
    have hcommand : s.commandEvent rank = true := by
      rw [hlink.commanded, hsent]
      exact decide_eq_true (Nat.lt_succ_self n)
    unfold TpState.next
    rw [hp]
    exact ⟨_, if_pos hcommand⟩
  | woken n =>
    have hlink := h.linked rank hok lt
    rw [hp] at hlink
    have hbuffer := h.buffered (Nat.lt_of_le_of_lt hok lt) fun m hm => by
      have hle := hlink.call_le
      have hlt := hlink.awake trivial
      rw [hm] at hle hlt
      exact absurd hlt (Nat.not_lt.mpr hle)
    unfold TpState.next
    rw [hp]
    unfold readShm
    rw [hbuffer]
    exact ⟨_, rfl⟩
  | loaded n =>
    unfold TpState.next
    rw [hp]
    exact ⟨_, rfl⟩
  | body n i =>
    rw [hcall id]
    unfold stepInCall runBody
    simp only
    split
    · exact ⟨_, rfl⟩
    · split <;> exact ⟨_, rfl⟩
  | inBody n i =>
    have hlt : i < call.bodyEnters rank := hin hok
    obtain ⟨values, hvalues⟩ := hmeets call (.body n i) _ (inBody_last hget) hget rfl rfl
      fun other hother => by
      rw [inStep.even n call before hget rank lt, ← inStep.even n call before hget other hother] at hlt
      exact body_mem_callScript.mpr hlt
    rw [hcall id]
    unfold stepInCall runBody
    simp only
    rw [hvalues]
    exact ⟨_, rfl⟩
  | syncing n =>
    rw [hcall id]
    unfold stepInCall syncTpHostStatus syncTpRpcStatus
    simp only
    split
    · split
      · exact ⟨_, rfl⟩
      · split <;> exact ⟨_, rfl⟩
    · split <;> exact ⟨_, rfl⟩
  | flagged n => exact ⟨_, hcall id⟩
  | collecting n w failed =>
    obtain ⟨hcaller, hworld, hsync, hpos, -, -⟩ := hin hok
    subst hcaller
    rw [hcall id]
    unfold stepInCall syncTpHostStatus
    simp only
    by_cases hw : w < cfg.worldSize
    · have hlink := h.linked w hpos hw
      have hgiven : n < (s.phase w).given := by
        rcases hahead w hw with hlt | ⟨hsame, hstage⟩
        · refine Nat.lt_of_lt_of_le hlt ?_
          cases s.phase w <;> simp only [TpPhase.given, TpPhase.call] <;> omega
        · have hstage : 4 * cfg.worldSize + 2 * maxCollectives calls + 13 + 3 * w ≤
            (s.phase w).stage cfg.worldSize (maxCollectives calls) := hstage
          have hgiven : (s.phase w).given = (s.phase w).call + 1 :=
            given_of_stage (m := maxCollectives calls) (h.phases w hw) hpos (by omega) (Nat.le_refl _)
          rw [hgiven, ← hsame]
          exact Nat.lt_succ_self n
      have hcompletion : s.completionEvent w = true := by
        rw [hp] at hlink
        exact hlink.completed_iff.mpr
          ⟨n, ⟨call, hget, hsync⟩, Nat.le_of_eq (if_neg (Nat.lt_irrefl w)), hgiven⟩
      rw [if_pos hw, if_pos hcompletion]
      exact ⟨_, rfl⟩
    · rw [if_neg hw]
      exact ⟨_, rfl⟩
  | reading n w failed | taken n w failed status => exact ⟨_, hcall id⟩
  | inStatus n =>
    have hrpc := hin hok
    obtain ⟨values, hvalues⟩ := hmeets call (.status n) _ (inStatus_last hget hrpc.1 hrpc.2) hget
      rfl rfl fun other _ => status_mem_callScript.mpr hrpc
    rw [hcall id]
    unfold stepInCall syncTpRpcStatus worldAllReduceMax
    simp only
    rw [hvalues]
    exact ⟨_, rfl⟩
  | gathering n =>
    rw [hcall id]
    unfold stepInCall syncResult
    simp only
    split <;> exact ⟨_, rfl⟩
  | inResult n =>
    obtain ⟨hrpc, hresult, hall, hworld⟩ := hin hok
    obtain ⟨values, hvalues⟩ := hmeets call (.result n) _
      (inResult_last hget ⟨hrpc, hworld, hresult, hall⟩) hget rfl rfl fun other _ =>
      result_mem_callScript.mpr ⟨hrpc, hworld, hresult, hall⟩
    rw [hcall id]
    unfold stepInCall syncResult
    simp only
    rw [hvalues]
    exact ⟨_, rfl⟩
  | returned n raised => exact ⟨_, hcall id⟩
  | gone n =>
    obtain ⟨hpos, m, other, rfl, hother, hends⟩ := hok
    exact absurd hends (inStep.alive m other before hother rank hpos lt)

/-- Where no rank can move, the call is behind all of them. -/
theorem TpInv.passed_of_stuck (h : TpInv cfg calls s) (paired : Paired cfg calls s) {k : Nat}
    (inStep : InStep cfg calls k)
    (exists_k : k < calls.length) (stuck : ∀ rank < cfg.worldSize, s.step cfg calls rank = none)
    (lt : rank < cfg.worldSize) : k < (s.phase rank).call := by
  obtain ⟨first, hfirst, hleast⟩ := Finset.exists_min_image (Finset.range cfg.worldSize)
    (fun rank => (s.phase rank).clock cfg.worldSize (maxCollectives calls))
    ⟨rank, Finset.mem_range.mpr lt⟩
  have hfirst := Finset.mem_range.mp hfirst
  have hleast := fun other hother => hleast other (Finset.mem_range.mpr hother)
  have hpassed : k < (s.phase first).call := by
    by_contra hbefore
    obtain ⟨out, hout⟩ :=
      h.least_moves paired inStep exists_k hfirst (Nat.not_lt.mp hbefore) hleast
    have hstuck := stuck first hfirst
    unfold TpState.step at hstuck
    rw [hout] at hstuck
    cases hstuck
  rcases h.ahead lt (hleast rank lt) with hcall | ⟨hcall, -⟩
  · exact hpassed.trans hcall
  · exact hcall ▸ hpassed

/-- The collectives of a rank are those of all ranks, as far as it is. -/
theorem phaseScript_extends {phase : TpPhase} (ok : PhaseOk cfg calls rank phase) {k : Nat} :
    (phase.call ≤ k → phaseScript cfg calls rank phase <+: pastScript cfg calls rank (k + 1)) ∧
      (k < phase.call → pastScript cfg calls rank (k + 1) <+: phaseScript cfg calls rank phase) := by
  refine ⟨fun hle => (phaseScript_received ok).trans (pastScript_extends ?_),
    fun hlt => (pastScript_extends hlt).trans (List.prefix_append _ _)⟩
  have := phase.given_le
  cases phase <;> simp only [TpPhase.received, TpPhase.call] at hle ⊢ <;> omega

/-! ## Recoverable calls -/

theorem recoverable_synchronized {method : RpcMethod}
    (h : method ∈ RpcMethod.recoverableTpControl) :
    statusSync cfg method ≠ .unsynchronized := by
  have hmem : ∀ method ∈ RpcMethod.recoverableTpControl, method ∈ RpcMethod.tpRpcStatusSync := by
    decide
  unfold statusSync
  rw [if_neg (not_not.mpr (hmem method h))]
  split
  · nofun
  · split <;> nofun

/-- The ranks return different results to a method that compares them. -/
def RpcCall.Diverges (cfg : TpConfig) (call : RpcCall) : Prop :=
  call.Compares cfg ∧ ∃ rank < cfg.worldSize, call.result rank ≠ call.result 0

theorem raises_compared_iff {call : RpcCall} (compares : call.Compares cfg) :
    call.raises cfg rank = true ↔ ∃ other < cfg.worldSize, call.result other ≠ call.result 0 := by
  obtain ⟨size, hsize⟩ := Nat.exists_eq_add_of_lt cfg.world_pos
  rw [raises_rpc_compared compares, hsize, Nat.zero_add, List.range_succ_eq_map, List.map_cons,
    List.tail_cons, List.head?_cons, List.any_eq_true]
  constructor
  · rintro ⟨value, hvalue, hne⟩
    obtain ⟨other, hother, rfl⟩ := List.mem_map.mp hvalue
    obtain ⟨i, hi, rfl⟩ := List.mem_map.mp hother
    exact ⟨i + 1, Nat.succ_lt_succ (List.mem_range.mp hi), by simpa using hne⟩
  · rintro ⟨other, hother, hne⟩
    obtain ⟨i, rfl⟩ : ∃ i, other = i + 1 := Nat.exists_eq_succ_of_ne_zero fun h => hne (h ▸ rfl)
    refine ⟨_, List.mem_map_of_mem (List.mem_map_of_mem (List.mem_range.mpr
      (Nat.lt_of_succ_lt_succ hother))), by simpa using hne⟩

/-- Rank 0 raises when some rank fails by itself, or the results differ. -/
theorem raises_caller_iff {call : RpcCall} (sync : statusSync cfg call.method ≠ .unsynchronized) :
    call.raises cfg 0 = true ↔
      (∃ rank < cfg.worldSize, call.fails cfg rank = true) ∨ call.Diverges cfg := by
  cases hsync : statusSync cfg call.method with
  | unsynchronized => exact absurd hsync sync
  | host =>
    have hno : ¬ call.Diverges cfg := fun h => by
      have hrpc := h.1.1
      rw [hsync] at hrpc
      cases hrpc
    rw [or_iff_left hno]
    by_cases hworld : cfg.worldSize ≤ 1
    · rw [raises_host_single hsync hworld]
      have hfails : ∀ rank, call.fails cfg rank = call.localError rank := fun rank =>
        if_neg fun h => absurd h.2 (Nat.not_lt.mpr hworld)
      constructor
      · exact fun h => ⟨0, cfg.world_pos, (hfails 0).trans h⟩
      · rintro ⟨rank, hrank, h⟩
        obtain rfl : rank = 0 := by omega
        exact (hfails 0).symm.trans h
    · have hworld := Nat.not_le.mp hworld
      have hfails : ∀ rank, call.fails cfg rank = call.hostError rank := fun rank =>
        if_pos ⟨hsync, hworld⟩
      rw [raises_host_caller hsync hworld, decide_eq_true_iff]
      simp only [hfails]
  | rpc =>
    have hfails : ∀ rank, call.fails cfg rank = call.localError rank := fun rank =>
      if_neg fun h => by
        rw [hsync] at h
        cases h.1
    simp only [hfails]
    by_cases hall : call.AllSucceed cfg
    · have hnone : ¬ ∃ rank < cfg.worldSize, call.localError rank = true := fun ⟨rank, hrank, h⟩ => by
        rw [hall rank hrank] at h
        cases h
      rw [or_iff_right hnone]
      by_cases hcompares : call.Compares cfg
      · rw [raises_compared_iff hcompares]
        exact (and_iff_right hcompares).symm
      · rw [raises_rpc_succeeded hsync hall hcompares]
        exact ⟨nofun, fun h => absurd h.1 hcompares⟩
    · rw [raises_rpc_failed hsync hall]
      refine iff_of_true rfl (Or.inl ?_)
      unfold RpcCall.AllSucceed at hall
      push Not at hall
      obtain ⟨rank, hrank, h⟩ := hall
      exact ⟨rank, hrank, eq_true_of_ne_false h⟩

/-- Where a rank raises, rank 0 raises. -/
theorem raises_caller_of_rank {call : RpcCall}
    (sync : statusSync cfg call.method ≠ .unsynchronized) (lt : rank < cfg.worldSize)
    (h : call.raises cfg rank = true) : call.raises cfg 0 = true := by
  rcases Nat.eq_zero_or_pos rank with rfl | hpos
  · exact h
  · cases hsync : statusSync cfg call.method with
    | unsynchronized => exact absurd hsync sync
    | host =>
      have hworld : 1 < cfg.worldSize := Nat.lt_of_le_of_lt hpos lt
      rw [raises_host_worker hsync hworld hpos] at h
      rw [raises_host_caller hsync hworld]
      exact decide_eq_true ⟨rank, lt, h⟩
    | rpc =>
      have hsame : call.raises cfg rank = call.raises cfg 0 := by
        unfold RpcCall.raises
        rw [hsync]
      exact hsame ▸ h

/-- What holds of a recoverable call that all ranks come to in step. -/
structure InLockstep (cfg : TpConfig) (calls : RpcCalls) (s : TpState) (k : Nat) (call : RpcCall) :
    Prop where
  /-- The same collectives in the same order. -/
  script : ∃ script : List Collective, ∀ rank < cfg.worldSize,
    ((s.phase rank).call ≤ k → (s.entered rank).map Prod.fst <+: script) ∧
      (k < (s.phase rank).call → script <+: (s.entered rank).map Prod.fst)
  /-- No rank is left in the call, or before it. -/
  ends : s.Stuck cfg calls → ∀ rank < cfg.worldSize, k < (s.phase rank).call
  /-- Rank 0 raises when a rank fails by itself or the compared results differ, and then only. -/
  outcome : k < (s.phase 0).call → ((s.outcomes 0)[k]? = some true ↔
    (∃ rank < cfg.worldSize, call.fails cfg rank = true) ∨ call.Diverges cfg)
  /-- A rank that raises has rank 0 raise. -/
  raised : k < (s.phase 0).call → ∀ rank < cfg.worldSize,
    (s.outcomes rank)[k]? = some true → (s.outcomes 0)[k]? = some true
  /-- A worker is back in `read_shm`. -/
  returns : ∀ worker, 0 < worker → worker < cfg.worldSize → s.phase worker ≠ .gone (k + 1)

theorem TpInv.outcome_eq (h : TpInv cfg calls s) (lt : rank < cfg.worldSize) {k : Nat}
    {call : RpcCall} (get : calls[k]? = some call) (passed : k < (s.phase rank).call) :
    (s.outcomes rank)[k]? = some (call.raises cfg rank) := by
  rw [h.outcomes rank lt, List.getElem?_map, List.getElem?_take_of_lt passed, get]
  rfl

/-- While the bodies are even: a command is written when every worker has read the one before; the
status that rank 0 reads for a call was written for that call; and a recoverable call that the ranks
come to in step, ends in step. A run has a last step. -/
theorem tp_lockstep {calls : RpcCalls} (reach : TpState.Reachable cfg calls s)
    (even : Even cfg calls.calls (s.outcomes 0).length) :
    (∀ n, s.phase 0 = .ready n → ∀ worker, 0 < worker → worker < cfg.worldSize →
      s.commandEvent worker = false ∧ (s.phase worker).received = n ∧ ¬ (s.phase worker).Awake) ∧
    (∀ n worker failed, s.phase 0 = .reading n worker failed →
      (s.runStatus worker).writtenFor = some n ∧ (s.runStatus worker).value ≠ .pending) ∧
    (∀ k call, calls.calls[k]? = some call → call.method ∈ RpcMethod.recoverableTpControl →
      InStep cfg calls.calls k → InLockstep cfg calls s k call) ∧
    ∀ ranks t, Trace (TpState.Steps cfg calls) s ranks t →
      Even cfg calls.calls (t.outcomes 0).length →
      ranks.length ≤ remainingSteps cfg calls.calls s := by
  have h := reach.inv even
  refine ⟨fun n hn worker hpos hlt => h.read_before_write hn hpos hlt, fun n worker failed hn => ?_,
    fun k call hget hrecoverable hstep => ?_, fun ranks t hrun heven => ?_⟩
  · have hok := h.phases 0 cfg.world_pos
    rw [hn] at hok
    obtain ⟨call, -, -, -, -, hpos, hlt, -⟩ := hok
    rw [h.byte_eq hpos hlt hn]
    refine ⟨rfl, ?_⟩
    unfold verdict
    simp only
    split <;> nofun
  · have hk := (List.getElem?_eq_some_iff.mp hget).1
    have hsync : statusSync cfg call.method ≠ .unsynchronized :=
      recoverable_synchronized hrecoverable
    have hpaired := h.paired (h.outcomes_length ▸ even)
    refine ⟨⟨pastScript cfg calls.calls 0 (k + 1), fun rank hrank => ?_⟩,
      fun hstuck rank hrank => h.passed_of_stuck hpaired hstep hk hstuck hrank, fun hpassed => ?_,
      fun hpassed rank hrank hraised => ?_, fun worker hpos hlt hgone => ?_⟩
    · have hentered : (s.entered rank).map Prod.fst =
          phaseScript cfg calls.calls rank (s.phase rank) := by
        rw [h.scripts rank hrank, List.map_map]
        exact List.map_id _
      rw [hentered, ← hstep.even.pastScript_eq hrank (Nat.le_refl _)]
      exact phaseScript_extends (h.phases rank hrank)
    · rw [h.outcome_eq cfg.world_pos hget hpassed, Option.some_inj]
      exact raises_caller_iff hsync
    · rw [h.outcome_eq cfg.world_pos hget hpassed]
      have hpast : k < (s.phase rank).call := by
        have hlt := (List.getElem?_eq_some_iff.mp hraised).1
        rw [h.outcomes rank hrank, List.length_map, List.length_take] at hlt
        omega
      rw [h.outcome_eq hrank hget hpast] at hraised
      exact congrArg some (raises_caller_of_rank hsync hrank (Option.some.inj hraised))
    · have hok := h.phases worker hlt
      rw [hgone] at hok
      obtain ⟨-, m, other, hm, hother, hends⟩ := hok
      obtain rfl := Nat.succ.inj hm
      rw [hget] at hother
      cases hother
      rcases hends with ⟨-, hno | hescapes⟩ | hexit
      · exact hno hrecoverable
      · rw [hstep.caught call hget worker hpos hlt] at hescapes
        cases hescapes
      · rw [hexit] at hrecoverable
        exact absurd hrecoverable (by decide)
  · have hcost : TpInv cfg calls.calls t ∧ (ranks.map fun _ => 1).sum +
        remainingSteps cfg calls.calls t ≤ remainingSteps cfg calls.calls s :=
      (evenSteps hrun heven).1.cost_le (fun hu hstep => by
        have hv := hu.evenStep hstep
        have hlt := hu.remaining_lt hv hstep.1.1 hstep.1.2
        exact ⟨hv, by omega⟩) h
    simp only [List.map_const', List.sum_replicate_nat, Nat.mul_one] at hcost
    omega

/-! ## Two ranks -/

/-- The states of a schedule of the ranks. -/
def TpState.runRanks (cfg : TpConfig) (calls : RpcCalls) (s : TpState) : List Nat → Option TpState
  | [] => some s
  | rank :: ranks =>
    if rank < cfg.worldSize then
      (s.step cfg calls.calls rank).bind fun t => t.runRanks cfg calls ranks
    else none

theorem TpState.runRanks_trace {calls : RpcCalls} {ranks : List Nat} {s t : TpState}
    (h : s.runRanks cfg calls ranks = some t) : Trace (TpState.Steps cfg calls) s ranks t := by
  induction ranks generalizing s with
  | nil =>
    cases h
    exact .nil _
  | cons rank ranks ih =>
    unfold TpState.runRanks at h
    split at h
    · next hlt =>
      obtain ⟨u, hstep, hrest⟩ := Option.bind_eq_some_iff.mp h
      exact .cons ⟨hlt, hstep⟩ (ih hrest)
    · cases h

def twoRanks : TpConfig := ⟨2, false, by decide⟩

/-- A call of `prefix_cache_prune` that reduces its scores once. -/
def pruneCall (raisesAfter : Nat → Option Nat) : RpcCall where
  method := .prefixCachePrune
  collectives := 1
  raisesAfter := raisesAfter
  streamFails := fun _ => false
  interrupts := fun _ => false
  result := fun _ => 0

def pruneCalls (raisesAfter : Nat → Option Nat) : RpcCalls where
  calls := [pruneCall raisesAfter]
  exit_last n call get hexit := by
    have hlt := (List.getElem?_eq_some_iff.mp get).1
    have hn : n = 0 := by simpa using hlt
    rw [hn]
    rfl

/-- The pruning raises on rank 1, after that many collectives. -/
def pruneRaises (entered rank : Nat) : Option Nat :=
  if rank = 1 then some entered else none

/-- Rank 0 up to its collective, then the worker and rank 0 as far as they come. -/
def pruneSchedule (worker caller : Nat) : List Nat :=
  List.replicate 6 0 ++ List.replicate worker 1 ++ List.replicate caller 0

def pruneState (entered worker caller : Nat) : TpState :=
  (TpState.runRanks twoRanks (pruneCalls (pruneRaises entered)) {}
    (pruneSchedule worker caller)).getD {}

/-- The worker raises after the reduction, and is past it in the reduction of the statuses. -/
theorem tp_lockstep_prune : InLockstep twoRanks (pruneCalls (pruneRaises 1)) (pruneState 1 7 3) 0
    (pruneCall (pruneRaises 1)) := by
  have reach : TpState.Reachable twoRanks (pruneCalls (pruneRaises 1)) (pruneState 1 7 3) :=
    ⟨pruneSchedule 7 3, TpState.runRanks_trace rfl⟩
  have even : ∀ k, Even twoRanks (pruneCalls (pruneRaises 1)).calls k := by
    intro k n call _ get rank _
    obtain rfl : n = 0 := Nat.lt_one_iff.mp (List.getElem?_eq_some_iff.mp get).1
    cases get
    by_cases hrank : rank = 1
    · rw [hrank]
      rfl
    · simp [RpcCall.bodyEnters, pruneCall, pruneRaises, hrank]
  have inStep : InStep twoRanks (pruneCalls (pruneRaises 1)).calls 0 :=
    ⟨even 0, fun n call lt => absurd lt (Nat.not_lt_zero n), fun call get rank _ _ => by
      cases get
      exact Bool.and_false _⟩
  exact (tp_lockstep reach (even _)).2.2.1 0 _ rfl (by decide) inStep

/-- A rank whose scoring raises gives its status to the reduction of the scores and is back in
`read_shm`; rank 0 is left in the reduction of the statuses. -/
theorem prune_stuck : RpcMethod.prefixCachePrune ∈ RpcMethod.recoverableTpControl ∧
    ∃ s, TpState.Reachable twoRanks (pruneCalls (pruneRaises 0)) s ∧
      s.Stuck twoRanks (pruneCalls (pruneRaises 0)) ∧ s.phase 0 = .inStatus 0 ∧
      s.phase 1 = .idle 1 := by
  refine ⟨by decide, pruneState 0 7 3, ⟨pruneSchedule 7 3, TpState.runRanks_trace rfl⟩, ?_, rfl, rfl⟩
  intro rank hrank
  have hranks : rank = 0 ∨ rank = 1 := by
    have hlt : rank < 2 := hrank
    omega
  rcases hranks with rfl | rfl
  · rfl
  · rfl

end SparseVllm
