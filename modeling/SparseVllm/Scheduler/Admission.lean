import SparseVllm.Scheduler.Schedule

/-!
# The two accountings of prompt admission

A pass keeps the room for new prompts twice: in the named budgets, and in the logical counter
`prompt_logical_free_count`. A prompt that fits the budgets is charged to both; if it does not fit
the counter, the pass raises `.promptAdmissionBudgetMismatch`.

Here the memory oracle is any oracle that charges both accountings the same
(`ChargesAlike memory slots rows`): the logical reservation of an admitted prompt is its cost in
`slots`, and every prompt costs one of `rows`. What the pass does to the counters then keeps
`Covers`: the counter covers the `slots` budget, or no row is left.

Results: `scheduleImpl_noMismatch`, for the counters a pass starts with.
-/

namespace SparseVllm

open SparseVllm.Lib

variable {ε σ B κ ν : Type}

/-- The field a request with a prefix hit starts at. -/
def Sequence.startedAtPrefixHit (request : Sequence B) : Sequence B :=
  if 0 < request.prefixCacheHitLen then
    { request with numPrefilledTokens := request.prefixCacheHitLen }
  else request

/-- Not the error of a prompt that fits the budgets and not the logical counter. -/
def NoMismatch (e : SchedulerError ε ν) : Prop :=
  ∀ seq need free, e ≠ .promptAdmissionBudgetMismatch seq need free

/-- Both accountings charge an admitted prompt the same, and one row. -/
structure ChargesAlike (memory : MemoryOracle ε σ B κ ν) (slots rows : ν) : Prop where
  nodup : ∀ {seq w w' costs}, memory.promptAdmissionCosts seq w = .ok costs w' →
    (costs.map Prod.fst).Nodup
  row : ∀ {seq w w' costs}, memory.promptAdmissionCosts seq w = .ok costs w' → (rows, 1) ∈ costs
  alike : ∀ {seq w w₁ w₂ w₃ costs need}, memory.promptAdmissionCosts seq w = .ok costs w₁ →
    memory.onPromptAdmitted seq costs w₁ = .ok () w₂ →
    memory.promptLogicalReservationCost seq (w₂.modifySeq seq Sequence.startedAtPrefixHit) =
      .ok need w₃ → (slots, need) ∈ costs

/-! ## Budgets -/

section Budgets

variable [DecidableEq ν]

theorem budgetOf_chargeBudget (budgets : List (ν × Int)) (name other : ν) (need : Int) :
    budgetOf (chargeBudget budgets name need) other =
      if other = name then budgetOf budgets name - need else budgetOf budgets other := by
  unfold chargeBudget
  conv_lhs => unfold budgetOf
  rw [List.lookup_cons]
  by_cases h : other = name
  · subst h
    rw [beq_self_eq_true, if_pos rfl]
    rfl
  · have hb : (other == name) = false := by simpa using h
    rw [hb, if_neg h]
    unfold budgetOf
    have hkeep : ∀ l : List (ν × Int),
        (l.filter fun entry => entry.1 ≠ name).lookup other = l.lookup other := by
      intro l
      induction l with
      | nil => rfl
      | cons entry l ih =>
        obtain ⟨key, value⟩ := entry
        by_cases hk : key = name
        · have hne : (other == key) = false := by rw [hk]; exact hb
          rw [List.filter_cons_of_neg (by simpa using hk), ih, List.lookup_cons, hne]
        · rw [List.filter_cons_of_pos (by simpa using hk), List.lookup_cons, List.lookup_cons, ih]
    rw [hkeep]

theorem budgetOf_chargeBudgets_of_notMem {name : ν} :
    ∀ {costs : List (ν × Int)} (budgets : List (ν × Int)), name ∉ costs.map Prod.fst →
      budgetOf (chargeBudgets budgets costs) name = budgetOf budgets name
  | [], _, _ => rfl
  | (other, need) :: costs, budgets, h => by
    rw [List.map_cons, List.mem_cons, not_or] at h
    show budgetOf (chargeBudgets (chargeBudget budgets other need) costs) name = _
    rw [budgetOf_chargeBudgets_of_notMem _ h.2, budgetOf_chargeBudget, if_neg h.1]

/-- Charging a prompt takes from each budget what the prompt costs of it. -/
theorem budgetOf_chargeBudgets {name : ν} {need : Int} :
    ∀ {costs : List (ν × Int)} (budgets : List (ν × Int)), (costs.map Prod.fst).Nodup →
      (name, need) ∈ costs →
      budgetOf (chargeBudgets budgets costs) name = budgetOf budgets name - need
  | [], _, _, h => by cases h
  | (other, cost) :: costs, budgets, hnd, h => by
    rw [List.map_cons, List.nodup_cons] at hnd
    show budgetOf (chargeBudgets (chargeBudget budgets other cost) costs) name = _
    rcases List.mem_cons.mp h with heq | h
    · cases heq
      rw [budgetOf_chargeBudgets_of_notMem _ hnd.1, budgetOf_chargeBudget, if_pos rfl]
    · have hne : name ≠ other := by
        rintro rfl
        exact hnd.1 (List.mem_map.mpr ⟨(_, need), ‹_›, rfl⟩)
      rw [budgetOf_chargeBudgets _ hnd.2 h, budgetOf_chargeBudget, if_neg hne]

/-- What fits costs of each budget no more than the budget has. -/
theorem le_budgetOf_of_fits {budgets : List (ν × Int)} {name : ν} {need : Int} :
    ∀ {costs : List (ν × Int)}, failedBudget budgets costs = none → (name, need) ∈ costs →
      need ≤ budgetOf budgets name
  | [], _, h => by cases h
  | (other, cost) :: costs, hfits, h => by
    unfold failedBudget at hfits
    split at hfits
    · cases hfits
    · rcases List.mem_cons.mp h with heq | h
      · cases heq
        omega
      · exact le_budgetOf_of_fits hfits h

/-- The logical counter covers the slots budget, or no row is left. -/
def Covers (slots rows : ν) (pass : PrefillPass ν) : Prop :=
  budgetOf pass.admissionBudgets slots ≤ pass.promptLogicalFreeCount ∨
    budgetOf pass.admissionBudgets rows ≤ 0

end Budgets

/-! ## The pass -/

section Pass

variable (cfg : SchedulerConfig) (memory : MemoryOracle ε σ B κ ν)

theorem ask_noMismatch {α : Type} (m : EStateM ε (World σ B) α) :
    RaisesOnly NoMismatch (ask (ν := ν) m) := by
  intro s t e h
  unfold ask at h
  split at h
  · cases h
  · cases h
    nofun

theorem ask_ok {α : Type} {m : EStateM ε (World σ B) α} {s t : Scheduler σ B} {a : α}
    (h : ask (ν := ν) m s = .ok a t) : m s.world = .ok a t.world := by
  unfold ask at h
  split at h
  · cases h
    assumption
  · cases h

theorem modifySeq_noMismatch (seq : SeqId) (f : Sequence B → Sequence B) :
    RaisesOnly NoMismatch (modifySeq (ε := ε) (ν := ν) (σ := σ) seq f) := .modify _

theorem getSeq_noMismatch (seq : SeqId) :
    RaisesOnly NoMismatch (getSeq (ε := ε) (ν := ν) (σ := σ) (B := B) seq) :=
  .bind .get fun _ => .pure _

theorem prefillBatchKey_noMismatch (seq : SeqId) :
    RaisesOnly NoMismatch (prefillBatchKey memory seq) :=
  .bind (ask_noMismatch _) fun _ => .bind (ask_noMismatch _) fun _ => .pure _

theorem refreshPrefillMetadata_noMismatch (seq : SeqId) :
    RaisesOnly NoMismatch (refreshPrefillMetadata memory seq) :=
  .bind (getSeq_noMismatch seq) fun _ => .ite (ask_noMismatch _) (.pure _)

theorem collectPrefillModes_noMismatch [DecidableEq κ] (pending : Bool) :
    ∀ seqs modes, RaisesOnly NoMismatch (collectPrefillModes memory pending seqs modes)
  | [], _ => .pure _
  | seq :: rest, modes => by
    refine .bind (getSeq_noMismatch seq) fun _ => .ite ?_ ?_
    · exact collectPrefillModes_noMismatch pending rest modes
    · refine .bind (refreshPrefillMetadata_noMismatch memory seq) fun _ => ?_
      refine .bind (prefillBatchKey_noMismatch memory seq) fun key => ?_
      exact collectPrefillModes_noMismatch pending rest _

theorem findPrefillSeq_noMismatch [DecidableEq κ] (pending : Bool)
    (target : PrefillExecutionMode × κ) :
    ∀ seqs idx, RaisesOnly NoMismatch (findPrefillSeq memory pending target seqs idx)
  | [], _ => .pure _
  | seq :: rest, idx => by
    refine .bind (getSeq_noMismatch seq) fun _ => .ite ?_ ?_
    · exact findPrefillSeq_noMismatch pending target rest (idx + 1)
    · refine .bind (prefillBatchKey_noMismatch memory seq) fun key => .ite (.pure _) ?_
      exact findPrefillSeq_noMismatch pending target rest (idx + 1)

theorem popWaitingAt_noMismatch (idx : Nat) :
    RaisesOnly NoMismatch (popWaitingAt (ε := ε) (ν := ν) (σ := σ) (B := B) idx) := by
  refine .bind .get fun s => ?_
  split
  · exact .pure _
  · exact .bind (.set _) fun _ => .pure _

theorem popNextPrefillSeq_noMismatch [DecidableEq κ] (target : PrefillExecutionMode × κ) :
    RaisesOnly NoMismatch (popNextPrefillSeq memory target) := by
  refine .bind .get fun s => .bind (findPrefillSeq_noMismatch memory _ target _ _) fun found => ?_
  cases found with
  | none => exact .pure _
  | some idx => exact popWaitingAt_noMismatch idx

theorem respectMinFinalPrefillChunk_noMismatch (seq : SeqId) (remaining proposed : Int) :
    RaisesOnly NoMismatch (respectMinFinalPrefillChunk memory seq remaining proposed) :=
  .bind (ask_noMismatch _) fun _ => .bind (.raiseIf _ nofun) fun _ => .ite (.pure _) (.pure _)

theorem passModes_noMismatch [DecidableEq κ] : RaisesOnly NoMismatch (passModes memory) :=
  .bind .get fun _ => .ite (.bind .get fun _ => collectPrefillModes_noMismatch memory _ _ _) (.pure _)

theorem startPass_noMismatch : RaisesOnly NoMismatch (startPass cfg memory) := by
  refine .bind (ask_noMismatch _) fun _ => .bind .get fun s => .ite (.pure _) ?_
  refine .bind (ask_noMismatch _) fun _ => .bind (ask_noMismatch _) fun _ => ?_
  refine .bind (ask_noMismatch _) fun _ => .bind (ask_noMismatch _) fun _ => ?_
  exact .bind (ask_noMismatch _) fun _ => .pure _

theorem raiseStored_noMismatch {failure : Option (SchedulerError ε ν)}
    (h : ∀ e, failure = some e → NoMismatch e) :
    RaisesOnly NoMismatch (raiseStored failure : SchedM ε σ B ν Unit) := by
  refine .bind .get fun s => ?_
  cases failure with
  | none => exact .pure _
  | some e => exact .raiseIf _ (h e rfl)

/-! ### The decode phase -/

theorem preemptDecodeVictim_noMismatch (victim : SeqId) (scheduled : List SeqId) :
    RaisesOnly NoMismatch (preemptDecodeVictim memory victim scheduled) := by
  refine .bind .get fun s => .bind (.raiseIf _ nofun) fun _ => .bind ?_ fun _ => ?_
  · exact .bind (getSeq_noMismatch victim) fun _ =>
      .ite (.bind (modifySeq_noMismatch _ _) fun _ => .modify _) (modifySeq_noMismatch _ _)
  refine .bind (.forEach (fun _ => modifySeq_noMismatch _ _) _) fun _ => ?_
  refine .bind (ask_noMismatch _) fun _ => .bind (ask_noMismatch _) fun _ => ?_
  refine .bind (.modify _) fun _ => .bind (.modify _) fun _ => .bind (.modify _) fun _ => ?_
  exact .bind (ask_noMismatch _) fun _ => .pure _

theorem popNextDecodingSeq_noMismatch (targetIsLong : Bool) :
    RaisesOnly NoMismatch (popNextDecodingSeq (ε := ε) (ν := ν) (σ := σ) (B := B) cfg
      targetIsLong) := by
  refine .bind .get fun s => ?_
  split
  · exact .pure _
  · refine .bind .get fun s => ?_
    split
    · exact .pure _
    · exact .bind (.set _) fun _ => .pure _

theorem decodeLoop_noMismatch (targetIsLong : Bool) :
    ∀ budget numBatched logicalFree scheduled blocked, RaisesOnly NoMismatch
      (decodeLoop cfg memory targetIsLong budget numBatched logicalFree scheduled blocked)
  | 0, _, _, _, _ => .pure _
  | budget + 1, numBatched, logicalFree, scheduled, blocked => by
    refine .bind .get fun s => .ite (.pure _) ?_
    refine .bind (popNextDecodingSeq_noMismatch cfg targetIsLong) fun popped => ?_
    cases popped with
    | none => exact .pure _
    | some seq =>
      refine .bind (ask_noMismatch _) fun _ => .bind (ask_noMismatch _) fun _ => .ite ?_ ?_
      · refine .ite ?_ (.ite ?_ ?_)
        · exact .bind (.modify _) fun _ => decodeLoop_noMismatch targetIsLong budget _ _ _ _
        · exact .bind (.modify _) fun _ => .pure _
        · exact .bind (preemptDecodeVictim_noMismatch memory seq scheduled) fun _ => .pure _
      · exact decodeLoop_noMismatch targetIsLong budget _ _ _ _

theorem finishEmptyPass_noMismatch (blocked : Option SeqId) (pass : PrefillPass ν) :
    RaisesOnly NoMismatch (finishEmptyPass memory blocked pass) := by
  cases blocked with
  | some victim => exact .bind (.modify _) fun _ => preemptDecodeVictim_noMismatch memory victim []
  | none =>
    refine .bind (raiseStored_noMismatch fun e h => ?_) fun _ =>
      .bind (raiseStored_noMismatch fun e h => ?_) fun _ =>
      .bind (raiseStored_noMismatch fun e h => ?_) fun _ => .pure _
    all_goals
      obtain ⟨failure, _, rfl⟩ := Option.map_eq_some_iff.mp h
      nofun

theorem decodePhase_noMismatch (decodeFree : Int) (pass : PrefillPass ν) :
    RaisesOnly NoMismatch (decodePhase cfg memory decodeFree pass) := by
  refine .bind .get fun s => .bind (decodeLoop_noMismatch cfg memory _ _ _ _ _ _) fun outcome => ?_
  cases outcome with
  | preempt result => exact .pure _
  | batch scheduled blocked =>
    refine .ite (finishEmptyPass_noMismatch memory blocked pass) ?_
    refine .bind (.modify _) fun _ => .bind ?_ fun _ => .pure _
    cases blocked with
    | none => exact .pure _
    | some victim => exact .modify _

/-! ### The prefill phase -/

variable [DecidableEq ν] {slots rows : ν}

/-- The program never raises a mismatch, and its result is covered. -/
def KeepsCover {α : Type} (slots rows : ν) (m : SchedM ε σ B ν α) (result : α → PrefillPass ν) :
    Prop :=
  Spec (fun _ => True) m (fun a _ => Covers slots rows (result a)) fun e _ => NoMismatch e

namespace KeepsCover

variable {α β : Type}

theorem pure {a : α} {result : α → PrefillPass ν} (h : Covers slots rows (result a)) :
    KeepsCover slots rows (Pure.pure a : SchedM ε σ B ν α) result :=
  Spec.pure fun _ _ => h

theorem bind {m : SchedM ε σ B ν α} {f : α → SchedM ε σ B ν β} {result : β → PrefillPass ν}
    (hm : RaisesOnly NoMismatch m) (hf : ∀ a, KeepsCover slots rows (f a) result) :
    KeepsCover slots rows (m >>= f) result := by
  refine Spec.bind (R := fun _ _ => True) ?_ hf
  intro s _
  cases h : m s with
  | ok a t => trivial
  | error e t => exact hm h

theorem bindCover {m : SchedM ε σ B ν α} {f : α → SchedM ε σ B ν β} {mid : α → PrefillPass ν}
    {result : β → PrefillPass ν} (hm : KeepsCover slots rows m mid)
    (hf : ∀ a, Covers slots rows (mid a) → KeepsCover slots rows (f a) result) :
    KeepsCover slots rows (m >>= f) result :=
  Spec.bind hm fun a => Spec.intro fun _ ht => Spec.pre (hf a ht) fun _ _ => trivial

theorem ite {c : Prop} [Decidable c] {m n : SchedM ε σ B ν α} {result : α → PrefillPass ν}
    (hm : KeepsCover slots rows m result) (hn : KeepsCover slots rows n result) :
    KeepsCover slots rows (if c then m else n) result :=
  Spec.ite (fun _ => hm) fun _ => hn

theorem raisesOnly {m : SchedM ε σ B ν α} {result : α → PrefillPass ν}
    (h : KeepsCover slots rows m result) : RaisesOnly NoMismatch m := by
  intro s t e he
  have hs := h s trivial
  rw [he] at hs
  exact hs

end KeepsCover

/-- What a pass notes about a blocked or deferred candidate is not a counter. -/
theorem Covers.of_counters {pass pass' : PrefillPass ν} (h : Covers slots rows pass)
    (hb : pass'.admissionBudgets = pass.admissionBudgets)
    (hl : pass'.promptLogicalFreeCount = pass.promptLogicalFreeCount) :
    Covers slots rows pass' := by
  unfold Covers at h ⊢
  rw [hb, hl]
  exact h

theorem blockPrefillCandidate_covers (mode : PrefillExecutionMode) (seq : SeqId)
    (remaining candidateFree : Int) {pass : PrefillPass ν} (h : Covers slots rows pass) :
    KeepsCover slots rows (blockPrefillCandidate (ε := ε) (σ := σ) (B := B) cfg mode seq remaining
      candidateFree pass) id := by
  refine .bind (.modify _) fun _ => .pure (h.of_counters ?_ ?_)
  all_goals
    simp only [id]
    split <;> split <;> rfl

theorem schedulePrefillChunk_covers (mode : PrefillExecutionMode) (seq : SeqId) (tokens : Int)
    {pass : PrefillPass ν} (h : Covers slots rows pass) :
    KeepsCover slots rows (schedulePrefillChunk memory mode seq tokens pass) Prod.snd :=
  .bind (modifySeq_noMismatch _ _) fun _ => .bind (ask_noMismatch _) fun _ =>
    .bind (modifySeq_noMismatch _ _) fun _ => .pure (h.of_counters rfl rfl)

/-- The counters after an admission, when both accountings charge the prompt the same. -/
theorem Covers.charge {pass : PrefillPass ν} {costs : List (ν × Int)} {need : Int}
    (h : Covers slots rows pass) (hnd : (costs.map Prod.fst).Nodup)
    (hfits : failedBudget pass.admissionBudgets costs = none) (hrow : (rows, 1) ∈ costs)
    (hneed : (slots, need) ∈ costs) :
    need ≤ pass.promptLogicalFreeCount ∧
      Covers slots rows { pass with
        admissionBudgets := chargeBudgets pass.admissionBudgets costs
        promptLogicalFreeCount := pass.promptLogicalFreeCount - need } := by
  have hslots := le_budgetOf_of_fits hfits hneed
  have hrows := le_budgetOf_of_fits hfits hrow
  have hcover : budgetOf pass.admissionBudgets slots ≤ pass.promptLogicalFreeCount := by
    rcases h with h | h
    · exact h
    · omega
  refine ⟨by omega, Or.inl ?_⟩
  show budgetOf (chargeBudgets pass.admissionBudgets costs) slots ≤ _
  rw [budgetOf_chargeBudgets _ hnd hneed]
  show _ ≤ pass.promptLogicalFreeCount - need
  omega

/-- The pass after an admission check: the admitted one, or the one that notes the deferral. -/
def passOf (out : Option (PrefillPass ν) × PrefillPass ν) : PrefillPass ν := out.1.getD out.2

variable {memory} (alike : ChargesAlike memory slots rows)

include alike

theorem chargeAdmission_covers {seq : SeqId} {costs : List (ν × Int)} {pass : PrefillPass ν}
    (h : Covers slots rows pass) (hfits : failedBudget pass.admissionBudgets costs = none)
    {w : World σ B} {s : Scheduler σ B}
    (hcosts : memory.promptAdmissionCosts seq w = .ok costs s.world) :
    match chargeAdmission memory seq costs pass s with
    | .ok pass' _ => Covers slots rows pass'
    | .error e _ => NoMismatch e := by
  unfold chargeAdmission
  rw [bind_apply]
  cases hon : ask (ν := ν) (memory.onPromptAdmitted seq costs) s with
  | error e t => exact ask_noMismatch _ hon
  | ok u t =>
    -- The request starts at its hit; its logical reservation is asked for in that world.
    let started := { t with world := t.world.modifySeq seq Sequence.startedAtPrefixHit }
    show match (ask (ν := ν) (memory.promptLogicalReservationCost seq) >>= _) started with
      | .ok pass' _ => Covers slots rows pass'
      | .error e _ => NoMismatch e
    rw [bind_apply]
    cases hneed : ask (ν := ν) (memory.promptLogicalReservationCost seq) started with
    | error e u => exact ask_noMismatch _ hneed
    | ok need u =>
      have hcharge := h.charge (alike.nodup hcosts) hfits (alike.row hcosts)
        (alike.alike hcosts (ask_ok hon) (ask_ok hneed))
      simp only [raiseIf_bind]
      rw [if_neg (by simpa using hcharge.1)]
      exact hcharge.2

theorem admitPrompt_covers (seq : SeqId) {pass : PrefillPass ν} (h : Covers slots rows pass) :
    KeepsCover slots rows (admitPrompt memory seq pass) passOf := by
  intro s _
  unfold admitPrompt
  rw [bind_apply]
  cases hcosts : ask (ν := ν) (memory.promptAdmissionCosts seq) s with
  | error e t => exact ask_noMismatch _ hcosts
  | ok costs t =>
    simp only
    cases hfits : failedBudget pass.admissionBudgets costs with
    | none =>
      have hcharge := chargeAdmission_covers alike h hfits (ask_ok hcosts)
      simp only
      rw [bind_apply]
      cases hrun : chargeAdmission memory seq costs pass t with
      | ok pass' u => rw [hrun] at hcharge; exact hcharge
      | error e u => rw [hrun] at hcharge; exact hcharge
    | some failure =>
      obtain ⟨name, need, free⟩ := failure
      refine (?_ : KeepsCover slots rows (_ : SchedM ε σ B ν _) passOf) t trivial
      refine .bind (ask_noMismatch _) fun action => .ite ?_ (Spec.throw fun _ _ => nofun)
      refine .bind (.modify _) fun _ => .pure (h.of_counters ?_ ?_)
      all_goals
        simp only [passOf, Option.getD_none]
        split <;> rfl

theorem prefillCandidate_covers (mode : PrefillExecutionMode) (seq : SeqId)
    {pass : PrefillPass ν} (h : Covers slots rows pass) :
    KeepsCover slots rows (prefillCandidate cfg memory mode seq pass) Prod.snd := by
  refine .bind (ask_noMismatch _) fun remaining => .bind (ask_noMismatch _) fun candidateFree => ?_
  refine .bind (ask_noMismatch _) fun fullStaging => .bind (.raiseIf _ nofun) fun _ => ?_
  refine .bind (respectMinFinalPrefillChunk_noMismatch memory _ _ _) fun tokens => .ite ?_ ?_
  · exact .bindCover (blockPrefillCandidate_covers cfg mode seq _ _ h) fun _ h' => .pure h'
  refine .bind (getSeq_noMismatch seq) fun request => .ite ?_ ?_
  · refine .bindCover (admitPrompt_covers alike seq h) fun out h' => ?_
    obtain ⟨admitted, pass'⟩ := out
    cases admitted with
    | none => exact .pure h'
    | some admitted => exact schedulePrefillChunk_covers memory mode seq tokens h'
  · exact schedulePrefillChunk_covers memory mode seq tokens h

variable [DecidableEq κ]

/-- The induction is on the scan budget; each candidate keeps the cover. -/
theorem prefillBucket_covers (margin : Int) (target : PrefillExecutionMode × κ) :
    ∀ budget {pass : PrefillPass ν}, Covers slots rows pass →
      KeepsCover slots rows (prefillBucket cfg memory margin target budget pass) id
  | 0, _, h => .pure h
  | budget + 1, pass, h => by
    refine .bind .get fun s => .ite ?_ (.pure h)
    refine .bind (popNextPrefillSeq_noMismatch memory target) fun popped => ?_
    cases popped with
    | none => exact .pure h
    | some seq =>
      refine .bindCover (prefillCandidate_covers cfg alike target.1 seq h) fun out h' => ?_
      obtain ⟨step, pass'⟩ := out
      cases step with
      | «continue» => exact prefillBucket_covers margin target budget h'
      | «break» => exact .pure h'

theorem prefillBuckets_covers (margin : Int) :
    ∀ targets {pass : PrefillPass ν}, Covers slots rows pass →
      KeepsCover slots rows (prefillBuckets cfg memory margin targets pass) id
  | [], _, h => .pure h
  | target :: rest, pass, h => by
    refine .ite (.bind .get fun s => ?_) (.pure h)
    refine .bindCover (prefillBucket_covers cfg alike margin target _ h) fun pass' h' => ?_
    exact prefillBuckets_covers margin rest h'

/-- **A pass whose first counters are covered never raises a mismatch.** -/
theorem scheduleImpl_noMismatch {s : Scheduler σ B}
    (start : ∀ pass margin t, startPass cfg memory s = .ok (pass, margin) t →
      Covers slots rows pass) {e : SchedulerError ε ν} {t : Scheduler σ B}
    (raised : scheduleImpl cfg memory s = .error e t) : NoMismatch e := by
  unfold scheduleImpl at raised
  rw [bind_apply] at raised
  cases hstart : startPass cfg memory s with
  | error e' u => rw [hstart] at raised; cases raised; exact startPass_noMismatch cfg memory hstart
  | ok out u =>
    obtain ⟨pass, margin⟩ := out
    rw [hstart] at raised
    refine (RaisesOnly.bind (ask_noMismatch _) fun decodeFree => ?_) raised
    refine .bind (passModes_noMismatch memory) fun modes => ?_
    have hbuckets := prefillBuckets_covers cfg alike margin modes (start _ _ _ hstart)
    refine .bind hbuckets.raisesOnly fun pass' => .ite ?_ (.pure _)
    exact decodePhase_noMismatch cfg memory _ pass'

end Pass

end SparseVllm
