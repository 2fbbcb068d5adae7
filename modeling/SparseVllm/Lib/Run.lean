import Mathlib
import SparseVllm.Lib.Program

/-!
# Runs

A system is a state and a set of operations; a raise leaves the state it reached. `Reachable` are
the states of the runs whose every operation meets `guard` in the state it starts from. An
invariant of one operation is an invariant of the run.
-/

namespace SparseVllm.Lib

variable {ε σ ω α : Type}

/-- The state a program leaves, returning or raising. -/
def stateAfter (m : EStateM ε σ α) (s : σ) : σ :=
  match m s with
  | .ok _ t => t
  | .error _ t => t

theorem stateAfter_ok {m : EStateM ε σ α} {s t : σ} {a : α} (h : m s = .ok a t) :
    stateAfter m s = t := by
  unfold stateAfter
  rw [h]

theorem stateAfter_error {m : EStateM ε σ α} {s t : σ} {e : ε} (h : m s = .error e t) :
    stateAfter m s = t := by
  unfold stateAfter
  rw [h]

/-- Dropping a result keeps the state. -/
theorem stateAfter_discard (m : EStateM ε σ α) (s : σ) :
    stateAfter (do let _ ← m) s = stateAfter m s := by
  unfold stateAfter
  rw [bind_apply]
  cases m s with
  | ok a t => rfl
  | error e t => rfl

theorem Spec.stateAfter {P : σ → Prop} {I : σ → Prop} {m : EStateM ε σ α}
    (h : Spec P m (fun _ => I) fun _ => I) {s : σ} (hs : P s) : I (stateAfter m s) := by
  have := h s hs
  unfold Lib.stateAfter
  cases hm : m s with
  | ok a t => rw [hm] at this; exact this
  | error e t => rw [hm] at this; exact this

theorem Keeps.stateAfter {I : σ → Prop} {m : EStateM ε σ α} (h : Keeps I m) {s : σ} (hs : I s) :
    I (stateAfter m s) := Spec.stateAfter h hs

/-- The states of the runs of `exec` from `init` whose operations meet `guard`. -/
inductive Reachable (exec : ω → σ → σ) (guard : σ → ω → Prop) (init : σ) : σ → Prop where
  | init : Reachable exec guard init init
  | step {s : σ} (op : ω) (run : Reachable exec guard init s) (ok : guard s op) :
    Reachable exec guard init (exec op s)

/-- Every operation of a list meets `guard` in the state it starts from. -/
def Along (exec : ω → σ → σ) (guard : σ → ω → Prop) : σ → List ω → Prop
  | _, [] => True
  | s, op :: ops => guard s op ∧ Along exec guard (exec op s) ops

instance (exec : ω → σ → σ) (guard : σ → ω → Prop) [∀ s op, Decidable (guard s op)] :
    ∀ (s : σ) (ops : List ω), Decidable (Along exec guard s ops)
  | _, [] => isTrue trivial
  | s, op :: ops =>
    have := instDecidableAlong exec guard (exec op s) ops
    inferInstanceAs (Decidable (guard s op ∧ Along exec guard (exec op s) ops))

/-- The state after a list of operations. -/
def runAll (exec : ω → σ → σ) (s : σ) (ops : List ω) : σ :=
  ops.foldl (fun s op => exec op s) s

theorem Reachable.runAll {exec : ω → σ → σ} {guard : σ → ω → Prop} {init s : σ}
    (run : Reachable exec guard init s) :
    ∀ {ops : List ω}, Along exec guard s ops → Reachable exec guard init (runAll exec s ops)
  | [], _ => run
  | op :: _, h => Reachable.runAll (run.step op h.1) h.2

/-- **The invariant rule**: what one operation preserves holds along the run. -/
theorem Reachable.invariant {exec : ω → σ → σ} {guard : σ → ω → Prop} {init s : σ}
    (run : Reachable exec guard init s) {I : σ → Prop} (start : I init)
    (preserved : ∀ t op, I t → guard t op → I (exec op t)) : I s := by
  induction run with
  | init => exact start
  | step op _ ok ih => exact preserved _ op ih ok

/-- What every operation preserves holds after a list of them. -/
theorem runAll_invariant {exec : ω → σ → σ} {I : σ → Prop}
    (preserved : ∀ s op, I s → I (exec op s)) : ∀ (ops : List ω) {s : σ}, I s → I (runAll exec s ops)
  | [], _, h => h
  | op :: ops, s, h => runAll_invariant preserved ops (preserved s op h)

/-- **The refinement rule**: where every operation does to the view of a state what `spec` does, a run
does too. -/
theorem runAll_refines {τ : Type} {exec : ω → σ → σ} {guard : σ → ω → Prop} {I : σ → Prop}
    (view : σ → τ) {spec : τ → ω → τ}
    (refines : ∀ s op, I s → guard s op → I (exec op s) ∧ view (exec op s) = spec (view s) op) :
    ∀ (ops : List ω) {s : σ}, I s → Along exec guard s ops →
      view (runAll exec s ops) = ops.foldl spec (view s)
  | [], _, _, _ => rfl
  | op :: ops, s, h, run => by
    obtain ⟨hop, hrest⟩ := run
    obtain ⟨hkept, hview⟩ := refines s op h hop
    rw [List.foldl_cons, ← hview]
    exact runAll_refines view refines ops hkept hrest

/-- Runs with what each step returned. -/
inductive Trace (step : σ → α → σ → Prop) : σ → List α → σ → Prop where
  | nil (s : σ) : Trace step s [] s
  | cons {s t u : σ} {a : α} {rest : List α} (first : step s a t) (run : Trace step t rest u) :
    Trace step s (a :: rest) u

/-- What one step preserves holds along the run. -/
theorem Trace.invariant {step : σ → α → σ → Prop} {I : σ → Prop} {s t : σ} {results : List α}
    (run : Trace step s results t) (preserved : ∀ {s a t}, I s → step s a t → I t) (start : I s) :
    I t := by
  induction run with
  | nil s => exact start
  | cons first _ ih => exact ih (preserved start first)

/-- **The potential rule**: steps that pay for what they cost out of a potential cost at most what
the potential was. -/
theorem Trace.cost_le {step : σ → α → σ → Prop} {I : σ → Prop} {potential : σ → Nat}
    {cost : α → Nat} {s t : σ} {results : List α} (run : Trace step s results t)
    (pays : ∀ {s a t}, I s → step s a t → I t ∧ cost a + potential t ≤ potential s) (start : I s) :
    I t ∧ (results.map cost).sum + potential t ≤ potential s := by
  induction run with
  | nil s => exact ⟨start, by simp⟩
  | @cons s u t a rest first run ih =>
    obtain ⟨hu, hfirst⟩ := pays start first
    obtain ⟨ht, hrest⟩ := ih hu
    refine ⟨ht, ?_⟩
    rw [List.map_cons, List.sum_cons]
    omega

end SparseVllm.Lib
