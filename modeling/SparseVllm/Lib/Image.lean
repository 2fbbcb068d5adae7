import SparseVllm.Lib.Run

/-!
# Programs on an embedded state

`embed` is how a larger state shows a smaller one. `Lifts embed raised t m n`: from `t`, seen in the
larger state, `m` returns or raises what `n` does, and leaves what `n` leaves. The rules follow the
program, so that a method on the larger state is compared with the one on the smaller statement by
statement; `Lifts.stateAfter` then carries an invariant over.
-/

namespace SparseVllm.Lib

variable {ε ε' σ τ α β : Type}

/-- An outcome on the smaller state, seen in the larger one. -/
def mapResult (embed : τ → σ) (raised : ε' → ε) : EStateM.Result ε' τ α → EStateM.Result ε σ α
  | .ok a t => .ok a (embed t)
  | .error e t => .error (raised e) (embed t)

/-- From `t`, seen through `embed`, `m` does what `n` does. -/
def Lifts (embed : τ → σ) (raised : ε' → ε) (t : τ) (m : EStateM ε σ α) (n : EStateM ε' τ α) : Prop :=
  m (embed t) = mapResult embed raised (n t)

namespace Lifts

variable {embed : τ → σ} {raised : ε' → ε} {t : τ} {m : EStateM ε σ α} {n : EStateM ε' τ α}

theorem pure (a : α) : Lifts embed raised t (Pure.pure a) (Pure.pure a) := rfl

theorem throw (e : ε') :
    Lifts embed raised t (throw (raised e) : EStateM ε σ α) (MonadExcept.throw e) := rfl

theorem modify {f : σ → σ} {f' : τ → τ} (h : f (embed t) = embed (f' t)) :
    Lifts embed raised t (modify f) (modify f') :=
  congrArg (EStateM.Result.ok PUnit.unit) h

theorem bind {f : α → EStateM ε σ β} {f' : α → EStateM ε' τ β} (h : Lifts embed raised t m n)
    (hf : ∀ a u, n t = .ok a u → Lifts embed raised u (f a) (f' a)) :
    Lifts embed raised t (m >>= f) (n >>= f') := by
  unfold Lifts at h ⊢
  cases hn : n t with
  | ok a u =>
    rw [hn] at h
    rw [bind_ok h, bind_ok hn]
    exact hf a u hn
  | error e u =>
    rw [hn] at h
    rw [bind_error h, bind_error hn]
    rfl

theorem get_bind {f : σ → EStateM ε σ β} {f' : τ → EStateM ε' τ β}
    (h : Lifts embed raised t (f (embed t)) (f' t)) :
    Lifts embed raised t (MonadState.get >>= f) (MonadState.get >>= f') := h

theorem raiseIf_bind {c c' : Prop} [Decidable c] [Decidable c'] {e : ε'}
    {f : Unit → EStateM ε σ β} {f' : Unit → EStateM ε' τ β} (hc : c ↔ c')
    (h : ¬ c' → Lifts embed raised t (f ()) (f' ())) :
    Lifts embed raised t (raiseIf c (raised e) >>= f) (raiseIf c' e >>= f') := by
  unfold Lifts
  rw [Lib.raiseIf_bind, Lib.raiseIf_bind]
  by_cases hc' : c'
  · rw [if_pos (hc.mpr hc'), if_pos hc']
    rfl
  · rw [if_neg fun hyes => hc' (hc.mp hyes), if_neg hc']
    exact h hc'

/-- A method of the smaller state, run on its part of the larger one. -/
theorem zoom {get : σ → τ} {put : τ → σ → σ} (hget : get (embed t) = t)
    (hput : Spec (· = t) n (fun _ u => put u (embed t) = embed u)
      fun _ u => put u (embed t) = embed u) :
    Lifts embed raised t (zoom get put raised n) n := by
  have h := hput t rfl
  unfold Lifts Lib.zoom
  rw [hget]
  cases hn : n t with
  | ok a u =>
    rw [hn] at h
    exact congrArg (EStateM.Result.ok a) h
  | error e u =>
    rw [hn] at h
    exact congrArg (EStateM.Result.error (raised e)) h

/-- What `n` keeps, `m` keeps, returning or raising. -/
theorem stateAfter {I : τ → Prop} (h : Lifts embed raised t m n)
    (hn : Spec (· = t) n (fun _ => I) fun _ => I) :
    ∃ u, stateAfter m (embed t) = embed u ∧ I u := by
  have hspec := hn t rfl
  unfold Lifts at h
  cases hrun : n t with
  | ok a u =>
    rw [hrun] at h hspec
    exact ⟨u, stateAfter_ok h, hspec⟩
  | error e u =>
    rw [hrun] at h hspec
    exact ⟨u, stateAfter_error h, hspec⟩

end Lifts

end SparseVllm.Lib
