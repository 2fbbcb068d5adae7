import Mathlib.Tactic.Common

/-!
# Programs with exceptions that keep their mutations

`EStateM ε σ α` is the Python reading of a method: it runs on a state, and an exception carries
the state reached so far (nothing is rolled back unless the program does it). `Spec P m Q E` is
the partial-correctness triple with two postconditions, `Q` for a normal return and `E` for a
raise. The rules below follow the constructors programs are written with: `pure`, `bind`, `throw`,
state access, a guard that raises, `try … except … raise`, a loop over a list, and `zoom`, which
runs a method of a component on the component's part of the state.
-/

namespace SparseVllm.Lib

variable {ε σ τ α β : Type}

/-- From every state satisfying `P`, `m` returns with `Q` or raises with `E`. -/
def Spec (P : σ → Prop) (m : EStateM ε σ α) (Q : α → σ → Prop) (E : ε → σ → Prop) : Prop :=
  ∀ s, P s → match m s with
    | .ok a t => Q a t
    | .error e t => E e t

/-- `Spec` with nothing said about raises. -/
def Returns (P : σ → Prop) (m : EStateM ε σ α) (Q : α → σ → Prop) : Prop :=
  Spec P m Q fun _ _ => True

/-- `if cond: raise e`. -/
def raiseIf (c : Prop) [Decidable c] (e : ε) : EStateM ε σ Unit :=
  if c then throw e else pure ()

/-- Run a component's method on the component's part of the state; `raised` is what the component's
error is to the caller. -/
def zoom {ε' : Type} (get : τ → σ) (put : σ → τ → τ) (raised : ε → ε') (m : EStateM ε σ α) :
    EStateM ε' τ α := fun t =>
  match m (get t) with
  | .ok a s => .ok a (put s t)
  | .error e s => .error (raised e) (put s t)

/-- `try: m except Exception: handler; raise`. -/
def onRaise (m : EStateM ε σ α) (handler : EStateM ε σ Unit) : EStateM ε σ α := fun s =>
  match m s with
  | .ok a t => .ok a t
  | .error e t =>
    match handler t with
    | .ok _ u => .error e u
    | .error e' u => .error e' u

/-- `try: m except E: handler`, for the errors `p` selects. -/
def catchIf (m : EStateM ε σ α) (p : ε → Bool) (handler : ε → EStateM ε σ α) : EStateM ε σ α :=
  fun s => match m s with
  | .ok a t => .ok a t
  | .error e t => if p e then handler e t else .error e t

/-- `try: m finally: handler`. -/
def andFinally (m : EStateM ε σ α) (handler : EStateM ε σ Unit) : EStateM ε σ α := fun s =>
  match m s with
  | .ok a t =>
    match handler t with
    | .ok _ u => .ok a u
    | .error e u => .error e u
  | .error e t =>
    match handler t with
    | .ok _ u => .error e u
    | .error e' u => .error e' u

/-- `for a in l: body a`. -/
def forEach (l : List α) (body : α → EStateM ε σ Unit) : EStateM ε σ Unit :=
  match l with
  | [] => pure ()
  | a :: rest => do body a; forEach rest body

/-- `[body(a) for a in l]`. -/
def mapEach (l : List α) (body : α → EStateM ε σ β) : EStateM ε σ (List β) :=
  match l with
  | [] => pure []
  | a :: rest => do
    let b ← body a
    let bs ← mapEach rest body
    pure (b :: bs)

/-! ## Evaluation -/

@[simp] theorem pure_apply (a : α) (s : σ) : (pure a : EStateM ε σ α) s = .ok a s := rfl

@[simp] theorem throw_apply (e : ε) (s : σ) : (throw e : EStateM ε σ α) s = .error e s := rfl

@[simp] theorem get_apply (s : σ) : (get : EStateM ε σ σ) s = .ok s s := rfl

@[simp] theorem set_apply (s t : σ) : (set t : EStateM ε σ PUnit) s = .ok ⟨⟩ t := rfl

@[simp] theorem modify_apply (f : σ → σ) (s : σ) :
    (modify f : EStateM ε σ PUnit) s = .ok ⟨⟩ (f s) := rfl

theorem bind_apply (m : EStateM ε σ α) (f : α → EStateM ε σ β) (s : σ) :
    (m >>= f) s = match m s with
      | .ok a t => f a t
      | .error e t => .error e t := rfl

theorem bind_ok {m : EStateM ε σ α} {f : α → EStateM ε σ β} {s t : σ} {a : α}
    (h : m s = .ok a t) : (m >>= f) s = f a t := by
  rw [bind_apply, h]

theorem exists_of_bind_ok {m : EStateM ε σ α} {f : α → EStateM ε σ β} {s u : σ} {b : β}
    (h : (m >>= f) s = .ok b u) : ∃ a t, m s = .ok a t ∧ f a t = .ok b u := by
  rw [bind_apply] at h
  cases hm : m s with
  | ok a t =>
    rw [hm] at h
    exact ⟨a, t, rfl, h⟩
  | error e t =>
    rw [hm] at h
    cases h

theorem bind_error {m : EStateM ε σ α} {f : α → EStateM ε σ β} {s t : σ} {e : ε}
    (h : m s = .error e t) : (m >>= f) s = .error e t := by
  rw [bind_apply, h]

@[simp] theorem get_bind (f : σ → EStateM ε σ β) (s : σ) : (get >>= f) s = f s s := rfl

@[simp] theorem pure_bind_apply (a : α) (f : α → EStateM ε σ β) (s : σ) :
    ((pure a : EStateM ε σ α) >>= f) s = f a s := rfl

@[simp] theorem throw_bind (e : ε) (f : α → EStateM ε σ β) (s : σ) :
    ((throw e : EStateM ε σ α) >>= f) s = .error e s := rfl

@[simp] theorem modify_bind (g : σ → σ) (f : PUnit → EStateM ε σ β) (s : σ) :
    ((modify g : EStateM ε σ PUnit) >>= f) s = f ⟨⟩ (g s) := rfl

@[simp] theorem raiseIf_bind (c : Prop) [Decidable c] (e : ε) (f : Unit → EStateM ε σ β) (s : σ) :
    (raiseIf c e >>= f) s = if c then .error e s else f () s := by
  unfold raiseIf
  split <;> rfl

theorem zoom_ok {ε' : Type} {get : τ → σ} {put : σ → τ → τ} {raised : ε → ε'} {m : EStateM ε σ α}
    {t : τ} {a : α} {s : σ} (h : m (get t) = .ok a s) :
    zoom get put raised m t = .ok a (put s t) := by
  unfold zoom
  rw [h]

theorem zoom_error {ε' : Type} {get : τ → σ} {put : σ → τ → τ} {raised : ε → ε'}
    {m : EStateM ε σ α} {t : τ} {e : ε} {s : σ} (h : m (get t) = .error e s) :
    zoom get put raised m t = .error (raised e) (put s t) := by
  unfold zoom
  rw [h]

theorem onRaise_ok {m : EStateM ε σ α} {handler : EStateM ε σ Unit} {s t : σ} {a : α}
    (h : m s = .ok a t) : onRaise m handler s = .ok a t := by
  unfold onRaise
  rw [h]

/-- A handler does not stop the raise. -/
theorem onRaise_error {m : EStateM ε σ α} (handler : EStateM ε σ Unit) {s t : σ} {e : ε}
    (h : m s = .error e t) : ∃ e' u, onRaise m handler s = .error e' u := by
  unfold onRaise
  rw [h]
  cases hu : handler t with
  | ok _ u => exact ⟨e, u, by simp only [hu]⟩
  | error e' u => exact ⟨e', u, by simp only [hu]⟩

/-- A loop whose bodies leave the state. -/
theorem forEach_ok {l : List α} {body : α → EStateM ε σ Unit} {s : σ}
    (h : ∀ a ∈ l, body a s = .ok () s) : forEach l body s = .ok () s := by
  induction l with
  | nil => rfl
  | cons a l ih =>
    rw [List.forall_mem_cons] at h
    unfold forEach
    rw [bind_ok h.1]
    exact ih h.2

theorem forEach_map (f : β → α) (l : List β) (body : α → EStateM ε σ Unit) :
    forEach (l.map f) body = forEach l fun b => body (f b) := by
  induction l with
  | nil => rfl
  | cons b l ih =>
    rw [List.map_cons]
    unfold forEach
    rw [ih]

/-- A comprehension whose body only reads the state. -/
theorem mapEach_ok {l : List α} {body : α → EStateM ε σ β} {f : α → β} {s : σ}
    (h : ∀ a ∈ l, body a s = .ok (f a) s) : mapEach l body s = .ok (l.map f) s := by
  induction l with
  | nil => rfl
  | cons a l ih =>
    unfold mapEach
    rw [bind_ok (h a List.mem_cons_self), bind_ok (ih fun b hb => h b (List.mem_cons_of_mem a hb))]
    rfl

theorem run'_eq_some {m : EStateM ε σ α} {s : σ} {a : α} :
    m.run' s = some a ↔ ∃ t, m s = .ok a t := by
  unfold EStateM.run' EStateM.run
  cases m s with
  | ok b t | error e t => simp

/-- The error a program raises, if it does. -/
def raises (m : EStateM ε σ α) (s : σ) : Option ε :=
  match m s with
  | .ok _ _ => none
  | .error e _ => some e

theorem raises_eq_some {m : EStateM ε σ α} {s : σ} {e : ε} :
    raises m s = some e ↔ ∃ t, m s = .error e t := by
  unfold raises
  cases m s with
  | ok b t | error e' t => simp

/-! ## Rules -/

theorem Spec.conseq {P P' : σ → Prop} {m : EStateM ε σ α} {Q Q' : α → σ → Prop}
    {E E' : ε → σ → Prop} (h : Spec P m Q E) (hP : ∀ s, P' s → P s)
    (hQ : ∀ a s, Q a s → Q' a s) (hE : ∀ e s, E e s → E' e s) : Spec P' m Q' E' := by
  intro s hs
  have := h s (hP s hs)
  cases hm : m s with
  | ok a t => rw [hm] at this; exact hQ a t this
  | error e t => rw [hm] at this; exact hE e t this

theorem Spec.pre {P P' : σ → Prop} {m : EStateM ε σ α} {Q : α → σ → Prop}
    {E : ε → σ → Prop} (h : Spec P m Q E) (hP : ∀ s, P' s → P s) : Spec P' m Q E :=
  h.conseq hP (fun _ _ h => h) fun _ _ h => h

theorem Spec.post {P : σ → Prop} {m : EStateM ε σ α} {Q Q' : α → σ → Prop}
    {E : ε → σ → Prop} (h : Spec P m Q E) (hQ : ∀ a s, Q a s → Q' a s) : Spec P m Q' E :=
  h.conseq (fun _ h => h) hQ fun _ _ h => h

/-- Saying nothing about raises. -/
theorem Spec.returns {P : σ → Prop} {m : EStateM ε σ α} {Q : α → σ → Prop} {E : ε → σ → Prop}
    (h : Spec P m Q E) : Returns P m Q :=
  h.conseq (fun _ h => h) (fun _ _ h => h) fun _ _ _ => True.intro

theorem Spec.trivial (m : EStateM ε σ α) {P : σ → Prop} :
    Spec P m (fun _ _ => True) fun _ _ => True := by
  intro s _
  cases m s <;> exact True.intro

theorem Spec.pure {P : σ → Prop} {a : α} {Q : α → σ → Prop} {E : ε → σ → Prop}
    (h : ∀ s, P s → Q a s) : Spec P (Pure.pure a) Q E := h

theorem Spec.throw {P : σ → Prop} {e : ε} {Q : α → σ → Prop} {E : ε → σ → Prop}
    (h : ∀ s, P s → E e s) : Spec P (throw e) Q E := h

theorem Spec.and {P : σ → Prop} {m : EStateM ε σ α} {Q Q' : α → σ → Prop} {E E' : ε → σ → Prop}
    (h : Spec P m Q E) (h' : Spec P m Q' E') :
    Spec P m (fun a s => Q a s ∧ Q' a s) fun e s => E e s ∧ E' e s := by
  intro s hs
  have h1 := h s hs
  have h2 := h' s hs
  cases hm : m s with
  | ok a t | error e t => rw [hm] at h1 h2; exact ⟨h1, h2⟩

theorem Returns.and {P : σ → Prop} {m : EStateM ε σ α} {Q Q' : α → σ → Prop} (h : Returns P m Q)
    (h' : Returns P m Q') : Returns P m fun a s => Q a s ∧ Q' a s :=
  (Spec.and h h').conseq (fun _ h => h) (fun _ _ h => h) fun _ _ _ => trivial

/-- A run known in full. -/
theorem Spec.of_ok {m : EStateM ε σ α} {s t : σ} {a : α} {E : ε → σ → Prop} (h : m s = .ok a t) :
    Spec (· = s) m (fun b u => b = a ∧ u = t) E := by
  rintro _ rfl
  rw [h]
  exact ⟨rfl, rfl⟩

theorem Spec.get {P : σ → Prop} {Q : σ → σ → Prop} {E : ε → σ → Prop}
    (h : ∀ s, P s → Q s s) : Spec P (get : EStateM ε σ σ) Q E := h

theorem Spec.modify {P : σ → Prop} {f : σ → σ} {Q : PUnit → σ → Prop} {E : ε → σ → Prop}
    (h : ∀ s, P s → Q ⟨⟩ (f s)) : Spec P (modify f : EStateM ε σ PUnit) Q E := h

theorem Spec.bind {P : σ → Prop} {m : EStateM ε σ α} {R : α → σ → Prop}
    {f : α → EStateM ε σ β} {Q : β → σ → Prop} {E : ε → σ → Prop}
    (hm : Spec P m R E) (hf : ∀ a, Spec (R a) (f a) Q E) : Spec P (m >>= f) Q E := by
  intro s hs
  have := hm s hs
  cases h : m s with
  | ok a t => rw [h] at this; rw [bind_ok h]; exact hf a t this
  | error e t => rw [h] at this; rw [bind_error h]; exact this

theorem Spec.raiseIf {P : σ → Prop} {c : Prop} [Decidable c] {e : ε} {E : ε → σ → Prop}
    (h : ∀ s, P s → c → E e s) :
    Spec P (raiseIf c e) (fun _ s => P s ∧ ¬ c) E := by
  intro s hs
  unfold Lib.raiseIf
  by_cases hc : c
  · rw [if_pos hc]; exact h s hs hc
  · rw [if_neg hc]; exact ⟨hs, hc⟩

theorem Spec.raiseIf_bind {P : σ → Prop} {c : Prop} [Decidable c] {e : ε}
    {f : Unit → EStateM ε σ α} {Q : α → σ → Prop} {E : ε → σ → Prop}
    (he : c → ∀ s, P s → E e s) (hm : ¬ c → Spec P (f ()) Q E) :
    Spec P (Lib.raiseIf c e >>= f) Q E := by
  intro s hs
  rw [Lib.raiseIf_bind]
  by_cases hc : c
  · rw [if_pos hc]; exact he hc s hs
  · rw [if_neg hc]; exact hm hc s hs

/-- Reading the state: the rest of the program runs from a known state. -/
theorem Spec.get_bind {P : σ → Prop} {f : σ → EStateM ε σ α} {Q : α → σ → Prop}
    {E : ε → σ → Prop} (h : ∀ s, P s → Spec (· = s) (f s) Q E) : Spec P (MonadState.get >>= f) Q E :=
  fun s hs => h s hs s rfl

theorem Spec.ite {P : σ → Prop} {c : Prop} [Decidable c] {m n : EStateM ε σ α}
    {Q : α → σ → Prop} {E : ε → σ → Prop} (hm : c → Spec P m Q E) (hn : ¬ c → Spec P n Q E) :
    Spec P (if c then m else n) Q E := by
  split
  · exact hm ‹_›
  · exact hn ‹_›

/-- A precondition can be used as a fact about the state the program starts in. -/
theorem Spec.intro {P : σ → Prop} {m : EStateM ε σ α} {Q : α → σ → Prop} {E : ε → σ → Prop}
    (h : ∀ s, P s → Spec (fun t => t = s) m Q E) : Spec P m Q E :=
  fun s hs => h s hs s rfl

/-- The program from one state of the precondition. -/
theorem Spec.start {P : σ → Prop} {m : EStateM ε σ α} {Q : α → σ → Prop} {E : ε → σ → Prop}
    (h : Spec P m Q E) {s : σ} (hs : P s) : Spec (· = s) m Q E := by
  rintro _ rfl
  exact h _ hs

/-- The loop rule: `I` holds before each pass, indexed by what is left of the list. -/
theorem Spec.forEach {I : List α → σ → Prop} {E : ε → σ → Prop} {body : α → EStateM ε σ Unit}
    (hbody : ∀ a rest, Spec (I (a :: rest)) (body a) (fun _ => I rest) E) :
    ∀ l, Spec (I l) (forEach l body) (fun _ => I []) E
  | [] => fun _ h => h
  | a :: rest => Spec.bind (hbody a rest) fun _ => Spec.forEach hbody rest

theorem Spec.zoom {ε' : Type} {get : τ → σ} {put : σ → τ → τ} {raised : ε → ε'}
    {m : EStateM ε σ α} {P : τ → Prop} {Q : α → τ → Prop} {E : ε' → τ → Prop}
    (h : ∀ t, P t → Spec (fun s => s = get t) m (fun a s => Q a (put s t))
      fun e s => E (raised e) (put s t)) : Spec P (zoom get put raised m) Q E := by
  intro t ht
  have := h t ht (get t) rfl
  unfold Lib.zoom
  cases hm : m (get t) with
  | ok a s | error e s => rw [hm] at this; exact this

theorem Spec.catchIf {P : σ → Prop} {m : EStateM ε σ α} {p : ε → Bool}
    {handler : ε → EStateM ε σ α} {Q : α → σ → Prop} {R E : ε → σ → Prop} (hm : Spec P m Q R)
    (hh : ∀ e, Spec (R e) (handler e) Q E) (hr : ∀ e s, R e s → E e s) :
    Spec P (catchIf m p handler) Q E := by
  intro s hs
  have h1 := hm s hs
  unfold Lib.catchIf
  cases h : m s with
  | ok a t => rw [h] at h1; exact h1
  | error e t =>
    rw [h] at h1
    by_cases hp : p e = true
    · simp only [hp, if_true]
      exact hh e t h1
    · simp only [hp]
      exact hr e t h1

theorem Spec.onRaise {P : σ → Prop} {m : EStateM ε σ α} {handler : EStateM ε σ Unit}
    {Q : α → σ → Prop} {R E : ε → σ → Prop} (hm : Spec P m Q R)
    (hh : ∀ e, Spec (R e) handler (fun _ => E e) E) : Spec P (onRaise m handler) Q E := by
  intro s hs
  have h1 := hm s hs
  unfold Lib.onRaise
  cases h : m s with
  | ok a t => rw [h] at h1; exact h1
  | error e t =>
    rw [h] at h1
    have h2 := hh e t h1
    cases h' : handler t with
    | ok _ u | error e' u => rw [h'] at h2; simpa only [h'] using h2

theorem Spec.andFinally {P : σ → Prop} {m : EStateM ε σ α} {handler : EStateM ε σ Unit}
    {R Q : α → σ → Prop} {F E : ε → σ → Prop} (hm : Spec P m R F)
    (hok : ∀ a, Spec (R a) handler (fun _ => Q a) E)
    (herror : ∀ e, Spec (F e) handler (fun _ => E e) E) : Spec P (andFinally m handler) Q E := by
  intro s hs
  have h1 := hm s hs
  unfold Lib.andFinally
  cases h : m s with
  | ok a t =>
    rw [h] at h1
    have h2 := hok a t h1
    cases h' : handler t with
    | ok _ u | error e u => rw [h'] at h2; simpa only [h'] using h2
  | error e t =>
    rw [h] at h1
    have h2 := herror e t h1
    cases h' : handler t with
    | ok _ u | error e' u => rw [h'] at h2; simpa only [h'] using h2

theorem Returns.andFinally {P : σ → Prop} {m : EStateM ε σ α} {handler : EStateM ε σ Unit}
    {R Q : α → σ → Prop} (hm : Returns P m R)
    (hh : ∀ a, Returns (R a) handler fun _ => Q a) : Returns P (andFinally m handler) Q :=
  Spec.andFinally hm hh fun _ => Spec.trivial handler

/-! ## Invariants of programs -/

/-- `m` keeps `I`, whether it returns or raises. -/
def Keeps (I : σ → Prop) (m : EStateM ε σ α) : Prop :=
  Spec I m (fun _ => I) fun _ => I

theorem Keeps.pure {I : σ → Prop} (a : α) : Keeps I (Pure.pure a : EStateM ε σ α) := fun _ h => h

theorem Keeps.throw {I : σ → Prop} (e : ε) : Keeps I (throw e : EStateM ε σ α) := fun _ h => h

theorem Keeps.get {I : σ → Prop} : Keeps I (get : EStateM ε σ σ) := fun _ h => h

theorem Keeps.modify {I : σ → Prop} {f : σ → σ} (h : ∀ s, I s → I (f s)) :
    Keeps I (modify f : EStateM ε σ PUnit) := h

theorem Keeps.bind {I : σ → Prop} {m : EStateM ε σ α} {f : α → EStateM ε σ β} (hm : Keeps I m)
    (hf : ∀ a, Keeps I (f a)) : Keeps I (m >>= f) := Spec.bind hm hf

theorem Keeps.raiseIf {I : σ → Prop} (c : Prop) [Decidable c] (e : ε) :
    Keeps I (raiseIf c e : EStateM ε σ Unit) :=
  Spec.post (Spec.raiseIf fun _ h _ => h) fun _ _ h => h.1

theorem Keeps.ite {I : σ → Prop} {c : Prop} [Decidable c] {m n : EStateM ε σ α} (hm : Keeps I m)
    (hn : Keeps I n) : Keeps I (if c then m else n) := Spec.ite (fun _ => hm) fun _ => hn

theorem Keeps.forEach {I : σ → Prop} {body : α → EStateM ε σ Unit} (h : ∀ a, Keeps I (body a))
    (l : List α) : Keeps I (forEach l body) :=
  Spec.forEach (I := fun _ => I) (fun a _ => h a) l

theorem Keeps.mapEach {I : σ → Prop} {body : α → EStateM ε σ β} {l : List α}
    (h : ∀ a ∈ l, Keeps I (body a)) : Keeps I (Lib.mapEach l body) := by
  induction l with
  | nil => exact Keeps.pure []
  | cons a l ih =>
    refine Keeps.bind (h a List.mem_cons_self) fun b => ?_
    exact Keeps.bind (ih fun c hc => h c (List.mem_cons_of_mem a hc)) fun bs => Keeps.pure (b :: bs)

/-! ## What a program may raise -/

/-- Every error `m` raises satisfies `p`. -/
def RaisesOnly (p : ε → Prop) (m : EStateM ε σ α) : Prop :=
  ∀ ⦃s t e⦄, m s = .error e t → p e

namespace RaisesOnly

variable {p : ε → Prop}

theorem pure (a : α) : RaisesOnly p (Pure.pure a : EStateM ε σ α) := nofun

theorem get : RaisesOnly p (get : EStateM ε σ σ) := nofun

theorem modify (f : σ → σ) : RaisesOnly p (modify f : EStateM ε σ PUnit) := nofun

theorem set (s : σ) : RaisesOnly p (set s : EStateM ε σ PUnit) := nofun

theorem throw {e : ε} (h : p e) : RaisesOnly p (throw e : EStateM ε σ α) := by
  intro s t e' he
  cases he
  exact h

theorem bind {m : EStateM ε σ α} {f : α → EStateM ε σ β} (hm : RaisesOnly p m)
    (hf : ∀ a, RaisesOnly p (f a)) : RaisesOnly p (m >>= f) := by
  intro s t e he
  rw [bind_apply] at he
  cases h : m s with
  | ok a u => rw [h] at he; exact hf a he
  | error e' u => rw [h] at he; cases he; exact hm h

theorem raiseIf (c : Prop) [Decidable c] {e : ε} (h : p e) :
    RaisesOnly p (raiseIf c e : EStateM ε σ Unit) := by
  unfold Lib.raiseIf
  split
  · exact RaisesOnly.throw h
  · exact RaisesOnly.pure ()

theorem ite {c : Prop} [Decidable c] {m n : EStateM ε σ α} (hm : RaisesOnly p m)
    (hn : RaisesOnly p n) : RaisesOnly p (if c then m else n) := by
  split
  · exact hm
  · exact hn

theorem forEach {body : α → EStateM ε σ Unit} (h : ∀ a, RaisesOnly p (body a)) :
    ∀ l, RaisesOnly p (forEach l body)
  | [] => RaisesOnly.pure ()
  | a :: rest => RaisesOnly.bind (h a) fun _ => RaisesOnly.forEach h rest

theorem zoom {ε' : Type} {q : ε' → Prop} {get : τ → σ} {put : σ → τ → τ} {raised : ε → ε'}
    {m : EStateM ε σ α} (hm : RaisesOnly (fun e => q (raised e)) m) :
    RaisesOnly q (zoom get put raised m) := by
  intro t u e he
  unfold Lib.zoom at he
  cases h : m (get t) with
  | ok a s => rw [h] at he; cases he
  | error e' s => rw [h] at he; cases he; exact hm h

/-- What `m` may raise, beside a triple of it. -/
theorem spec {P : σ → Prop} {m : EStateM ε σ α} {Q : α → σ → Prop} {E : ε → σ → Prop}
    (hm : RaisesOnly p m) (h : Spec P m Q E) : Spec P m Q fun e s => E e s ∧ p e := by
  intro s hs
  have h1 := h s hs
  cases hr : m s with
  | ok a t => rw [hr] at h1; exact h1
  | error e t => rw [hr] at h1; exact ⟨h1, hm hr⟩

end RaisesOnly

/-! ## Queries -/

/-- The result of a program run for its answer, or `default` if it raises. -/
def answer [Inhabited α] (m : EStateM ε σ α) (s : σ) : α :=
  match m s with
  | .ok a _ => a
  | .error _ _ => default

theorem answer_ok [Inhabited α] {m : EStateM ε σ α} {s t : σ} {a : α} (h : m s = .ok a t) :
    answer m s = a := by
  unfold answer
  rw [h]

/-- The result of a program or its error, without the state it leaves. -/
def reply (m : EStateM ε σ α) (s : σ) : Except ε α :=
  match m s with
  | .ok a _ => .ok a
  | .error e _ => .error e

theorem reply_ok {m : EStateM ε σ α} {s t : σ} {a : α} (h : m s = .ok a t) :
    reply m s = .ok a := by
  unfold reply
  rw [h]

theorem reply_error {m : EStateM ε σ α} {s t : σ} {e : ε} (h : m s = .error e t) :
    reply m s = .error e := by
  unfold reply
  rw [h]

/-- A query asked again at once gives the same answer and leaves the state alone. -/
def Repeatable (m : EStateM ε σ α) : Prop :=
  ∀ ⦃s t a⦄, m s = .ok a t → m t = .ok a t

/-- From `s`, `m` returns exactly when `fits`. A return leaves the state exactly when `same`, a raise
exactly when `blocked`. -/
def EndsAs (fits same blocked : Prop) (s : σ) (m : EStateM ε σ α) : Prop :=
  match m s with
  | .ok _ t => fits ∧ (t = s ↔ same)
  | .error _ t => ¬ fits ∧ (t = s ↔ blocked)

theorem EndsAs.ok {fits same blocked : Prop} {s t : σ} {m : EStateM ε σ α} {a : α}
    (h : EndsAs fits same blocked s m) (hm : m s = .ok a t) : fits ∧ (t = s ↔ same) := by
  unfold EndsAs at h
  rwa [hm] at h

theorem EndsAs.error {fits same blocked : Prop} {s t : σ} {m : EStateM ε σ α} {e : ε}
    (h : EndsAs fits same blocked s m) (hm : m s = .error e t) :
    ¬ fits ∧ (t = s ↔ blocked) := by
  unfold EndsAs at h
  rwa [hm] at h

/-! ## Two programs with one outcome -/

/-- From `s` both return the same, or both raise with errors related by `r`, in the same state. -/
def AgreeAt (r : ε → ε → Prop) (s : σ) (m n : EStateM ε σ α) : Prop :=
  match m s, n s with
  | .ok a t, .ok b u => a = b ∧ t = u
  | .error e t, .error f u => r e f ∧ t = u
  | _, _ => False

namespace AgreeAt

variable {r : ε → ε → Prop} {s t : σ} {m n : EStateM ε σ α}

theorem refl (hr : ∀ e, r e e) (m : EStateM ε σ α) (s : σ) : AgreeAt r s m m := by
  unfold AgreeAt
  cases m s with
  | ok a t => exact ⟨rfl, rfl⟩
  | error e t => exact ⟨hr e, rfl⟩

theorem ok {a : α} (h : AgreeAt r s m n) (hm : m s = .ok a t) : n s = .ok a t := by
  unfold AgreeAt at h
  rw [hm] at h
  cases hn : n s with
  | ok b u => rw [hn] at h; obtain ⟨rfl, rfl⟩ := h; rfl
  | error e u => rw [hn] at h; exact h.elim

theorem error {e : ε} (h : AgreeAt r s m n) (hm : m s = .error e t) :
    ∃ e', n s = .error e' t ∧ r e e' := by
  unfold AgreeAt at h
  rw [hm] at h
  cases hn : n s with
  | ok b u => rw [hn] at h; exact h.elim
  | error e' u => rw [hn] at h; obtain ⟨hr, rfl⟩ := h; exact ⟨e', rfl, hr⟩

theorem bind {f g : α → EStateM ε σ β} (h : AgreeAt r s m n)
    (hf : ∀ a t, AgreeAt r t (f a) (g a)) : AgreeAt r s (m >>= f) (n >>= g) := by
  cases hm : m s with
  | ok a t =>
    have hfa := hf a t
    unfold AgreeAt at hfa ⊢
    rw [bind_ok hm, bind_ok (h.ok hm)]
    exact hfa
  | error e t =>
    obtain ⟨e', hn, hr⟩ := h.error hm
    unfold AgreeAt
    rw [bind_error hm, bind_error hn]
    exact ⟨hr, rfl⟩

theorem ite {c : Prop} [Decidable c] {m' n' : EStateM ε σ α} (h : c → AgreeAt r s m n)
    (h' : ¬ c → AgreeAt r s m' n') :
    AgreeAt r s (if c then m else m') (if c then n else n') := by
  split
  · exact h ‹_›
  · exact h' ‹_›

end AgreeAt

end SparseVllm.Lib
