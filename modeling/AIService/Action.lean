import Mathlib.Data.List.Basic

/-!
# Sequential code that may throw

An `Action` runs from a state to a state, shows observations on the way and returns a
value or an exception.  An exception keeps the state changes and the observations made
before it.  A run of a sequence splits into the runs of its parts (`Action.bind_cases`).
-/

namespace AIService

theorem bind_eq_ok {ε α β : Type} {x : Except ε α} {f : α → Except ε β} {b : β}
    (ran : (x >>= f) = .ok b) : ∃ a, x = .ok a ∧ f a = .ok b := by
  cases x with
  | error e => cases ran
  | ok a => exact ⟨a, rfl, ran⟩

theorem bind_eq_error {ε α β : Type} {x : Except ε α} {f : α → Except ε β} {e : ε}
    (failed : x >>= f = .error e) : x = .error e ∨ ∃ a, x = .ok a ∧ f a = .error e := by
  cases x with
  | error e' => exact .inl (congrArg Except.error (Except.error.inj failed))
  | ok a => exact .inr ⟨a, rfl, failed⟩

/-- From a state: what is shown, the state that is left, and the result or exception. -/
def Action (σ ω ε α : Type) : Type := σ → List ω × σ × Except ε α

namespace Action

variable {σ ω ε α β : Type}

protected def pure (a : α) : Action σ ω ε α := fun s => ([], s, .ok a)

protected def bind (m : Action σ ω ε α) (f : α → Action σ ω ε β) : Action σ ω ε β := fun s =>
  match m s with
  | (out, s', .error e) => (out, s', .error e)
  | (out, s', .ok a) =>
      let (out', s'', r) := f a s'
      (out ++ out', s'', r)

instance : Monad (Action σ ω ε) where
  pure := Action.pure
  bind := Action.bind

def fail (e : ε) : Action σ ω ε α := fun s => ([], s, .error e)

def lift (r : Except ε α) : Action σ ω ε α := fun s => ([], s, r)

def current : Action σ ω ε σ := fun s => ([], s, .ok s)

def update (f : σ → σ) : Action σ ω ε Unit := fun s => ([], f s, .ok ())

def emit (o : ω) : Action σ ω ε Unit := fun s => ([o], s, .ok ())

/-- A sequence failed in its first part, or ran both. -/
theorem bind_cases {m : Action σ ω ε α} {f : α → Action σ ω ε β} {s s' : σ} {out : List ω}
    {r : Except ε β} (ran : (m >>= f) s = (out, s', r)) :
    (∃ e, m s = (out, s', .error e) ∧ r = .error e) ∨
    ∃ out₁ s₁ a out₂, m s = (out₁, s₁, .ok a) ∧ f a s₁ = (out₂, s', r) ∧ out = out₁ ++ out₂ := by
  change Action.bind m f s = _ at ran
  unfold Action.bind at ran
  split at ran
  · next first =>
      cases ran
      exact .inl ⟨_, first, rfl⟩
  · next first =>
      cases ran
      exact .inr ⟨_, _, _, _, first, rfl, rfl⟩

/-- A sequence whose first part returns goes on with the second. -/
theorem bind_eq {m : Action σ ω ε α} {f : α → Action σ ω ε β} {s s' : σ} {out : List ω} {a : α}
    (ran : m s = (out, s', .ok a)) : (m >>= f) s = (out ++ (f a s').1, (f a s').2) := by
  change Action.bind m f s = _
  rw [Action.bind, ran]

theorem bind_error {m : Action σ ω ε α} {f : α → Action σ ω ε β} {s s' : σ} {out : List ω} {e : ε}
    (failed : m s = (out, s', .error e)) : (m >>= f) s = (out, s', .error e) := by
  change Action.bind m f s = _
  rw [Action.bind, failed]

theorem lift_cases {r r' : Except ε α} {s s' : σ} {out : List ω}
    (ran : (lift r : Action σ ω ε α) s = (out, s', r')) : [] = out ∧ s = s' ∧ r = r' := by
  cases ran
  exact ⟨rfl, rfl, rfl⟩

theorem current_bind_eq (f : σ → Action σ ω ε α) (s : σ) : (current >>= f) s = f s s := rfl

theorem emit_bind_eq (o : ω) (f : Unit → Action σ ω ε α) (s : σ) :
    (emit o >>= f) s = (o :: (f () s).1, (f () s).2) := rfl

/-! ## Code that keeps a property -/

/-- `m` does not change `view`, shows only what `shown` allows there and throws only what
`raised` allows. -/
structure Keeps {γ : Type} (view : σ → γ) (shown : γ → ω → Prop) (raised : ε → Prop)
    (m : Action σ ω ε α) : Prop where
  spec {s s' : σ} {out : List ω} {r : Except ε α} : m s = (out, s', r) →
    view s' = view s ∧ (∀ o ∈ out, shown (view s) o) ∧ ∀ e, r = .error e → raised e

namespace Keeps

variable {γ : Type} {view : σ → γ} {shown : γ → ω → Prop} {raised : ε → Prop}

protected theorem bind {m : Action σ ω ε α} {f : α → Action σ ω ε β} (first : Keeps view shown raised m)
    (second : ∀ a, Keeps view shown raised (f a)) : Keeps view shown raised (m >>= f) where
  spec ran := by
    rcases bind_cases ran with ⟨e, failed, rfl⟩ | ⟨out₁, s₁, a, out₂, before, after, rfl⟩
    · obtain ⟨same, fine, throws⟩ := first.spec failed
      exact ⟨same, fine, fun _ eq => throws _ (by cases eq; rfl)⟩
    · obtain ⟨same, fine, -⟩ := first.spec before
      obtain ⟨same', fine', throws⟩ := (second a).spec after
      refine ⟨same'.trans same, fun o member => ?_, throws⟩
      rcases List.mem_append.mp member with early | late
      · exact fine o early
      · exact same ▸ fine' o late

protected theorem pure (a : α) : Keeps view shown raised (Pure.pure a : Action σ ω ε α) where
  spec ran := by
    cases ran
    exact ⟨rfl, by simp, nofun⟩

theorem lift {r : Except ε α} (throws : ∀ e, r = .error e → raised e) :
    Keeps view shown raised (Action.lift r : Action σ ω ε α) where
  spec ran := by
    cases ran
    exact ⟨rfl, by simp, throws⟩

theorem fail {e : ε} (throws : raised e) :
    Keeps view shown raised (Action.fail e : Action σ ω ε α) where
  spec ran := by
    cases ran
    exact ⟨rfl, by simp, fun _ eq => by cases eq; exact throws⟩

theorem update {f : σ → σ} (same : ∀ s, view (f s) = view s) :
    Keeps view shown raised (Action.update f : Action σ ω ε Unit) where
  spec ran := by
    cases ran
    exact ⟨same _, by simp, nofun⟩

/-- Code that looks at the state first: it may be different code for each state. -/
theorem current_bind {f : σ → Action σ ω ε α}
    (fine : ∀ s, Keeps view (fun v o => v = view s → shown v o) raised (f s)) :
    Keeps view shown raised (Action.current >>= f) where
  spec {s s' out r} ran := by
    rcases bind_cases ran with ⟨e, failed, -⟩ | ⟨out₁, s₁, a, out₂, before, after, rfl⟩
    · cases failed
    · cases before
      obtain ⟨same, shows, throws⟩ := (fine s).spec after
      exact ⟨same, fun o member => shows o member rfl, throws⟩

theorem emit {o : ω} (fine : ∀ v, shown v o) :
    Keeps view shown raised (Action.emit o : Action σ ω ε Unit) where
  spec ran := by
    cases ran
    exact ⟨rfl, by simpa using fine _, nofun⟩

theorem ite {c : Prop} [Decidable c] {m m' : Action σ ω ε α} (yes : c → Keeps view shown raised m)
    (no : ¬ c → Keeps view shown raised m') : Keeps view shown raised (if c then m else m') := by
  split
  · next holds => exact yes holds
  · next fails => exact no fails

end Keeps

end Action

end AIService
