import Mathlib.Data.List.Basic

/-!
# Runs of a transition system

A system is a relation `Step s out s'`: from state `s` one atomic step shows the
observations `out` and leaves `s'`.  Which thread moves, and what the environment
answers, is part of the choice of step, so a `Run` is one interleaving.  Its trace
lists the observations of all steps in order.
-/

namespace AIService

variable {σ ω : Type}

/-- `Run Step start tr s`: some sequence of steps from `start` ends in `s` and
shows `tr`. -/
inductive Run (Step : σ → List ω → σ → Prop) (start : σ) : List ω → σ → Prop
  | refl : Run Step start [] start
  | tail {tr out : List ω} {s s' : σ} :
    Run Step start tr s → Step s out s' → Run Step start (tr ++ out) s'

namespace Run

variable {Step : σ → List ω → σ → Prop} {start s s' : σ} {tr out : List ω}

/-- A property of state and trace that holds at the start and survives every
step holds at the end of every run. -/
theorem invariant {I : σ → List ω → Prop} (atStart : I start [])
    (preserved : ∀ {s tr out s'}, I s tr → Step s out s' → I s' (tr ++ out))
    (run : Run Step start tr s) : I s tr := by
  induction run with
  | refl => exact atStart
  | tail _ step ih => exact preserved ih step

/-- One step is a run. -/
theorem single (step : Step s out s') : Run Step s out s' :=
  show Run Step s ([] ++ out) s' from .tail .refl step

/-- Runs compose, and so do their traces. -/
theorem trans {tr' : List ω} (first : Run Step start tr s) (second : Run Step s tr' s') :
    Run Step start (tr ++ tr') s' := by
  induction second with
  | refl => simpa using first
  | tail _ step ih =>
      rw [← List.append_assoc]
      exact .tail ih step

/-- A run of one system is a run of a larger one. -/
theorem mono {Step' : σ → List ω → σ → Prop} (larger : ∀ {s out s'}, Step s out s' → Step' s out s')
    (run : Run Step start tr s) : Run Step' start tr s := by
  induction run with
  | refl => exact .refl
  | tail _ step ih => exact .tail ih (larger step)

/-- What every step says of each observation it shows, given the trace before it, holds
of each observation of a run. -/
theorem observed {E : List ω → ω → Prop}
    (shown : ∀ {tr s out s'}, Run Step start tr s → Step s out s' →
      ∀ pre o post, out = pre ++ o :: post → E (tr ++ pre) o)
    (run : Run Step start tr s) {before : List ω} {o : ω} {after : List ω}
    (split : tr = before ++ o :: after) : E before o := by
  induction run generalizing after with
  | refl => cases before <;> cases split
  | tail earlier step ih =>
      rcases List.append_eq_append_iff.mp split with ⟨pre, rfl, outSplit⟩ | ⟨mid, rfl, cut⟩
      · exact shown earlier step pre o after outSplit
      · cases mid with
        | nil =>
            simpa using shown earlier step [] o after cut.symm
        | cons o' rest =>
            obtain ⟨rfl, -⟩ := List.cons.inj cut
            exact ih rfl

end Run

end AIService
