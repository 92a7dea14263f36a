import Mathlib.Data.List.Basic

/-!
# Machines that run until they are quiet

A deterministic machine is a function `advance` that either makes one step, with the
observations it shows, or has nothing to do.  `Settles` runs it until it is quiet.  When
input that arrives early only postpones what the machine does anyway (`Resumable`), the
way the input is cut makes no difference: `settles_feed` and `settles_feedAll`.
-/

namespace AIService

variable {σ ω ι : Type} {advance : σ → Option (List ω × σ)}

/-- From `s` the machine runs to the quiet state `s'`, showing `out`. -/
inductive Settles (advance : σ → Option (List ω × σ)) : σ → List ω → σ → Prop
  | quiet {s : σ} : advance s = none → Settles advance s [] s
  | step {s s' s'' : σ} {out later : List ω} :
    advance s = some (out, s') → Settles advance s' later s'' →
    Settles advance s (out ++ later) s''

namespace Settles

theorem isQuiet {s s' : σ} {out : List ω} (run : Settles advance s out s') :
    advance s' = none := by
  induction run with
  | quiet silent => exact silent
  | step _ _ ih => exact ih

/-- A machine comes to rest in one way only. -/
theorem unique {s s₁ s₂ : σ} {out₁ out₂ : List ω} (first : Settles advance s out₁ s₁)
    (second : Settles advance s out₂ s₂) : out₁ = out₂ ∧ s₁ = s₂ := by
  induction first generalizing out₂ with
  | quiet silent =>
      cases second with
      | quiet => exact ⟨rfl, rfl⟩
      | step moves =>
          rw [silent] at moves
          cases moves
  | step moves _ ih =>
      cases second with
      | quiet silent =>
          rw [silent] at moves
          cases moves
      | step moves' later' =>
          rw [moves] at moves'
          cases moves'
          obtain ⟨rfl, rfl⟩ := ih later'
          exact ⟨rfl, rfl⟩

/-- A step into a quiet state. -/
theorem last {s s' : σ} {out : List ω} (moves : advance s = some (out, s'))
    (silent : advance s' = none) : Settles advance s out s' := by
  rw [← List.append_nil out]
  exact .step moves (.quiet silent)

/-- A property of state and trace that survives every step holds when the machine comes
to rest. -/
theorem invariant {I : List ω → σ → Prop}
    (kept : ∀ {tr s out s'}, I tr s → advance s = some (out, s') → I (tr ++ out) s')
    (tr : List ω) {out : List ω} {s s' : σ} (holds : I tr s) (run : Settles advance s out s') :
    I (tr ++ out) s' := by
  induction run generalizing tr with
  | quiet =>
      rw [List.append_nil]
      exact holds
  | step moves _ ih =>
      rw [← List.append_assoc]
      exact ih _ (kept holds moves)

/-- A step that shows nothing. -/
theorem silent {s s' s'' : σ} {out : List ω} (moves : advance s = some ([], s'))
    (later : Settles advance s' out s'') : Settles advance s out s'' :=
  .step moves later

end Settles

/-- Input fed before a step does not change what the step shows, nor where the machine
comes to rest. -/
def Resumable (advance : σ → Option (List ω × σ)) (feed : σ → ι → σ) : Prop :=
  ∀ {s s' s'' : σ} {out later : List ω} (i : ι), advance s = some (out, s') →
    Settles advance (feed s' i) later s'' → Settles advance (feed s i) (out ++ later) s''

/-- Feed the pieces one by one, each time running the machine until it is quiet. -/
inductive FedAll (advance : σ → Option (List ω × σ)) (feed : σ → ι → σ) :
    σ → List ι → List ω → σ → Prop
  | nil {s : σ} : FedAll advance feed s [] [] s
  | cons {s s' s'' : σ} {i : ι} {rest : List ι} {out later : List ω} :
    Settles advance (feed s i) out s' → FedAll advance feed s' rest later s'' →
    FedAll advance feed s (i :: rest) (out ++ later) s''

section feeding

variable {feed : σ → ι → σ}

/-- Resting in the middle of the input changes nothing. -/
theorem settles_feed (resumable : Resumable advance feed) {s s' s'' : σ} {i : ι}
    {out later : List ω} (first : Settles advance s out s')
    (second : Settles advance (feed s' i) later s'') :
    Settles advance (feed s i) (out ++ later) s'' := by
  induction first with
  | quiet => exact second
  | step moves _ ih =>
      rw [List.append_assoc]
      exact resumable i moves (ih second)

/-- Pieces fed one by one act like their concatenation. -/
theorem settles_feedAll {α : Type} {feed : σ → List α → σ} (resumable : Resumable advance feed)
    (feed_append : ∀ s i j, feed (feed s i) j = feed s (i ++ j))
    (feed_nil : ∀ s, feed s [] = s) {s s' : σ} {pieces : List (List α)} {out : List ω}
    (silent : advance s = none) (fed : FedAll advance feed s pieces out s') :
    Settles advance (feed s pieces.flatten) out s' := by
  induction fed with
  | nil =>
      rw [List.flatten_nil, feed_nil]
      exact .quiet silent
  | cons first _ ih =>
      rw [List.flatten_cons, ← feed_append]
      exact settles_feed resumable first (ih first.isQuiet)

end feeding

end AIService
