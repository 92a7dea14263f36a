import Mathlib.Data.List.Infix

/-!
# The first occurrence of one list in another

`std::string::find` and `String.prototype.indexOf`, over any alphabet.
-/

namespace AIService

variable {α : Type} [DecidableEq α]

/-- What stands before and after the first `needle`. -/
def cutAt (needle : List α) : List α → Option (List α × List α)
  | [] => if needle = [] then some ([], []) else none
  | a :: rest =>
      if needle.isPrefixOf (a :: rest) then some ([], (a :: rest).drop needle.length)
      else (cutAt needle rest).map fun (l, r) => (a :: l, r)

/-- `text` has `needle` between `l` and `r`, and not earlier. -/
structure FirstAt (needle text l r : List α) : Prop where
  split : text = l ++ needle ++ r
  least : ∀ l' r', text = l' ++ needle ++ r' → l.length ≤ l'.length

omit [DecidableEq α] in
theorem FirstAt.unique {needle text l r l' r' : List α} (first : FirstAt needle text l r)
    (first' : FirstAt needle text l' r') : l = l' ∧ r = r' := by
  have same : l.length = l'.length :=
    Nat.le_antisymm (first.least l' r' first'.split) (first'.least l r first.split)
  have eq := first.split.symm.trans first'.split
  rw [List.append_assoc, List.append_assoc] at eq
  obtain ⟨rfl, later⟩ := List.append_inj eq same
  exact ⟨rfl, List.append_cancel_left later⟩

theorem firstAt_of_cutAt {needle text l r : List α} (found : cutAt needle text = some (l, r)) :
    FirstAt needle text l r := by
  induction text generalizing l with
  | nil =>
      rw [cutAt] at found
      split at found
      · next empty =>
          cases found
          exact ⟨by simp [empty], fun _ _ _ => Nat.zero_le _⟩
      · cases found
  | cons a rest ih =>
      rw [cutAt] at found
      split at found
      · next here =>
          cases found
          obtain ⟨r, eq⟩ := List.isPrefixOf_iff_prefix.mp here
          rw [← eq, List.drop_left]
          exact ⟨rfl, fun _ _ _ => Nat.zero_le _⟩
      · next other =>
          obtain ⟨⟨l', r'⟩, inner, eq⟩ := Option.map_eq_some_iff.mp found
          cases eq
          have first := ih inner
          refine ⟨by rw [first.split]; rfl, fun l'' r'' at_ => ?_⟩
          cases l'' with
          | nil => exact absurd (List.isPrefixOf_iff_prefix.mpr ⟨r'', at_.symm⟩) other
          | cons b l'' =>
              obtain ⟨-, later⟩ := List.cons.inj at_
              exact Nat.succ_le_succ (first.least l'' r'' later)

theorem cutAt_eq_none_iff {needle text : List α} : cutAt needle text = none ↔ ¬ needle <:+: text := by
  induction text with
  | nil =>
      rw [cutAt, List.infix_nil]
      split
      · next empty => simp [empty]
      · next nonempty => simp [nonempty]
  | cons a rest ih =>
      rw [cutAt, List.infix_cons_iff, ← List.isPrefixOf_iff_prefix]
      split
      · next here => simp [here]
      · next other => simp [other, ih]

theorem cutAt_eq_some_iff {needle text l r : List α} :
    cutAt needle text = some (l, r) ↔ FirstAt needle text l r := by
  constructor
  · exact firstAt_of_cutAt
  · intro first
    cases found : cutAt needle text with
    | none =>
        have occurs : needle <:+: text := ⟨l, r, first.split.symm⟩
        exact absurd occurs (cutAt_eq_none_iff.mp found)
    | some parts =>
        obtain ⟨rfl, rfl⟩ := (firstAt_of_cutAt found).unique first
        rfl

/-- A separator that `needle` does not contain confines the search to the first part. -/
theorem cutAt_append_cons {needle : List α} {sep : α} (foreign : sep ∉ needle)
    (nonempty : needle ≠ []) (l r : List α) :
    cutAt needle (l ++ sep :: r) =
      match cutAt needle l with
      | some (before, after) => some (before, after ++ sep :: r)
      | none => (cutAt needle r).map fun (before, after) => (l ++ sep :: before, after) := by
  induction l with
  | nil =>
      have other : ¬ needle.isPrefixOf (sep :: r) = true := by
        intro here
        obtain ⟨tail, eq⟩ := List.isPrefixOf_iff_prefix.mp here
        cases needle with
        | nil => exact nonempty rfl
        | cons a needle => exact foreign ((List.cons.inj eq).1 ▸ List.mem_cons_self)
      simp [cutAt, nonempty, other]
  | cons a l ih =>
      have same : needle <+: a :: (l ++ sep :: r) ↔ needle <+: a :: l := by
        constructor
        · intro before
          rcases List.prefix_or_prefix_of_prefix before (List.prefix_append (a :: l) (sep :: r)) with
            inside | outside
          · exact inside
          · obtain ⟨mid, rfl⟩ := outside
            cases mid with
            | nil => exact ⟨[], by simp⟩
            | cons b mid =>
                have next := (List.prefix_append_right_inj (a :: l)).mp before
                rw [List.cons_prefix_cons] at next
                exact absurd (by simp [next.1]) foreign
        · exact fun before => before.trans (List.prefix_append _ _)
      by_cases here : needle <+: a :: l
      · have both := same.mpr here
        obtain ⟨tail, eq⟩ := here
        rw [← List.isPrefixOf_iff_prefix] at both
        rw [List.cons_append, cutAt, cutAt, if_pos both,
          if_pos (List.isPrefixOf_iff_prefix.mpr ⟨tail, eq⟩), ← List.cons_append, ← eq]
        simp
      · have other := mt same.mp here
        rw [← List.isPrefixOf_iff_prefix] at here other
        rw [List.cons_append, cutAt, cutAt, if_neg here, if_neg other, ih]
        cases cutAt needle l with
        | some parts => rfl
        | none => cases cutAt needle r <;> rfl

end AIService
