import Mathlib.Data.List.DropRight

/-!
# Trimming with `find_first_not_of` and `find_last_not_of`

`trimOf p text` is what the common C++ idiom makes of `text`: the part from the first to the last
element that `p` does not hold of, or all of `text` where there is none.
-/

namespace AIService

variable {α : Type} (p : α → Bool)

/-- `text.find_first_not_of`. -/
def firstNotOf (text : List α) : Option Nat := text.findIdx? fun b => !p b

/-- `text.find_last_not_of`. -/
def lastNotOf (text : List α) : Option Nat :=
  (text.reverse.findIdx? fun b => !p b).map fun back => text.length - 1 - back

def trimOf (text : List α) : List α :=
  match firstNotOf p text, lastNotOf p text with
  | some first, some last => (text.drop first).take (last - first + 1)
  | _, _ => text

variable {p}

/-- Elements that `p` holds of are passed over. -/
theorem findIdx?_skip {front rest : List α} {b : α} (skipped : ∀ b ∈ front, p b = true) (stop : p b = false) :
    (front ++ b :: rest).findIdx? (fun b => !p b) = some front.length := by
  have none : front.findIdx? (fun b => !p b) = none :=
    List.findIdx?_eq_none_iff.mpr fun b member => by rw [skipped b member]; rfl
  rw [List.findIdx?_append, none, List.findIdx?_cons, stop]
  simp

theorem trimOf_of_forall {text : List α} (all : ∀ b ∈ text, p b = true) : trimOf p text = text := by
  have none : firstNotOf p text = none :=
    List.findIdx?_eq_none_iff.mpr fun b member => by rw [all b member]; rfl
  rw [trimOf, none]

/-- The text begins and ends with elements that `p` does not hold of. -/
def Solid (p : α → Bool) (text : List α) : Prop :=
  (∃ b rest, text = b :: rest ∧ p b = false) ∧ ∃ front b, text = front ++ [b] ∧ p b = false

theorem trimOf_surround {left text right : List α} (solid : Solid p text) (before : ∀ b ∈ left, p b = true)
    (after : ∀ b ∈ right, p b = true) : trimOf p (left ++ (text ++ right)) = text := by
  obtain ⟨⟨b, rest, begins, first⟩, front, c, ends, last⟩ := solid
  have start : firstNotOf p (left ++ (text ++ right)) = some left.length := by
    rw [firstNotOf, begins]
    exact findIdx?_skip before first
  have back : (left ++ (text ++ right)).reverse.findIdx? (fun b => !p b) = some right.reverse.length := by
    have turned : (left ++ (text ++ right)).reverse = right.reverse ++ c :: (front.reverse ++ left.reverse) := by
      rw [ends]
      simp
    rw [turned]
    exact findIdx?_skip (fun b member => after b (List.mem_reverse.mp member)) last
  have positive : 0 < text.length := by
    rw [begins]
    exact Nat.succ_pos _
  rw [trimOf, start, lastNotOf, back]
  change ((left ++ (text ++ right)).drop left.length).take _ = text
  rw [List.drop_left]
  have size : (left ++ (text ++ right)).length - 1 - right.reverse.length - left.length + 1 = text.length := by
    simp only [List.length_append, List.length_reverse]
    omega
  rw [size, List.take_left]

theorem trimOf_solid {text : List α} (solid : Solid p text) : trimOf p text = text := by
  have whole : trimOf p ([] ++ (text ++ [])) = text := trimOf_surround solid nofun nofun
  rwa [List.append_nil] at whole

/-- A text is of such elements alone, or has a solid part that they surround. -/
theorem solid_cases (p : α → Bool) (text : List α) : (∀ b ∈ text, p b = true) ∨
    ∃ left core right, text = left ++ (core ++ right) ∧ Solid p core ∧ (∀ b ∈ left, p b = true) ∧
      ∀ b ∈ right, p b = true := by
  cases later : text.dropWhile p with
  | nil => exact .inl (List.dropWhile_eq_nil_iff.mp later)
  | cons b rest =>
      have first : p b = false := by
        have head := List.head?_dropWhile_not p text
        rw [later] at head
        exact head
      have nonempty : (b :: rest).rdropWhile p ≠ [] := by
        rw [Ne, List.rdropWhile_eq_nil_iff]
        intro all
        rw [all b List.mem_cons_self] at first
        cases first
      have last := List.rdropWhile_last_not _ _ nonempty
      have split : (b :: rest).rdropWhile p ++ (b :: rest).rtakeWhile p = b :: rest :=
        List.rdropWhile_append_rtakeWhile
      refine .inr ⟨text.takeWhile p, (b :: rest).rdropWhile p, (b :: rest).rtakeWhile p, ?_, ⟨?_, ?_⟩,
        fun b member => List.mem_takeWhile_imp member, fun b member => List.mem_rtakeWhile_imp member⟩
      · rw [split, ← later, List.takeWhile_append_dropWhile]
      · obtain ⟨c, core, eq⟩ := List.exists_cons_of_ne_nil nonempty
        rw [eq] at split
        obtain ⟨rfl, -⟩ := List.cons.inj split
        exact ⟨c, core, eq, first⟩
      · exact ⟨_, _, (List.dropLast_append_getLast nonempty).symm, Bool.eq_false_iff.mpr last⟩

/-- What trimming leaves is solid, if the text is not of such elements alone. -/
theorem trimOf_cases (p : α → Bool) (text : List α) : (∀ b ∈ text, p b = true) ∨ Solid p (trimOf p text) := by
  rcases solid_cases p text with all | ⟨left, core, right, rfl, solid, before, after⟩
  · exact .inl all
  · rw [trimOf_surround solid before after]
    exact .inr solid

theorem trimOf_trimOf (text : List α) : trimOf p (trimOf p text) = trimOf p text := by
  rcases trimOf_cases p text with all | solid
  · rw [trimOf_of_forall all, trimOf_of_forall all]
  · exact trimOf_solid solid

end AIService
