import AIService.Basic
import Mathlib.Data.List.DropRight

/-!
# Cutting byte strings

`std::find` of one byte, splitting at a byte, and trimming, as the parsers use them.
-/

namespace AIService

/-- What stands before and after the first `ch`. -/
def cut (ch : UInt8) : Bytes → Option (Bytes × Bytes)
  | [] => none
  | b :: rest => if b = ch then some ([], rest) else (cut ch rest).map fun (l, r) => (b :: l, r)

theorem cut_append {ch : UInt8} {l : Bytes} (absent : ch ∉ l) (r : Bytes) :
    cut ch (l ++ ch :: r) = some (l, r) := by
  induction l with
  | nil => simp [cut]
  | cons b l ih =>
      have other : b ≠ ch := fun same => absent (same ▸ List.mem_cons_self)
      have later : ch ∉ l := fun member => absent (List.mem_cons_of_mem b member)
      simp [cut, other, ih later]

theorem eq_of_cut {ch : UInt8} {text l r : Bytes} (found : cut ch text = some (l, r)) :
    text = l ++ ch :: r ∧ ch ∉ l := by
  induction text generalizing l with
  | nil => cases found
  | cons b rest ih =>
      rw [cut] at found
      split at found
      · next same =>
          cases found
          exact ⟨same ▸ rfl, List.not_mem_nil⟩
      · next other =>
          obtain ⟨⟨l', r'⟩, inner, eq⟩ := Option.map_eq_some_iff.mp found
          cases eq
          obtain ⟨rfl, absent⟩ := ih inner
          refine ⟨rfl, fun member => ?_⟩
          rcases List.mem_cons.mp member with same | deeper
          · exact other same.symm
          · exact absent deeper

theorem cut_eq_none {ch : UInt8} {text : Bytes} (absent : ch ∉ text) : cut ch text = none := by
  cases found : cut ch text with
  | none => rfl
  | some parts =>
      rw [(eq_of_cut found).1] at absent
      simp at absent

theorem not_mem_of_cut {ch : UInt8} {text : Bytes} (none_found : cut ch text = none) :
    ch ∉ text := by
  intro member
  obtain ⟨l, r, rfl, absent⟩ := List.eq_append_cons_of_mem member
  rw [cut_append absent] at none_found
  cases none_found

/-- Space and horizontal tab. -/
def isBlank (ch : UInt8) : Bool := ch == 32 || ch == 9

/-- `text` without blanks at its ends. -/
def trim (text : Bytes) : Bytes := (text.dropWhile isBlank).rdropWhile isBlank

/-- Trimming takes blanks off both ends, and nothing else. -/
theorem trim_spec (text : Bytes) : ∃ l r, text = l ++ trim text ++ r ∧
    (∀ b ∈ l, isBlank b) ∧ ∀ b ∈ r, isBlank b := by
  refine ⟨text.takeWhile isBlank, (text.dropWhile isBlank).rtakeWhile isBlank, ?_, ?_, ?_⟩
  · rw [trim, List.append_assoc, List.rdropWhile_append_rtakeWhile, List.takeWhile_append_dropWhile]
  · exact fun b member => List.mem_takeWhile_imp member
  · exact fun b member => List.mem_rtakeWhile_imp member

end AIService
