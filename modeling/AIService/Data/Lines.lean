import AIService.Data.Text

/-!
# Lines of a byte stream

`lines` has the newline-terminated lines of a stream and what follows the last newline.  A
stream that arrives in pieces has the lines of the pieces, each piece behind what the one
before it left (`lines_append`).
-/

namespace AIService

/-- The lines, without their newlines, and the unfinished one. -/
def lines : Bytes → List Bytes × Bytes
  | [] => ([], [])
  | b :: rest =>
      if b = 10 then ([] :: (lines rest).1, (lines rest).2)
      else match lines rest with
        | ([], tail) => ([], b :: tail)
        | (line :: later, tail) => ((b :: line) :: later, tail)

theorem lines_of_not_mem {text : Bytes} (unbroken : 10 ∉ text) : lines text = ([], text) := by
  induction text with
  | nil => rfl
  | cons b rest ih =>
      have other : b ≠ 10 := fun same => unbroken (same ▸ List.mem_cons_self)
      have later : 10 ∉ rest := fun member => unbroken (List.mem_cons_of_mem b member)
      rw [lines, if_neg other, ih later]

theorem lines_line {line : Bytes} (unbroken : 10 ∉ line) (rest : Bytes) :
    lines (line ++ 10 :: rest) = (line :: (lines rest).1, (lines rest).2) := by
  induction line with
  | nil => rw [List.nil_append, lines, if_pos rfl]
  | cons b line ih =>
      have other : b ≠ 10 := fun same => unbroken (same ▸ List.mem_cons_self)
      have later : 10 ∉ line := fun member => unbroken (List.mem_cons_of_mem b member)
      rw [List.cons_append, lines, if_neg other, ih later]

theorem lines_of_cut {text line rest : Bytes} (found : cut 10 text = some (line, rest)) :
    lines text = (line :: (lines rest).1, (lines rest).2) := by
  obtain ⟨rfl, unbroken⟩ := eq_of_cut found
  exact lines_line unbroken rest

/-- A stream is its lines and the unfinished one. -/
theorem lines_spec (text : Bytes) :
    text = (lines text).1.flatMap (· ++ [10]) ++ (lines text).2 ∧
      (∀ line ∈ (lines text).1, 10 ∉ line) ∧ 10 ∉ (lines text).2 := by
  induction text with
  | nil => simp [lines]
  | cons b rest ih =>
      rw [lines]
      split
      · next same =>
          obtain ⟨whole, unbroken, tail⟩ := ih
          refine ⟨?_, ?_, tail⟩
          · rw [List.flatMap_cons, List.nil_append, List.append_assoc, ← whole, same]
            rfl
          · intro line member
            rcases List.mem_cons.mp member with rfl | later
            · exact List.not_mem_nil
            · exact unbroken line later
      · next other =>
          have away : (10 : UInt8) ≠ b := Ne.symm other
          split
          · next tail split =>
              rw [split] at ih
              obtain ⟨whole, -, unbroken⟩ := ih
              refine ⟨?_, nofun, ?_⟩
              · rw [whole]
                rfl
              · simp [away, unbroken]
          · next line later tail split =>
              rw [split] at ih
              obtain ⟨whole, unbroken, tail'⟩ := ih
              refine ⟨?_, ?_, tail'⟩
              · rw [whole]
                simp
              · intro line' member
                rcases List.mem_cons.mp member with rfl | member
                · simp [away, unbroken line List.mem_cons_self]
                · exact unbroken line' (List.mem_cons_of_mem _ member)

theorem lines_flatMap {ls : List Bytes} (unbroken : ∀ line ∈ ls, 10 ∉ line) (rest : Bytes) :
    lines (ls.flatMap (· ++ [10]) ++ rest) = (ls ++ (lines rest).1, (lines rest).2) := by
  induction ls with
  | nil => rfl
  | cons line ls ih =>
      have later := ih fun line' member => unbroken line' (List.mem_cons_of_mem _ member)
      have whole : (line :: ls).flatMap (· ++ [10]) ++ rest =
          line ++ 10 :: (ls.flatMap (· ++ [10]) ++ rest) := by
        simp
      rw [whole, lines_line (unbroken line List.mem_cons_self), later]
      rfl

/-- What arrives later continues the unfinished line. -/
theorem lines_append (text more : Bytes) :
    lines (text ++ more) =
      ((lines text).1 ++ (lines ((lines text).2 ++ more)).1, (lines ((lines text).2 ++ more)).2) := by
  obtain ⟨whole, unbroken, -⟩ := lines_spec text
  conv_lhs => rw [whole, List.append_assoc]
  exact lines_flatMap unbroken _

end AIService
