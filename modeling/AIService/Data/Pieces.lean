import AIService.Data.Search

/-!
# The pieces of a stream

`pieces` has what stands before each occurrence of a separator, cut off one after the other,
and what follows the last one.  A stream that arrives in parts has the pieces of its parts,
each part behind what the one before it left (`pieces_append`).
-/

namespace AIService

variable {α : Type} [DecidableEq α]

/-- At most `fuel` pieces, and the rest. -/
def piecesFrom (needle : List α) : Nat → List α → List (List α) × List α
  | 0, text => ([], text)
  | fuel + 1, text =>
      match cutAt needle text with
      | none => ([], text)
      | some (piece, rest) =>
          (piece :: (piecesFrom needle fuel rest).1, (piecesFrom needle fuel rest).2)

def pieces (needle text : List α) : List (List α) × List α := piecesFrom needle text.length text

theorem length_of_cutAt {needle text l r : List α} (nonempty : needle ≠ [])
    (found : cutAt needle text = some (l, r)) : r.length < text.length := by
  have positive := List.length_pos_of_ne_nil nonempty
  rw [(firstAt_of_cutAt found).split, List.length_append, List.length_append]
  omega

/-- Each piece takes a separator off the text. -/
theorem piecesFrom_eq {needle : List α} (nonempty : needle ≠ []) {fuel : Nat} {text : List α}
    (enough : text.length ≤ fuel) : piecesFrom needle fuel text = pieces needle text := by
  induction fuel using Nat.strongRecOn generalizing text with
  | ind fuel ih =>
      unfold pieces
      cases fuel with
      | zero => rw [Nat.le_zero.mp enough]
      | succ fuel =>
          cases size : text.length with
          | zero =>
              rw [List.length_eq_zero_iff.mp size, piecesFrom, piecesFrom, cutAt, if_neg nonempty]
          | succ n =>
              rw [piecesFrom, piecesFrom]
              cases found : cutAt needle text with
              | none => rfl
              | some parts =>
                  obtain ⟨piece, rest⟩ := parts
                  have shorter := length_of_cutAt nonempty found
                  dsimp only
                  rw [ih fuel (Nat.lt_succ_self fuel) (by omega), ih n (by omega) (by omega)]

theorem pieces_eq {needle : List α} (nonempty : needle ≠ []) (text : List α) :
    pieces needle text =
      match cutAt needle text with
      | none => ([], text)
      | some (piece, rest) => (piece :: (pieces needle rest).1, (pieces needle rest).2) := by
  rw [← piecesFrom_eq nonempty (Nat.le_succ text.length), piecesFrom]
  cases found : cutAt needle text with
  | none => rfl
  | some parts =>
      obtain ⟨piece, rest⟩ := parts
      have shorter := length_of_cutAt nonempty found
      dsimp only
      rw [piecesFrom_eq nonempty (Nat.le_of_lt shorter)]

/-- What was found is found in a longer text. -/
theorem cutAt_append {needle text l r : List α} (found : cutAt needle text = some (l, r))
    (more : List α) : cutAt needle (text ++ more) = some (l, r ++ more) := by
  have first := firstAt_of_cutAt found
  apply cutAt_eq_some_iff.mpr
  refine ⟨by rw [first.split, List.append_assoc _ r more], fun l' r' split => ?_⟩
  by_contra early
  have short : (l' ++ needle).length ≤ text.length := by
    have whole := congrArg List.length first.split
    rw [List.length_append, List.length_append] at whole
    rw [List.length_append]
    omega
  obtain ⟨mid, eq⟩ := List.prefix_of_prefix_length_le ⟨r', split.symm⟩ (List.prefix_append text more) short
  exact early (first.least l' mid eq.symm)

theorem pieces_append {needle : List α} (nonempty : needle ≠ []) (text more : List α) :
    pieces needle (text ++ more) =
      ((pieces needle text).1 ++ (pieces needle ((pieces needle text).2 ++ more)).1,
        (pieces needle ((pieces needle text).2 ++ more)).2) := by
  induction size : text.length using Nat.strongRecOn generalizing text with
  | ind n ih =>
      rw [pieces_eq nonempty text]
      cases found : cutAt needle text with
      | none => rfl
      | some parts =>
          obtain ⟨piece, rest⟩ := parts
          have shorter := length_of_cutAt nonempty found
          rw [pieces_eq nonempty (text ++ more), cutAt_append found]
          dsimp only
          rw [ih rest.length (size ▸ shorter) rest rfl]
          rfl

/-! ## Blank lines -/

section

variable {sep : α} {line : List α}

/-- A line ends at the first doubled separator. -/
theorem cutAt_line (unbroken : sep ∉ line) (rest : List α) :
    cutAt [sep, sep] (line ++ [sep, sep] ++ rest) = some (line, rest) := by
  apply cutAt_eq_some_iff.mpr
  refine ⟨rfl, fun l' r' split => ?_⟩
  by_contra early
  have inside : (line ++ [sep, sep] ++ rest)[l'.length]? = some sep := by
    rw [split, List.append_assoc, List.getElem?_append_right (Nat.le_refl _), Nat.sub_self]
    rfl
  rw [List.append_assoc, List.getElem?_append_left (Nat.not_le.mp early)] at inside
  exact unbroken (List.mem_of_getElem? inside)

/-- Less than a line with its doubled separator has no doubled separator. -/
theorem cutAt_part {part : List α} (unbroken : sep ∉ line) (before : part <+: line ++ [sep, sep])
    (proper : part ≠ line ++ [sep, sep]) : cutAt [sep, sep] part = none := by
  apply cutAt_eq_none_iff.mpr
  intro inside
  have once : part <+: line ++ [sep] := by
    have whole : line ++ [sep, sep] = (line ++ [sep]) ++ [sep] := by simp
    rw [whole] at before proper
    exact (List.prefix_concat_iff.mp before).resolve_left proper
  have few := once.sublist.count_le sep
  have many := inside.sublist.count_le sep
  rw [List.count_append, List.count_eq_zero.mpr unbroken, List.count_singleton_self] at few
  rw [List.count_cons_self, List.count_singleton_self] at many
  omega

end

end AIService
