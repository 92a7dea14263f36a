import AIService.Data.FlatJson
import Mathlib.Data.List.TakeWhile

/-!
# Signed numbers as text

`std::to_string` and `std::stoi` of an `int`; what the first writes the second reads back.
-/

namespace AIService

/-- `std::to_string(n)`, signed. -/
def decimal (n : Int) : Bytes := if n < 0 then 45 :: digits n.natAbs else digits n.natAbs

def isSpace (b : UInt8) : Bool := b == 32 || (9 ≤ b && b ≤ 13)

/-- The sign and the rest of a number. -/
def sign : Bytes → Bool × Bytes
  | 45 :: rest => (true, rest)
  | 43 :: rest => (false, rest)
  | text => (false, text)

/-- `std::stoi(text)`; `none` is its exception.  Text after the number is ignored. -/
def stoi (text : Bytes) : Option Int32 :=
  let (negative, text) := sign (text.dropWhile isSpace)
  let row := text.takeWhile isDigit
  let value : Int := if negative then -digitsValue row else digitsValue row
  if row = [] ∨ value < -2147483648 ∨ 2147483647 < value then none else some (.ofInt value)

theorem takeWhile_of_digits {row : Bytes} (rows : ∀ b ∈ row, 48 ≤ b ∧ b ≤ 57) :
    row.takeWhile isDigit = row :=
  List.takeWhile_eq_self_iff.mpr fun b member => by simpa [isDigit] using rows b member

theorem sign_decimal (n : Int) :
    sign ((decimal n).dropWhile isSpace) = (decide (n < 0), digits n.natAbs) := by
  obtain ⟨nonempty, rows, -⟩ := digits_spec n.natAbs
  by_cases negative : n < 0
  · simp [decimal, negative, isSpace, sign]
  · obtain ⟨d, rest, eq⟩ := List.exists_cons_of_ne_nil nonempty
    obtain ⟨low, high⟩ := rows d (eq ▸ List.mem_cons_self)
    have solid : isSpace d = false := by
      unfold isSpace
      simp only [Bool.or_eq_false_iff, beq_eq_false_iff_ne, Bool.and_eq_false_iff, decide_eq_false_iff_not]
      constructor
      · rintro rfl
        exact absurd low (by decide)
      · right
        intro small
        exact absurd (UInt8.le_trans low small) (by decide)
    rw [decimal, if_neg negative, eq, List.dropWhile_cons_of_neg (by simp [solid])]
    unfold sign
    split
    · next starts =>
        cases starts
        exact absurd low (by decide)
    · next starts =>
        cases starts
        exact absurd low (by decide)
    · simp [negative]

/-- A number that was written is read back. -/
theorem stoi_decimal (n : Int32) : stoi (decimal n.toInt) = some n := by
  obtain ⟨nonempty, rows, value⟩ := digits_spec n.toInt.natAbs
  have low := n.le_toInt
  have high := n.toInt_lt
  have signed : (if decide (n.toInt < 0) = true then -(n.toInt.natAbs : Int) else n.toInt.natAbs) =
      n.toInt := by
    split
    · next negative =>
        have negative := of_decide_eq_true negative
        omega
    · next positive =>
        have positive := mt decide_eq_true positive
        omega
  have fits : ¬ (digits n.toInt.natAbs = [] ∨ n.toInt < -2147483648 ∨ 2147483647 < n.toInt) := by
    rw [not_or]
    exact ⟨nonempty, by omega⟩
  rw [stoi, sign_decimal]
  dsimp only
  rw [takeWhile_of_digits rows, value, signed, if_neg fits, Int32.ofInt_toInt]

end AIService
