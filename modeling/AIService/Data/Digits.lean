import AIService.Basic

/-!
# Decimal numerals

`std::to_string` of a natural number, and the value a row of digits has.
-/

namespace AIService

/-- `std::to_string(n)`. -/
def digits (n : Nat) : Bytes := bytes (toString n)

def isDigit (b : UInt8) : Bool := 48 ≤ b && b ≤ 57

/-- The value of a row of ASCII digits. -/
def digitsValue (text : Bytes) : Nat := text.foldl (fun n b => n * 10 + (b - 48).toNat) 0

/-- The byte of a digit. -/
theorem digitByte_spec : ∀ d < 10, 48 ≤ d.digitChar.toNat.toUInt8 ∧
    d.digitChar.toNat.toUInt8 ≤ 57 ∧ (d.digitChar.toNat.toUInt8 - 48).toNat = d := by
  decide

theorem digits_eq (n : Nat) :
    digits n = if n < 10 then [n.digitChar.toNat.toUInt8]
      else digits (n / 10) ++ [(n % 10).digitChar.toNat.toUInt8] := by
  have row (m : Nat) : digits m = (Nat.toDigits 10 m).map fun c => c.toNat.toUInt8 :=
    congrArg _ Nat.toList_repr
  rw [row, row, Nat.toDigits_eq_if (by decide : 1 < 10)]
  split <;> simp

/-- `digits n` is a row of digits of value `n`. -/
theorem digits_spec (n : Nat) :
    digits n ≠ [] ∧ (∀ b ∈ digits n, 48 ≤ b ∧ b ≤ 57) ∧ digitsValue (digits n) = n := by
  induction n using Nat.strongRecOn with
  | ind n ih =>
      rw [digits_eq]
      split
      · next small =>
          obtain ⟨low, high, value⟩ := digitByte_spec n small
          exact ⟨by simp, by simpa using ⟨low, high⟩, by simpa [digitsValue] using value⟩
      · next large =>
          obtain ⟨-, rows, value⟩ := ih (n / 10) (by omega)
          obtain ⟨low, high, last⟩ := digitByte_spec (n % 10) (Nat.mod_lt n (by decide))
          refine ⟨by simp, fun b member => ?_, ?_⟩
          · rcases List.mem_append.mp member with early | final
            · exact rows b early
            · rw [List.mem_singleton.mp final]
              exact ⟨low, high⟩
          · rw [digitsValue, List.foldl_append]
            rw [digitsValue] at value
            rw [value, List.foldl_cons, List.foldl_nil, last]
            omega

end AIService
