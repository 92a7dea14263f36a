import Mathlib.Data.Int.Log
import Mathlib.Data.Rat.Floor
import Mathlib.Tactic.FieldSimp
import Mathlib.Tactic.Linarith
import Mathlib.Tactic.Positivity

/-!
# Doubles

The values of `double` are rational numbers, and an operation rounds its exact result to 53 bits,
ties to even.  The exponent has no bounds here: nothing in the sources comes near them.
-/

namespace AIService.Binary64

/-- The nearest integer, the even one of two. -/
def roundEven (q : ℚ) : ℤ :=
  if q - ⌊q⌋ < 1 / 2 then ⌊q⌋
  else if 1 / 2 < q - ⌊q⌋ then ⌊q⌋ + 1
  else if ⌊q⌋ % 2 = 0 then ⌊q⌋ else ⌊q⌋ + 1

/-- The distance of neighbouring doubles around `x`. -/
def ulp (x : ℚ) : ℚ := 2 ^ (Int.log 2 |x| - 52)

/-- The double nearest to `x`. -/
def nearest (x : ℚ) : ℚ := roundEven (x / ulp x) * ulp x

/-- `std::round`: halves go away from zero. -/
def roundAway (x : ℚ) : ℤ := if 0 ≤ x then ⌊x + 1 / 2⌋ else ⌈x - 1 / 2⌉

theorem abs_roundEven_sub (q : ℚ) : |(roundEven q : ℚ) - q| ≤ 1 / 2 := by
  have low : (⌊q⌋ : ℚ) ≤ q := Int.floor_le q
  have high : q < ⌊q⌋ + 1 := Int.lt_floor_add_one q
  rw [abs_le]
  unfold roundEven
  split
  · constructor <;> linarith
  · split
    · push_cast
      constructor <;> linarith
    · split
      · constructor <;> linarith
      · push_cast
        constructor <;> linarith

theorem roundEven_intCast (n : ℤ) : roundEven n = n := by
  rw [roundEven, Int.floor_intCast, sub_self, if_pos (by norm_num)]

theorem abs_roundAway_sub (x : ℚ) : |(roundAway x : ℚ) - x| ≤ 1 / 2 := by
  rw [abs_le]
  unfold roundAway
  split
  · have low : (⌊x + 1 / 2⌋ : ℚ) ≤ x + 1 / 2 := Int.floor_le _
    have high : x + 1 / 2 < ⌊x + 1 / 2⌋ + 1 := Int.lt_floor_add_one _
    constructor <;> linarith
  · have low : x - 1 / 2 ≤ ⌈x - 1 / 2⌉ := Int.le_ceil _
    have high : (⌈x - 1 / 2⌉ : ℚ) < x - 1 / 2 + 1 := Int.ceil_lt_add_one _
    constructor <;> linarith

theorem ulp_pos (x : ℚ) : 0 < ulp x := zpow_pos two_pos _

/-- Half a unit is at most `2 ^ (-53)` of the value. -/
theorem ulp_le {x : ℚ} (nonzero : x ≠ 0) : ulp x / 2 ≤ |x| / 2 ^ 53 := by
  have log_le : (2 : ℚ) ^ Int.log 2 |x| ≤ |x| :=
    Int.zpow_log_le_self one_lt_two (abs_pos.mpr nonzero)
  have split : ulp x = 2 ^ Int.log 2 |x| / 2 ^ 52 := by
    rw [ulp, zpow_sub₀ two_ne_zero]
    norm_num
  rw [split, div_div, ← pow_succ]
  exact div_le_div_of_nonneg_right log_le (by positivity)

/-- The relative error of one operation. -/
theorem abs_nearest_sub (x : ℚ) : |nearest x - x| ≤ |x| / 2 ^ 53 := by
  rcases eq_or_ne x 0 with rfl | nonzero
  · rw [nearest, zero_div, ← Int.cast_zero, roundEven_intCast]
    norm_num
  · have unit := ulp_pos x
    have scaled : nearest x - x = (roundEven (x / ulp x) - x / ulp x) * ulp x := by
      rw [sub_mul, div_mul_cancel₀ x unit.ne', nearest]
    calc |nearest x - x| = |(roundEven (x / ulp x) : ℚ) - x / ulp x| * ulp x := by
          rw [scaled, abs_mul, abs_of_pos unit]
      _ ≤ 1 / 2 * ulp x := mul_le_mul_of_nonneg_right (abs_roundEven_sub _) unit.le
      _ = ulp x / 2 := by ring
      _ ≤ |x| / 2 ^ 53 := ulp_le nonzero

/-- A power of two is a double. -/
theorem nearest_two_pow (k : ℕ) : nearest (2 ^ k) = 2 ^ k := by
  have size : |(2 : ℚ) ^ k| = 2 ^ (k : ℤ) := by
    rw [abs_of_pos (by positivity), zpow_natCast]
  have exponent : Int.log 2 ((2 : ℚ) ^ (k : ℤ)) = k := by
    exact_mod_cast Int.log_zpow (R := ℚ) one_lt_two (k : ℤ)
  have unit : ulp (2 ^ k) = 2 ^ ((k : ℤ) - 52) := by
    rw [ulp, size, exponent]
  have whole : (2 : ℚ) ^ k / ulp (2 ^ k) = ((2 ^ 52 : ℤ) : ℚ) := by
    rw [unit, ← zpow_natCast, ← zpow_sub₀ two_ne_zero]
    norm_num
  rw [nearest, whole, roundEven_intCast, ← whole, div_mul_cancel₀ _ (ulp_pos _).ne']

end AIService.Binary64
