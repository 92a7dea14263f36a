import Mathlib.Algebra.Field.ZMod
import Mathlib.Algebra.Polynomial.Div
import Mathlib.Algebra.CharP.Two
import Mathlib.Data.ZMod.Basic
import Mathlib.Tactic.Ring
import Mathlib.Tactic.ComputeDegree

/-!
# Cyclic redundancy checks

A register of `n` bits stands for a polynomial over the field of two elements, with its
lowest bit as the highest coefficient.  A shift of the register is then a multiplication by
`X` modulo the generator, and the register that a message leaves behind is a remainder.
-/

namespace AIService

open Polynomial Finset

/-- The polynomial of a register. -/
noncomputable def registerPolynomial {n : Nat} (w : BitVec n) : (ZMod 2)[X] :=
  ∑ i ∈ range n, if w.getLsbD i then X ^ (n - 1 - i) else 0

theorem registerPolynomial_xor {n : Nat} (v w : BitVec n) :
    registerPolynomial (v ^^^ w) = registerPolynomial v + registerPolynomial w := by
  unfold registerPolynomial
  rw [← sum_add_distrib]
  apply sum_congr rfl
  intro i _
  rw [BitVec.getLsbD_xor]
  cases v.getLsbD i <;> cases w.getLsbD i <;> simp [CharTwo.add_self_eq_zero]

theorem registerPolynomial_degree {n : Nat} (w : BitVec n) :
    (registerPolynomial w).degree < n := by
  unfold registerPolynomial
  apply (degree_sum_le _ _).trans_lt
  apply (Finset.sup_lt_iff (a := (n : WithBot Nat)) (WithBot.bot_lt_coe n)).mpr
  intro i inside
  have low : i < n := mem_range.mp inside
  split
  · rw [degree_X_pow]
    exact Nat.cast_lt.mpr (by omega)
  · rw [degree_zero]
    exact WithBot.bot_lt_coe n

theorem registerPolynomial_coeff {n : Nat} (w : BitVec n) {i : Nat} (inside : i < n) :
    (registerPolynomial w).coeff (n - 1 - i) = if w.getLsbD i then 1 else 0 := by
  unfold registerPolynomial
  rw [finsetSum_coeff, Finset.sum_eq_single i]
  · split <;> simp
  · intro j member other
    have low : j < n := mem_range.mp member
    split
    · rw [coeff_X_pow, if_neg (by omega)]
    · rw [coeff_zero]
  · intro outside
    exact absurd (mem_range.mpr inside) outside

theorem registerPolynomial_injective {n : Nat} :
    Function.Injective (registerPolynomial (n := n)) := by
  intro v w same
  apply BitVec.eq_of_getLsbD_eq
  intro i inside
  have coefficient := congrArg (fun p => p.coeff (n - 1 - i)) same
  simp only [registerPolynomial_coeff _ inside] at coefficient
  cases bit : v.getLsbD i <;> cases bit' : w.getLsbD i <;> simp_all

/-- A wider register holds the bits at its low end. -/
theorem registerPolynomial_setWidth {n : Nat} (m : Nat) (w : BitVec n) :
    registerPolynomial (w.setWidth (n + m)) = X ^ m * registerPolynomial w := by
  unfold registerPolynomial
  rw [sum_range_add, mul_sum]
  have above : ∑ i ∈ range m,
      (if (w.setWidth (n + m)).getLsbD (n + i) then (X : (ZMod 2)[X]) ^ (n + m - 1 - (n + i))
        else 0) = 0 := by
    apply sum_eq_zero
    intro i _
    rw [BitVec.getLsbD_setWidth, BitVec.getLsbD_of_ge w (n + i) (by omega)]
    simp
  rw [above, add_zero]
  apply sum_congr rfl
  intro i inside
  have low : i < n := mem_range.mp inside
  rw [BitVec.getLsbD_setWidth]
  have wide : i < n + m := by omega
  simp only [wide, decide_true, Bool.true_and]
  split
  · rw [← pow_add]
    congr 1
    omega
  · rw [mul_zero]

/-- What a shift of the register drops, and what it keeps. -/
theorem registerPolynomial_shift {n : Nat} (w : BitVec n) :
    X * registerPolynomial w =
      (if w.getLsbD 0 then X ^ n else 0) + registerPolynomial (w >>> 1) := by
  cases n with
  | zero => simp [registerPolynomial]
  | succ n =>
      unfold registerPolynomial
      rw [sum_range_succ', mul_add, mul_sum, add_comm]
      congr 1
      · split
        · rw [← pow_succ']
          congr 1
        · rw [mul_zero]
      · rw [sum_range_succ]
        have top : (w >>> 1).getLsbD n = false := by
          rw [BitVec.getLsbD_ushiftRight, BitVec.getLsbD_of_ge w (1 + n) (by omega)]
        rw [top]
        simp only [Bool.false_eq_true, if_false, add_zero]
        apply sum_congr rfl
        intro i inside
        have low : i < n := mem_range.mp inside
        rw [BitVec.getLsbD_ushiftRight, add_comm 1 i]
        split
        · rw [← pow_succ']
          congr 1
          omega
        · rw [mul_zero]

/-- One step of the division: shift, and subtract the generator for the bit that fell out. -/
def crcStep {n : Nat} (taps w : BitVec n) : BitVec n :=
  (w >>> 1) ^^^ (if w.getLsbD 0 then taps else 0)

section division

variable {n : Nat} {generator : (ZMod 2)[X]} {taps : BitVec n}

/-- A step multiplies by `X`, up to a multiple of the generator. -/
theorem crcStep_dvd (lead : generator = X ^ n + registerPolynomial taps)
    (w : BitVec n) :
    generator ∣ registerPolynomial (crcStep taps w) + X * registerPolynomial w := by
  rw [crcStep, registerPolynomial_xor, registerPolynomial_shift]
  split
  · refine ⟨1, ?_⟩
    rw [lead, mul_one]
    have twice := CharTwo.add_self_eq_zero (registerPolynomial (w >>> 1))
    calc registerPolynomial (w >>> 1) + registerPolynomial taps
          + (X ^ n + registerPolynomial (w >>> 1))
        = X ^ n + registerPolynomial taps
          + (registerPolynomial (w >>> 1) + registerPolynomial (w >>> 1)) := by ring
      _ = X ^ n + registerPolynomial taps := by rw [twice, add_zero]
  · have zero : registerPolynomial (0 : BitVec n) = 0 := by simp [registerPolynomial]
    rw [zero, add_zero, zero_add, CharTwo.add_self_eq_zero]
    exact dvd_zero _

theorem crcSteps_dvd (lead : generator = X ^ n + registerPolynomial taps) (k : Nat)
    (w : BitVec n) :
    generator ∣ registerPolynomial ((crcStep taps)^[k] w) + X ^ k * registerPolynomial w := by
  induction k generalizing w with
  | zero => simp [CharTwo.add_self_eq_zero]
  | succ k ih =>
      rw [Function.iterate_succ_apply]
      have first := (crcStep_dvd lead w).mul_left (X ^ k)
      have sum := dvd_add (ih (crcStep taps w)) first
      have twice := CharTwo.add_self_eq_zero (X ^ k * registerPolynomial (crcStep taps w))
      have collected : registerPolynomial ((crcStep taps)^[k] (crcStep taps w))
            + X ^ k * registerPolynomial (crcStep taps w)
            + X ^ k * (registerPolynomial (crcStep taps w) + X * registerPolynomial w)
          = registerPolynomial ((crcStep taps)^[k] (crcStep taps w))
            + X ^ (k + 1) * registerPolynomial w
            + (X ^ k * registerPolynomial (crcStep taps w)
              + X ^ k * registerPolynomial (crcStep taps w)) := by ring
      rw [collected, twice, add_zero] at sum
      exact sum

/-- A register below the generator in degree is the remainder of what it is congruent to. -/
theorem registerPolynomial_mod (lead : generator = X ^ n + registerPolynomial taps)
    {w : BitVec n} {p : (ZMod 2)[X]} (same : generator ∣ registerPolynomial w + p) :
    registerPolynomial w = p %ₘ generator := by
  have below : (registerPolynomial w).degree < (n : WithBot Nat) :=
    registerPolynomial_degree w
  have monic : generator.Monic := lead ▸ monic_X_pow_add (registerPolynomial_degree taps)
  have degree : generator.degree = (n : WithBot Nat) := by
    rw [lead, degree_add_eq_left_of_degree_lt]
    · exact degree_X_pow _
    · rw [degree_X_pow]
      exact registerPolynomial_degree taps
  obtain ⟨q, whole⟩ := same
  have divided : registerPolynomial w + generator * q = p := by
    rw [← whole, ← add_assoc, CharTwo.add_self_eq_zero, zero_add]
  exact (div_modByMonic_unique q _ monic ⟨divided, degree ▸ below⟩).2.symm

end division

/-! ## Messages -/

/-- The polynomial of a message: the bits of its bytes, the lowest bit of each first. -/
noncomputable def messagePolynomial : List UInt8 → (ZMod 2)[X]
  | [] => 0
  | b :: rest => X ^ (8 * rest.length) * registerPolynomial b.toBitVec + messagePolynomial rest

/-- The register after a byte was added at its low end and shifted out. -/
def crcByte {m : Nat} (taps : BitVec (8 + m)) (w : BitVec (8 + m)) (b : UInt8) : BitVec (8 + m) :=
  (crcStep taps)^[8] (w ^^^ b.toBitVec.setWidth (8 + m))

/-- What a message leaves in a register that started as `w`. -/
theorem crcBytes_dvd {m : Nat} {generator : (ZMod 2)[X]} {taps : BitVec (8 + m)}
    (lead : generator = X ^ (8 + m) + registerPolynomial taps) (message : List UInt8)
    (w : BitVec (8 + m)) :
    generator ∣ registerPolynomial (message.foldl (crcByte taps) w) +
      (X ^ (8 * message.length) * registerPolynomial w
        + X ^ (8 + m) * messagePolynomial message) := by
  induction message generalizing w with
  | nil => simp [messagePolynomial, CharTwo.add_self_eq_zero]
  | cons b rest ih =>
      have steps : generator ∣ registerPolynomial (crcByte taps w b)
          + X ^ 8 * registerPolynomial (w ^^^ b.toBitVec.setWidth (8 + m)) :=
        crcSteps_dvd lead 8 _
      rw [registerPolynomial_xor, registerPolynomial_setWidth] at steps
      have sum := dvd_add (ih (crcByte taps w b)) (steps.mul_left (X ^ (8 * rest.length)))
      rw [List.foldl_cons, messagePolynomial, List.length_cons]
      have twice := CharTwo.add_self_eq_zero
        (X ^ (8 * rest.length) * registerPolynomial (crcByte taps w b))
      refine sum.trans (dvd_of_eq ?_)
      calc registerPolynomial (rest.foldl (crcByte taps) (crcByte taps w b))
            + (X ^ (8 * rest.length) * registerPolynomial (crcByte taps w b)
              + X ^ (8 + m) * messagePolynomial rest)
            + X ^ (8 * rest.length) * (registerPolynomial (crcByte taps w b)
              + X ^ 8 * (registerPolynomial w + X ^ m * registerPolynomial b.toBitVec))
          = registerPolynomial (rest.foldl (crcByte taps) (crcByte taps w b))
            + (X ^ (8 * (rest.length + 1)) * registerPolynomial w
              + X ^ (8 + m) * (X ^ (8 * rest.length) * registerPolynomial b.toBitVec
                + messagePolynomial rest))
            + (X ^ (8 * rest.length) * registerPolynomial (crcByte taps w b)
              + X ^ (8 * rest.length) * registerPolynomial (crcByte taps w b)) := by ring
        _ = _ := by rw [twice, add_zero]

end AIService
