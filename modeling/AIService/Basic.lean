import Mathlib.Algebra.Group.Nat.Defs
import Mathlib.Data.List.Basic

/-!
# Machine-level vocabulary

Byte strings, as `std::string` holds them, and the two `size_t` operations the
sources use on counters.  The counters are natural numbers here; an operation
that would leave the range of `size_t` wraps, so a lost decrement is visible as
a huge value and not as a silent zero.
-/

namespace AIService

/-- The contents of a `std::string`. -/
abbrev Bytes := List UInt8

/-- The bytes of an ASCII literal of the sources. -/
def bytes (text : String) : Bytes := text.toList.map fun c => c.toNat.toUInt8

/-- What holds of the numbers below 256 holds of every byte. -/
theorem forall_byte {P : UInt8 → Prop} (each : ∀ n : Nat, n < 256 → P n.toUInt8) (b : UInt8) : P b := by
  have here := each b.toNat b.toNat_lt
  rwa [show b.toNat.toUInt8 = b from UInt8.ofNat_toNat] at here

/-- One more than the largest `size_t`. -/
@[irreducible] def sizeLimit : Nat := 2 ^ 64

/-- `a + b` on `size_t`. -/
def sizeAdd (a b : Nat) : Nat := if a + b < sizeLimit then a + b else a + b - sizeLimit

/-- `a - b` on `size_t`. -/
def sizeSub (a b : Nat) : Nat := if b ≤ a then a - b else a + sizeLimit - b

theorem toNat_lt_sizeLimit (n : UInt64) : n.toNat < sizeLimit := by
  unfold sizeLimit
  exact n.toNat_lt

theorem sizeLimit_pos : 0 < sizeLimit := toNat_lt_sizeLimit 0

theorem sizeAdd_eq {a b : Nat} (room : a + b < sizeLimit) : sizeAdd a b = a + b := if_pos room

theorem sizeSub_eq {a b : Nat} (covered : b ≤ a) : sizeSub a b = a - b := if_pos covered

end AIService
