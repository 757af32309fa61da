import Mathlib.Algebra.Ring.Int.Defs
import Mathlib.Algebra.Ring.Nat

/-!
# Conversions between C integer types

Identifiers and control fields are kept as integers; the conversions that the source relies on are
explicit.
-/

namespace CpuSubsystem

/-- `(int)x`: the representative of `x` modulo `2^32` in the range of a 32-bit `int`. -/
def toInt (x : Int) : Int := x.bmod (2 ^ 32)

/-- The value of an `int` converted to `unsigned int`. -/
def toUnsigned (x : Int) : Nat := (x % 2 ^ 32).toNat

theorem toInt_eq_self {x : Int} (hlo : -2 ^ 31 ≤ x) (hhi : x < 2 ^ 31) : toInt x = x := by
  unfold toInt
  exact Int.bmod_eq_of_le (by omega) (by omega)

theorem toInt_bounds (x : Int) : -2 ^ 31 ≤ toInt x ∧ toInt x < 2 ^ 31 := by
  have hlo := Int.le_bmod (x := x) (m := 2 ^ 32) (by decide)
  have hhi := Int.bmod_lt (x := x) (m := 2 ^ 32) (by decide)
  unfold toInt
  omega

theorem toInt_emod (x : Int) : toInt x % 2 ^ 32 = x % 2 ^ 32 := Int.bmod_emod

/-- An `int` counter counts modulo the range of `int`. -/
theorem toInt_toInt_add_one (x : Int) : toInt (toInt x + 1) = toInt (x + 1) :=
  Int.bmod_add_bmod

end CpuSubsystem
