import Mathlib.Algebra.Group.Int.Defs
import Mathlib.Algebra.GroupWithZero.Nat
import Mathlib.Data.Nat.Size

/-!
# Machine integers

Conversions that lose bits: to 32 bits with a sign, and sums of a 64-bit number and such an integer.
-/

namespace Ladybug

/-- Sums are converted to 32 bits with a sign. -/
def toInt32 (n : Int) : Int := n.bmod (2 ^ 32)

/-- An unsigned sum of 64 bits; the sign of the second number is extended. -/
def addInt64 (a : Nat) (b : Int) : Nat := ((a + b) % 2 ^ 64).toNat

theorem toInt32_of_lt {k : Nat} (hk : k < 2 ^ 31) : toInt32 (k : Int) = k := by
  unfold toInt32
  rw [Int.bmod_def]
  omega

theorem toInt32_two_pow : toInt32 ((2 ^ 31 : Nat) : Int) = -2 ^ 31 := by decide

theorem toInt32_add_one (k : Int) : toInt32 (toInt32 k + 1) = toInt32 (k + 1) := Int.bmod_add_bmod

theorem addInt64_natCast (a b : Nat) : addInt64 a b = (a + b) % 2 ^ 64 := by
  unfold addInt64
  omega

end Ladybug
