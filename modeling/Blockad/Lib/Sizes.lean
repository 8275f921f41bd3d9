import Mathlib.Init

/-!
# `Blockad.Lib.Sizes`: arithmetic of `int` and `size_t`

An `int` has 32 bits and a `size_t` has 64 of them. A value is a number of Lean, and the
operations here are those after which it could leave its type: conversions, sums and differences.

Nothing here is about one program.
-/

set_option autoImplicit false

namespace Sizes

/-- The conversion to `size_t`. -/
def toSize (n : Int) : Nat := (n % 0x10000000000000000).toNat

/-- The sum of two `size_t`. -/
def addSize (a b : Nat) : Nat := (a + b) % 0x10000000000000000

/-- The difference of two `size_t`. -/
def subSize (a b : Nat) : Nat := (a + (0x10000000000000000 - b)) % 0x10000000000000000

/-- The conversion to `int`. -/
def toInt (n : Nat) : Int := Int.bmod n 0x100000000

/-- A number that fits is converted as it is. -/
theorem toSize_of_lt {n : Int} (h₀ : 0 ≤ n) (h : n < 0x10000000000000000) :
    toSize n = n.toNat := by
  unfold toSize
  omega

/-- A sum that fits does not wrap. -/
theorem addSize_of_lt {a b : Nat} (h : a + b < 0x10000000000000000) :
    addSize a b = a + b := by
  unfold addSize
  omega

/-- A difference of a smaller number does not wrap. -/
theorem subSize_of_le {a b : Nat} (h : b ≤ a) (ha : a < 0x10000000000000000) :
    subSize a b = a - b := by
  unfold subSize
  omega

/-- A size below `2 ^ 31` is the same `int`. -/
theorem toInt_of_lt {n : Nat} (h : n < 0x80000000) : toInt n = n := by
  unfold toInt
  rw [Int.bmod_eq_of_le_mul_two]
  · omega
  · omega

end Sizes
