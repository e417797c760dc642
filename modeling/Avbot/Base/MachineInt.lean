import Mathlib.Data.Int.Basic

/-!
# Integers of the machine

What is left of a number when it is stored into a signed integer of 31, 32 or 64 bits, with wrap-around.
-/

namespace Avbot

def int31 (n : Int) : Int := n.bmod 2147483648

def int32 (n : Int) : Int := n.bmod 4294967296

def int64 (n : Int) : Int := n.bmod 18446744073709551616

/-- The first number that an `int` cannot hold. -/
def intLimit : Nat := 2147483648

theorem int31_of_fits {n : Int} (hlow : 0 ≤ n) (hhigh : n < 1073741824) : int31 n = n :=
  Int.bmod_eq_of_le (by omega) (by omega)

theorem int32_of_fits {n : Int} (hlow : -2147483648 ≤ n) (hhigh : n < 2147483648) : int32 n = n :=
  Int.bmod_eq_of_le (by omega) (by omega)

theorem int64_of_fits {n : Int} (hlow : -9223372036854775808 ≤ n) (hhigh : n ≤ 9223372036854775807) : int64 n = n :=
  Int.bmod_eq_of_le (by omega) (by omega)

theorem int32_emod (n : Int) : int32 n % 4294967296 = n % 4294967296 := by
  rw [int32, Int.bmod_def]
  split <;> omega

theorem int32_range (n : Int) : -2147483648 ≤ int32 n ∧ int32 n < 2147483648 := by
  rw [int32, Int.bmod_def]
  split <;> omega

end Avbot
