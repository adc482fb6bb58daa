import Mathlib.Data.Int.Basic

/-!
# The type `int`

Values of the 32-bit type `int` are modelled by integers, and every operation
that may leave its range goes through `wrap`. Overflow is undefined in the
source language; the model wraps around, and where a result must not overflow it
says so with `Fits`.
-/

namespace LibZmq.Core.CInt

/-- `INT_MAX`. -/
def max : Int := 2147483647

/-- The value lies in the range of `int`. -/
def Fits (n : Int) : Prop := -2147483648 ≤ n ∧ n ≤ 2147483647

instance (n : Int) : Decidable (Fits n) := inferInstanceAs (Decidable (_ ∧ _))

/-- Reduce to the range of `int`. -/
def wrap (n : Int) : Int := (n + 2147483648) % 4294967296 - 2147483648

theorem wrap_of_fits {n : Int} (h : Fits n) : wrap n = n := by
  unfold Fits at h
  unfold wrap
  omega

end LibZmq.Core.CInt
