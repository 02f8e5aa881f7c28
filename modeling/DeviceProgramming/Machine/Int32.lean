import Mathlib.Tactic.Positivity
import Mathlib.Tactic.Zify

namespace DeviceProgramming

/-- The value of a 32-bit `int` after arithmetic, in two's complement. -/
def int32 (x : ℤ) : ℤ := (x + 2 ^ 31) % 2 ^ 32 - 2 ^ 31

theorem int32_of_range {x : ℤ} (lower : -2 ^ 31 ≤ x) (upper : x < 2 ^ 31) : int32 x = x := by
  unfold int32
  omega

/-- A wrapped intermediate result does not change the final one. -/
theorem int32_add (x y : ℤ) : int32 (int32 x + y) = int32 (x + y) := by
  unfold int32
  omega

/-- Above the lower bound, a value that wraps to a nonnegative one was not
negative itself. -/
theorem nonneg_of_int32 {x : ℤ} (lower : -2 ^ 31 ≤ x) (wrapped : 0 ≤ int32 x) : 0 ≤ x := by
  unfold int32 at wrapped
  omega

end DeviceProgramming
