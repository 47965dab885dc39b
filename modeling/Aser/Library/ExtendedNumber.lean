import Mathlib.Algebra.Field.Basic

namespace Aser.Library

/-- The values that division takes floating-point numbers to, without their rounding. There is one
infinity, for quotients of numbers that are not negative. -/
inductive ExtendedNumber (K : Type*)
  | finite (x : K)
  | infinite
  | nan
  deriving DecidableEq

namespace ExtendedNumber

variable {K : Type*} [Field K] [DecidableEq K]

def divide : ExtendedNumber K → ExtendedNumber K → ExtendedNumber K
  | finite x, finite y => if y = 0 then (if x = 0 then nan else infinite) else finite (x / y)
  | finite _, infinite => finite 0
  | infinite, finite _ => infinite
  | infinite, infinite | nan, _ | _, nan => nan

theorem divide_finite {y : K} (nonzero : y ≠ 0) (x : K) : divide (finite x) (finite y) = finite (x / y) := by
  rw [divide, if_neg nonzero]

end ExtendedNumber

end Aser.Library
