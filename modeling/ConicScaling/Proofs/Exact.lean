import ConicScaling.DataMatrix
import ConicScaling.Settings
import Mathlib

/-!
# Exact arithmetic

The reals as scalars. Nothing is rounded, every number is finite, and not-a-number does not occur,
so the operations that tell such cases apart become the usual ones of an ordered field.
-/
namespace ConicScaling

noncomputable instance : Scalar ℝ where
  abs x := |x|
  sqrt := Real.sqrt
  exp := Real.exp
  log := Real.log
  single x := x
  decimal mantissa exponent := mantissa * 10 ^ exponent
  truncate? x := some (if 0 ≤ x then ⌊x⌋ else ⌈x⌉)
  decidableLT := inferInstance
  decidableLE := inferInstance

instance : Scalar.Standard ℝ where
  admissible := by norm_num [Admissible, Scalar.decimal]

namespace Scalar

variable (x y : ℝ)

@[simp] theorem isNaN_real : isNaN x = false := by
  simp [isNaN]

@[simp] theorem same_real : same x y = decide (x = y) := by
  simp [same, le_antisymm_iff]

@[simp] theorem larger_real : larger x y = max x y := by
  by_cases h : x < y
  · simp [larger, h, max_eq_right h.le]
  · simp [larger, h, max_eq_left (not_lt.1 h)]

@[simp] theorem largerLast_real : largerLast x y = max x y := by
  by_cases h : x ≤ y
  · simp [largerLast, h]
  · simp [largerLast, h, max_eq_left (not_le.1 h).le]

@[simp] theorem smaller_real : smaller x y = min x y := by
  by_cases h : y < x
  · simp [smaller, h, min_eq_right h.le]
  · simp [smaller, h, min_eq_left (not_lt.1 h)]

@[simp] theorem raise_real : raise x y = max x y := by
  by_cases h : x < y
  · simp [raise, h, max_eq_right h.le]
  · simp [raise, h, max_eq_left (not_lt.1 h)]

@[simp] theorem lower_real : lower x y = min x y := by
  by_cases h : y < x
  · simp [lower, h, min_eq_right h.le]
  · simp [lower, h, min_eq_left (not_lt.1 h)]

@[simp] theorem reciprocal_real : reciprocal x = x⁻¹ := by
  simp [reciprocal]

@[simp] theorem half_real : half x = x / 2 := by
  simp only [half, decimal]
  norm_num
  ring

end Scalar

namespace Precision

variable (p : Precision) (x y : ℝ)

@[simp] theorem round_real : p.round x = x := by
  cases p <;> rfl

@[simp] theorem add_real : p.add x y = x + y := by
  simp [add]

theorem add_eq_add : p.add = fun x y : ℝ => x + y := by
  funext x y
  simp

end Precision

end ConicScaling
