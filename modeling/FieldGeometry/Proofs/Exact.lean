import FieldGeometry.Scalar
import Mathlib.Analysis.SpecialFunctions.Complex.Arg
import Mathlib.Analysis.SpecialFunctions.Pow.Real
import Mathlib.Tactic

/-!
# Exact arithmetic

The real numbers as scalars: every number is finite, none is undefined, and the functions are the
functions of analysis.  The definitions of the geometry, read over this instance, are the programs
of exact arithmetic.

The second half evaluates the guards there: a fallback for what is not finite is never taken, and
the lesser, the greater and the clamped number are those of the usual order.
-/

namespace FieldGeometry

/-- The real numbers as scalars.  Rounding takes halves away from zero, counts and indices keep the
whole part within 64 bits. -/
noncomputable instance : Scalar ℝ where
  zero := 0
  one := 1
  natCast := Nat.cast
  decLt := inferInstance
  decLe := inferInstance
  abs x := |x|
  sqrt := Real.sqrt
  hypot x y := √(x * x + y * y)
  sin := Real.sin
  cos := Real.cos
  atan2 y x := Complex.arg ⟨x, y⟩
  pow x y := x ^ y
  round x := if 0 ≤ x then ⌊x + 1 / 2⌋ else ⌈x - 1 / 2⌉
  isFinite _ := true
  isNaN _ := false
  toCount x := min ⌊x⌋₊ 18446744073709551615
  toIndex x :=
    max (-9223372036854775808) (min (if 0 ≤ x then ⌊x⌋ else ⌈x⌉) 9223372036854775807)
  precedes x y := decide (x ≤ y)
  precedes_trans x y z hxy hyz := by
    simp only [decide_eq_true_eq] at *
    exact le_trans hxy hyz
  precedes_total x y := by
    simp only [Bool.or_eq_true, decide_eq_true_eq]
    exact le_total x y

namespace Scalar

section Operations

variable (x y : ℝ)

@[simp] theorem isFinite_exact : isFinite x = true := by
  rfl

@[simp] theorem isNaN_exact : isNaN x = false := by
  rfl

@[simp] theorem abs_exact : abs x = |x| := by
  rfl

@[simp] theorem sqrt_exact : sqrt x = √x := by
  rfl

@[simp] theorem hypot_exact : hypot x y = √(x * x + y * y) := by
  rfl

@[simp] theorem sin_exact : sin x = Real.sin x := by
  rfl

@[simp] theorem cos_exact : cos x = Real.cos x := by
  rfl

@[simp] theorem atan2_exact : atan2 y x = Complex.arg ⟨x, y⟩ := by
  rfl

@[simp] theorem pow_exact : pow x y = x ^ y := by
  rfl

theorem round_exact :
    round x = if 0 ≤ x then (⌊x + 1 / 2⌋ : ℝ) else (⌈x - 1 / 2⌉ : ℝ) := by
  rfl

theorem toCount_exact : toCount x = min ⌊x⌋₊ 18446744073709551615 := by
  rfl

@[simp] theorem precedes_exact : precedes x y = decide (x ≤ y) := by
  rfl

end Operations

section Guards

variable (x lo hi : ℝ)

@[simp] theorem ratio_exact (m n : ℕ) : (ratio m n : ℝ) = m / n := by
  rfl

@[simp] theorem half_exact : (half : ℝ) = 1 / 2 := by
  simp [half]

@[simp] theorem two_exact : (two : ℝ) = 2 := by
  show ((2 : ℕ) : ℝ) = 2
  norm_num

/-- Every number is finite, so the fallback is never taken. -/
@[simp] theorem finiteOr_exact (fallback : ℝ) : finiteOr x fallback = x := by
  simp [finiteOr]

@[simp] theorem minNum_exact (y : ℝ) : minNum x y = min x y := by
  simp only [minNum, isNaN_exact, Bool.false_eq_true, if_false]
  split_ifs with h
  · exact (min_eq_right (le_of_lt h)).symm
  · exact (min_eq_left (not_lt.mp h)).symm

@[simp] theorem maxNum_exact (y : ℝ) : maxNum x y = max x y := by
  simp only [maxNum, isNaN_exact, Bool.false_eq_true, if_false]
  split_ifs with h
  · exact (max_eq_right (le_of_lt h)).symm
  · exact (max_eq_left (not_lt.mp h)).symm

@[simp] theorem clamp_exact : clamp x lo hi = min (max x lo) hi := by
  have hraised : (if x < lo then lo else x) = max x lo := by
    split_ifs with h
    · exact (max_eq_right (le_of_lt h)).symm
    · exact (max_eq_left (not_lt.mp h)).symm
  show (if hi < (if x < lo then lo else x) then hi else (if x < lo then lo else x)) = _
  rw [hraised]
  split_ifs with h
  · exact (min_eq_right (le_of_lt h)).symm
  · exact (min_eq_left (not_lt.mp h)).symm

@[simp] theorem clampFinite_exact : clampFinite x lo hi = min (max x lo) hi := by
  simp [clampFinite]

end Guards

/-- Lengths are resolved to a billionth. -/
theorem tolerance_exact : (tolerance : ℝ) = 1 / 1000000000 := by
  simp [tolerance]

theorem tolerance_pos : (0 : ℝ) < tolerance := by
  rw [tolerance_exact]
  norm_num

theorem tolerance_lt_one : (tolerance : ℝ) < 1 := by
  rw [tolerance_exact]
  norm_num

section Folds

variable (x : ℝ) (xs : List ℝ)

/-- Folding by the lesser of two numbers finds the least of them all. -/
theorem isLeast_foldl_minNum : IsLeast {y | y ∈ x :: xs} (xs.foldl minNum x) := by
  have hmin : (minNum : ℝ → ℝ → ℝ) = min := by
    funext a b
    exact minNum_exact a b
  rw [hmin]
  exact List.min?_eq_some_iff.mp List.min?_cons'

/-- Folding by the greater of two numbers finds the greatest of them all. -/
theorem isGreatest_foldl_maxNum : IsGreatest {y | y ∈ x :: xs} (xs.foldl maxNum x) := by
  have hmax : (maxNum : ℝ → ℝ → ℝ) = max := by
    funext a b
    exact maxNum_exact a b
  rw [hmax]
  exact List.max?_eq_some_iff.mp List.max?_cons'

end Folds

/-- Summing from the left gives the sum of the list. -/
@[simp] theorem sum_exact (xs : List ℝ) : sum xs = xs.sum := by
  rw [List.sum_eq_foldl]
  rfl

end Scalar

end FieldGeometry
