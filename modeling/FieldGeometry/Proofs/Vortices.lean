import FieldGeometry.Proofs.EvaluationBounds
import FieldGeometry.Proofs.FrameSpans

/-!
# Vortices

A vortex turns about the normal of a frame.  In exact arithmetic, with orthonormal axes, the vector
along which it turns at a point is the product of the normal with the point's offset from the origin
(`Spin.tangent_eq_cross`).  So it is perpendicular to both, and as long as the arm of the point,
which is the part of the offset across the normal.

The magnitude is the strength of the vortex times a falloff that is positive, at most one, and does
not increase with the arm or the height (`Spin.falloff_pos`, `falloff_le_one`, `falloff_antitone`).
The sense of turning is therefore that of the strength's sign.
-/

namespace FieldGeometry

namespace Frame

/-- The part of a point's offset from the origin across the normal. -/
noncomputable def arm (f : Frame ℝ) (p : Point ℝ) : Vec ℝ :=
  (p - f.origin : Vec ℝ).reject f.zAxis

section Arms

variable {f : Frame ℝ} (hf : f.Orthonormal) (p : Point ℝ)
include hf

/-- The third axis crossed with an offset turns its first two coordinates by a right angle. -/
theorem Orthonormal.zAxis_cross_offset :
    f.zAxis.cross (p - f.origin) =
      (-(f.coordinates p).y) • f.xAxis + (f.coordinates p).x • f.yAxis := by
  have hexpand : ∀ a b c : ℝ, f.zAxis.cross (a • f.xAxis + b • f.yAxis + c • f.zAxis) =
      a • f.zAxis.cross f.xAxis - b • f.yAxis.cross f.zAxis := by
    intro a b c
    ext <;> simp [Vec.cross_eq] <;> ring
  rw [← Vec.RightHanded.combination_dot hf (p - f.origin), hexpand,
    Vec.RightHanded.x_cross_y (Vec.RightHanded.cycle (Vec.RightHanded.cycle hf)),
    Vec.RightHanded.x_cross_y (Vec.RightHanded.cycle hf), coordinates_eq]
  module

theorem Orthonormal.length_zAxis_cross_offset :
    (f.zAxis.cross (p - f.origin)).length = (f.arm p).length :=
  Vec.length_unit_cross hf.length_z _

/-- The arm is as long as the first two coordinates say. -/
theorem Orthonormal.length_arm :
    (f.arm p).length = √((f.coordinates p).x * (f.coordinates p).x +
      (f.coordinates p).y * (f.coordinates p).y) := by
  have hsq : (f.arm p).length ^ 2 = (f.coordinates p).x * (f.coordinates p).x +
      (f.coordinates p).y * (f.coordinates p).y := by
    rw [arm, Vec.length_reject_sq hf.length_z, Vec.length_sq, Vec.RightHanded.dot_self hf,
      Vec.dot_comm _ f.zAxis, coordinates_eq]
    ring
  rw [← hsq, Real.sqrt_sq (Vec.length_nonneg _)]

/-- About the third axis, the arm turns towards the axis crossed with the offset. -/
theorem Orthonormal.arm_cross_dot_zAxis :
    ((f.arm p).cross (f.zAxis.cross (p - f.origin))).dot f.zAxis = (f.arm p).length ^ 2 := by
  have hzz : f.zAxis.dot f.zAxis = 1 := Vec.length_eq_one_iff.mp hf.length_z
  have hacross : (f.arm p).dot f.zAxis = 0 := Vec.reject_dot _ hf.length_z
  have hoffset : (f.arm p).dot (p - f.origin) = (f.arm p).length ^ 2 := by
    rw [arm, Vec.length_reject_sq hf.length_z, Vec.length_sq, Vec.reject, Vec.sub_dot, Vec.smul_dot,
      Vec.dot_comm f.zAxis, pow_two]
  rw [Vec.cross_cross, Vec.sub_dot, Vec.smul_dot, Vec.smul_dot, hzz, hacross, hoffset]
  ring

end Arms

end Frame

namespace Spin

section Falloff

variable (s : Spin ℝ)

/-- The distance over which the action falls off. -/
noncomputable def reach : ℝ :=
  max |s.radius| softening

theorem reach_pos : 0 < s.reach :=
  lt_of_lt_of_le softening_pos (le_max_right _ _)

/-- The power with which the action falls off along the arm, as a negative number. -/
noncomputable def exponent : ℝ :=
  -(max s.decay 0 + 1)

theorem exponent_nonpos : s.exponent ≤ 0 := by
  have hdecay : 0 ≤ max s.decay 0 := le_max_right _ _
  rw [exponent]
  linarith

/-- What is left of the strength at an arm of a given length and a given height. -/
noncomputable def falloff (r h : ℝ) : ℝ :=
  (1 + r / s.reach) ^ s.exponent * (1 / (1 + h / s.reach))

/-- The magnitude is the strength times the falloff. -/
theorem magnitudeAt_eq (c : Point ℝ) :
    s.magnitudeAt c = s.strength * s.falloff (√(c.x * c.x + c.y * c.y)) |c.z| := by
  simp only [magnitudeAt, Scalar.maxNum_exact, Scalar.abs_exact, Scalar.hypot_exact,
    Scalar.pow_exact, falloff, reach, exponent, mul_assoc]

variable {r r' h h' : ℝ} (hr : 0 ≤ r) (hh : 0 ≤ h)
include hr

theorem one_le_base : 1 ≤ 1 + r / s.reach :=
  le_add_of_nonneg_right (div_nonneg hr (le_of_lt s.reach_pos))

theorem base_pos : 0 < 1 + r / s.reach :=
  lt_of_lt_of_le zero_lt_one (s.one_le_base hr)

include hh

theorem falloff_pos : 0 < s.falloff r h :=
  mul_pos (Real.rpow_pos_of_pos (s.base_pos hr) _) (one_div_pos.mpr (s.base_pos hh))

theorem falloff_le_one : s.falloff r h ≤ 1 := by
  have hhorizontal := Real.rpow_le_one_of_one_le_of_nonpos (s.one_le_base hr) s.exponent_nonpos
  have hvertical : 1 / (1 + h / s.reach) ≤ 1 := by
    rw [div_le_one (s.base_pos hh)]
    exact s.one_le_base hh
  exact mul_le_one₀ hhorizontal (one_div_nonneg.mpr (le_of_lt (s.base_pos hh))) hvertical

/-- The longer the arm and the greater the height, the less is left. -/
theorem falloff_antitone
    (hrr : r ≤ r')
    (hhh : h ≤ h') :
    s.falloff r' h' ≤ s.falloff r h := by
  have hwider : ∀ {a b : ℝ}, a ≤ b → 1 + a / s.reach ≤ 1 + b / s.reach := by
    intro a b hab
    exact add_le_add_right (div_le_div_of_nonneg_right hab (le_of_lt s.reach_pos)) 1
  have hhorizontal := Real.rpow_le_rpow_of_nonpos (s.base_pos hr) (hwider hrr) s.exponent_nonpos
  have hvertical := one_div_le_one_div_of_le (s.base_pos hh) (hwider hhh)
  exact mul_le_mul hhorizontal hvertical
    (one_div_nonneg.mpr (le_of_lt (s.base_pos (le_trans hh hhh))))
    (Real.rpow_nonneg (le_of_lt (s.base_pos hr)) _)

end Falloff

section Magnitude

variable (s : Spin ℝ) (p : Point ℝ)

/-- The signed strength at a point. -/
noncomputable def magnitude : ℝ :=
  s.strength * s.falloff (s.frame.arm p).length |(s.frame.coordinates p).z|

theorem falloff_arm_pos :
    0 < s.falloff (s.frame.arm p).length |(s.frame.coordinates p).z| :=
  s.falloff_pos (Vec.length_nonneg _) (abs_nonneg _)

theorem abs_magnitude :
    |s.magnitude p| =
      |s.strength| * s.falloff (s.frame.arm p).length |(s.frame.coordinates p).z| := by
  rw [magnitude, abs_mul, abs_of_pos (s.falloff_arm_pos p)]

end Magnitude

section Samples

variable {s : Spin ℝ} (hf : s.frame.Orthonormal) {p q : Point ℝ}
include hf

/-- Along a vortex the normal is crossed with the offset. -/
theorem tangent_eq_cross (p : Point ℝ) :
    s.tangent (s.frame.coordinates p).x (s.frame.coordinates p).y =
      s.frame.zAxis.cross (p - s.frame.origin) :=
  (hf.zAxis_cross_offset p).symm

/-- On the axis a vortex does not act. -/
theorem sample_of_le (h : (s.frame.arm p).length ≤ Scalar.tolerance) :
    s.sample p = ⟨Vec.zero, 0, none⟩ := by
  rw [← hf.length_zAxis_cross_offset, ← tangent_eq_cross hf] at h
  unfold sample
  simp only [Vec.unit?_of_le h]

/-- Off the axis it acts along the normal crossed with the offset. -/
theorem sample_of_lt (h : Scalar.tolerance < (s.frame.arm p).length) :
    s.sample p =
      ⟨s.magnitude p • (s.frame.zAxis.cross (p - s.frame.origin)).normalized,
        |s.magnitude p|, none⟩ := by
  rw [← hf.length_zAxis_cross_offset, ← tangent_eq_cross hf] at h
  unfold sample
  simp only [Vec.unit?_of_lt h]
  rw [tangent_eq_cross hf, magnitudeAt_eq, ← hf.length_arm, ← Vec.normalized, magnitude]
  rfl

/-- A vortex acts across the normal and across the offset from its origin. -/
theorem vector_perp (p : Point ℝ) :
    (s.sample p).vector.dot s.frame.zAxis = 0 ∧
      (s.sample p).vector.dot (p - s.frame.origin) = 0 := by
  rcases le_or_gt (s.frame.arm p).length Scalar.tolerance with hle | hlt
  · rw [sample_of_le hf hle]
    exact ⟨Vec.zero_dot _, Vec.zero_dot _⟩
  · rw [sample_of_lt hf hlt]
    simp only [Vec.normalized, Vec.smul_dot, Vec.cross_dot_left, Vec.cross_dot_right, mul_zero,
      and_self]

theorem length_vector (p : Point ℝ) : (s.sample p).vector.length = (s.sample p).strength := by
  rcases le_or_gt (s.frame.arm p).length Scalar.tolerance with hle | hlt
  · rw [sample_of_le hf hle]
    exact Vec.length_zero
  · have hpos : 0 < (s.frame.zAxis.cross (p - s.frame.origin)).length := by
      rw [hf.length_zAxis_cross_offset]
      exact lt_trans Scalar.tolerance_pos hlt
    rw [sample_of_lt hf hlt, Vec.length_smul, Vec.length_normalized hpos, mul_one]

theorem strength_le (p : Point ℝ) : (s.sample p).strength ≤ |s.strength| := by
  rcases le_or_gt (s.frame.arm p).length Scalar.tolerance with hle | hlt
  · rw [sample_of_le hf hle]
    exact abs_nonneg _
  · rw [sample_of_lt hf hlt]
    show |s.magnitude p| ≤ _
    rw [abs_magnitude]
    exact mul_le_of_le_one_right (abs_nonneg _)
      (s.falloff_le_one (Vec.length_nonneg _) (abs_nonneg _))

/-- The sense of turning about the normal is that of the strength. -/
theorem sign_turning (h : Scalar.tolerance < (s.frame.arm p).length) :
    SignType.sign (((s.frame.arm p).cross (s.sample p).vector).dot s.frame.zAxis) =
      SignType.sign s.strength := by
  have harm : 0 < (s.frame.arm p).length := lt_trans Scalar.tolerance_pos h
  have hturning : ((s.frame.arm p).cross (s.sample p).vector).dot s.frame.zAxis =
      s.strength * (s.falloff (s.frame.arm p).length |(s.frame.coordinates p).z| *
        (s.frame.arm p).length) := by
    rw [sample_of_lt hf h, Vec.normalized, Vec.cross_smul, Vec.cross_smul, Vec.smul_dot,
      Vec.smul_dot, hf.arm_cross_dot_zAxis, hf.length_zAxis_cross_offset, magnitude]
    field_simp
  rw [hturning, sign_mul, sign_pos (mul_pos (s.falloff_arm_pos p) harm), mul_one]

/-- Off the axis the strength does not increase with the arm or the height. -/
theorem strength_antitone
    (h : Scalar.tolerance < (s.frame.arm p).length)
    (harm : (s.frame.arm p).length ≤ (s.frame.arm q).length)
    (hheight : |(s.frame.coordinates p).z| ≤ |(s.frame.coordinates q).z|) :
    (s.sample q).strength ≤ (s.sample p).strength := by
  rw [sample_of_lt hf h, sample_of_lt hf (lt_of_lt_of_le h harm)]
  show |s.magnitude q| ≤ |s.magnitude p|
  rw [abs_magnitude, abs_magnitude]
  exact mul_le_mul_of_nonneg_left
    (s.falloff_antitone (Vec.length_nonneg _) (abs_nonneg _) harm hheight) (abs_nonneg _)

end Samples

/-- The sign of the radius does not matter. -/
theorem sample_neg_radius (s : Spin ℝ) (p : Point ℝ) :
    ({ s with radius := -s.radius } : Spin ℝ).sample p = s.sample p := by
  have hmagnitude : ∀ c, ({ s with radius := -s.radius } : Spin ℝ).magnitudeAt c =
      s.magnitudeAt c := by
    intro c
    simp only [magnitudeAt, Scalar.abs_exact, abs_neg]
  unfold sample
  simp only [hmagnitude]
  rfl

/-- **A vortex circulates.**  With orthonormal axes it acts across its normal and across the offset
from its origin, with a vector as long as its strength there, which is at most the strength of the
vortex.  Off the axis it turns about the normal in the sense of the strength's sign, and its
strength does not increase with the distance from the axis or the height over the plane.  On the
axis it does not act.  The sign of its radius does not matter. -/
theorem sample_circulates
    {s : Spin ℝ}
    (hf : s.frame.Orthonormal) :
    (∀ p : Point ℝ,
      ((s.sample p).vector.dot s.frame.zAxis = 0 ∧
        (s.sample p).vector.dot (p - s.frame.origin) = 0) ∧
      (s.sample p).vector.length = (s.sample p).strength ∧
      (s.sample p).strength ≤ |s.strength| ∧
      (Scalar.tolerance < (s.frame.arm p).length →
        SignType.sign (((s.frame.arm p).cross (s.sample p).vector).dot s.frame.zAxis) =
          SignType.sign s.strength) ∧
      ((s.frame.arm p).length ≤ Scalar.tolerance →
        (s.sample p).vector = Vec.zero ∧ (s.sample p).strength = 0)) ∧
    (∀ p q : Point ℝ,
      Scalar.tolerance < (s.frame.arm p).length →
      (s.frame.arm p).length ≤ (s.frame.arm q).length →
      |(s.frame.coordinates p).z| ≤ |(s.frame.coordinates q).z| →
        (s.sample q).strength ≤ (s.sample p).strength) ∧
    ∀ p : Point ℝ, ({ s with radius := -s.radius } : Spin ℝ).sample p = s.sample p := by
  refine ⟨?_, ?_, ?_⟩
  · intro p
    refine ⟨vector_perp hf p, length_vector hf p, strength_le hf p, sign_turning hf, ?_⟩
    intro hle
    rw [sample_of_le hf hle]
    exact ⟨rfl, rfl⟩
  · intro p q h harm hheight
    exact strength_antitone hf h harm hheight
  · intro p
    exact sample_neg_radius s p

/-- A vortex of strength minus two about a slanted normal turns clockwise one unit from its axis,
acts less two units from it and one above the plane, and not at all on the axis. -/
theorem sample_circulates_slanted :
    ∃ s : Spin ℝ,
      s = ⟨⟨⟨1, 0, 0⟩, ⟨1, 0, 0⟩, ⟨0, 4 / 5, -3 / 5⟩, ⟨0, 3 / 5, 4 / 5⟩⟩, -2, -1, 1⟩ ∧
      s.frame.Orthonormal ∧
      Scalar.tolerance < (s.frame.arm ⟨2, 0, 0⟩).length ∧
      ((s.frame.arm ⟨2, 0, 0⟩).cross (s.sample ⟨2, 0, 0⟩).vector).dot s.frame.zAxis < 0 ∧
      (s.sample ⟨3, 3 / 5, 4 / 5⟩).strength ≤ (s.sample ⟨2, 0, 0⟩).strength ∧
      (s.sample ⟨1, 3 / 5, 4 / 5⟩).vector = Vec.zero := by
  refine ⟨_, rfl, ?_⟩
  generalize hslanted :
    (⟨⟨⟨1, 0, 0⟩, ⟨1, 0, 0⟩, ⟨0, 4 / 5, -3 / 5⟩, ⟨0, 3 / 5, 4 / 5⟩⟩, -2, -1, 1⟩ : Spin ℝ) = s
  have hf : s.frame.Orthonormal := by
    rw [← hslanted]
    constructor <;> norm_num [Vec.length_eq_one_iff, Vec.dot_eq, Vec.cross_eq]
  have hnear : s.frame.arm ⟨2, 0, 0⟩ = Vec.basisX := by
    rw [← hslanted]
    ext <;> norm_num [Frame.arm, Vec.reject, Point.sub_eq_toVec_sub, Point.toVec, Vec.dot_eq,
      Vec.basisX]
  have hfar : s.frame.arm ⟨3, 3 / 5, 4 / 5⟩ = (2 : ℝ) • Vec.basisX := by
    rw [← hslanted]
    ext <;> norm_num [Frame.arm, Vec.reject, Point.sub_eq_toVec_sub, Point.toVec, Vec.dot_eq,
      Vec.basisX]
  have haxis : s.frame.arm ⟨1, 3 / 5, 4 / 5⟩ = 0 := by
    rw [← hslanted]
    ext <;> norm_num [Frame.arm, Vec.reject, Point.sub_eq_toVec_sub, Point.toVec, Vec.dot_eq]
  have hlow : (s.frame.coordinates ⟨2, 0, 0⟩).z = 0 := by
    rw [← hslanted]
    norm_num [Frame.coordinates, Point.sub_eq_toVec_sub, Point.toVec, Vec.dot_eq]
  have hclockwise : s.strength < 0 := by
    rw [← hslanted]
    norm_num
  obtain ⟨hx, -, -⟩ := Vec.length_basis
  obtain ⟨hpoint, hantitone, -⟩ := sample_circulates hf
  have hoff : Scalar.tolerance < (s.frame.arm ⟨2, 0, 0⟩).length := by
    rw [hnear, hx]
    exact Scalar.tolerance_lt_one
  refine ⟨hf, hoff, ?_, hantitone _ _ hoff ?_ ?_, ((hpoint _).2.2.2.2 ?_).1⟩
  · rw [← sign_eq_neg_one_iff, (hpoint _).2.2.2.1 hoff, sign_eq_neg_one_iff]
    exact hclockwise
  · rw [hnear, hfar, Vec.length_smul, hx]
    norm_num
  · rw [hlow, abs_zero]
    exact abs_nonneg _
  · rw [haxis, Vec.length_zero]
    exact le_of_lt Scalar.tolerance_pos

end Spin

end FieldGeometry
