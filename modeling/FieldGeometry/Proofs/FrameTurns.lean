import FieldGeometry.Proofs.FrameTilts

/-!
# Turning frames

A frame is turned about its normal by an angle (`Frame.turned`).  Rotating an orthonormal frame is
turning it, except that angles below the tolerance leave it as it is: the turned axes are
orthonormal again, so repairing them changes nothing (`rotate_of_le`, `rotate_of_lt`).

The angle from the first axis to a direction is that of the coordinates of the direction's part in
the plane, made a unit vector (`angleTo_of_lt`).  Its cosine and sine are these coordinates,
whichever quadrant they lie in, so turning by it leads the first axis to that part
(`turned_angleTo`).
-/

namespace FieldGeometry

open Real

/-- The angle of a point of the unit circle has its coordinates as cosine and sine. -/
theorem cos_sin_arg
    {a b : ℝ}
    (h : a ^ 2 + b ^ 2 = 1) :
    cos (Complex.arg ⟨a, b⟩) = a ∧ sin (Complex.arg ⟨a, b⟩) = b := by
  have hnorm : ‖(⟨a, b⟩ : ℂ)‖ = 1 := by
    rw [Complex.norm_def, Complex.normSq_mk, ← pow_two, ← pow_two, h, sqrt_one]
  have hne : (⟨a, b⟩ : ℂ) ≠ 0 := by
    rw [← norm_ne_zero_iff, hnorm]
    exact one_ne_zero
  rw [Complex.cos_arg hne, Complex.sin_arg, hnorm, div_one, div_one]
  exact ⟨rfl, rfl⟩

namespace Frame

/-- The frame with the axes of its plane turned about the normal by an angle. -/
noncomputable def turned (f : Frame ℝ) (angle : ℝ) : Frame ℝ :=
  { f with
    xAxis := cos angle • f.xAxis + sin angle • f.yAxis
    yAxis := cos angle • f.yAxis - sin angle • f.xAxis }

section Rotate

variable {f : Frame ℝ} {angle : ℝ}

/-- Angles below the tolerance are none. -/
theorem rotate_of_lt (h : |angle| < Scalar.tolerance) : f.rotate angle = f := by
  simp [rotate, h]

variable (hf : f.Orthonormal)
include hf

theorem turned_orthonormal (angle : ℝ) : (f.turned angle).Orthonormal := by
  have hcircle : cos angle * cos angle + -sin angle * -sin angle = 1 := by
    rw [neg_mul_neg, ← pow_two, ← pow_two]
    exact cos_sq_add_sin_sq angle
  have hturned := Vec.RightHanded.turned hf hcircle
  have hx : cos angle • f.xAxis - -sin angle • f.yAxis =
      cos angle • f.xAxis + sin angle • f.yAxis := by
    module
  have hy : -sin angle • f.xAxis + cos angle • f.yAxis =
      cos angle • f.yAxis - sin angle • f.xAxis := by
    module
  rwa [hx, hy] at hturned

/-- All other angles turn the frame. -/
theorem rotate_of_le (h : Scalar.tolerance ≤ |angle|) : f.rotate angle = f.turned angle := by
  have hangle : ¬ (!Scalar.isFinite angle || decide (Scalar.abs angle < Scalar.tolerance)) := by
    simpa using h
  rw [rotate, if_neg hangle]
  exact ofAxes_of_orthonormal (f := f.turned angle) _ (turned_orthonormal hf angle)

/-- Rotating keeps the origin and the normal. -/
theorem rotate_keeps (angle : ℝ) :
    (f.rotate angle).origin = f.origin ∧ (f.rotate angle).zAxis = f.zAxis := by
  rcases lt_or_ge |angle| Scalar.tolerance with hsmall | hlarge
  · rw [rotate_of_lt hsmall]
    exact ⟨rfl, rfl⟩
  · rw [rotate_of_le hf hlarge]
    exact ⟨rfl, rfl⟩

end Rotate

section Angle

variable {f : Frame ℝ} {direction : Vec ℝ}

/-- Along the normal there is no angle. -/
theorem angleTo_of_le (h : (direction.reject f.zAxis).length ≤ Scalar.tolerance) :
    f.angleTo direction = 0 := by
  rw [angleTo, Vec.unit?_of_le h]

theorem angleTo_mem (f : Frame ℝ) (direction : Vec ℝ) : f.angleTo direction ∈ Set.Ioc (-π) π := by
  unfold angleTo
  split
  · exact ⟨neg_lt_zero.mpr pi_pos, le_of_lt pi_pos⟩
  · exact Complex.arg_mem_Ioc _

variable (hf : f.Orthonormal) (h : Scalar.tolerance < (direction.reject f.zAxis).length)
include hf h

/-- The part of a direction in the plane, as a unit vector, has coordinates on the unit circle. -/
theorem part_sq_add_sq :
    (direction.reject f.zAxis).normalized.dot f.xAxis ^ 2 +
      (direction.reject f.zAxis).normalized.dot f.yAxis ^ 2 = 1 := by
  have hacross := Vec.unitAcross_normalized hf.length_z h
  have hparts := Vec.RightHanded.dot_self hf (direction.reject f.zAxis).normalized
  rw [Vec.length_eq_one_iff.mp hacross.length_eq_one, Vec.dot_comm f.zAxis, hacross.dot_eq_zero,
    Vec.dot_comm f.xAxis, Vec.dot_comm f.yAxis] at hparts
  linarith

/-- The angle is that of the part in the plane; its cosine needs no clamping. -/
theorem angleTo_of_lt :
    f.angleTo direction =
      Complex.arg ⟨(direction.reject f.zAxis).normalized.dot f.xAxis,
        (direction.reject f.zAxis).normalized.dot f.yAxis⟩ := by
  have hcircle := part_sq_add_sq hf h
  have hsq : (direction.reject f.zAxis).normalized.dot f.xAxis ^ 2 ≤ 1 := by
    have hrest := sq_nonneg ((direction.reject f.zAxis).normalized.dot f.yAxis)
    linarith
  obtain ⟨hlower, hupper⟩ := abs_le.mp ((sq_le_one_iff_abs_le_one _).mp hsq)
  rw [angleTo, Vec.unit?_of_lt h, ← Vec.normalized]
  simp only [Scalar.clamp_exact, Scalar.atan2_exact, max_eq_left hlower, min_eq_left hupper]

/-- The first axis, turned by the angle to a direction, points along its part in the plane. -/
theorem turned_angleTo :
    (f.turned (f.angleTo direction)).xAxis = (direction.reject f.zAxis).normalized := by
  have hacross := Vec.unitAcross_normalized hf.length_z h
  have hwhole := Vec.RightHanded.combination_dot hf (direction.reject f.zAxis).normalized
  obtain ⟨hcos, hsin⟩ := cos_sin_arg (part_sq_add_sq hf h)
  rw [Vec.dot_comm f.zAxis, hacross.dot_eq_zero, zero_smul, add_zero, Vec.dot_comm f.xAxis,
    Vec.dot_comm f.yAxis] at hwhole
  rw [turned, angleTo_of_lt hf h, hcos, hsin]
  exact hwhole

end Angle

/-- **Turning towards a direction.**  A frame that is aligned to a direction is rotated about its
normal by an angle of at most half a turn, and keeps its origin and its normal.  Where the direction
has no part in the plane the angle is zero and the frame is kept.  Where it has one, turning the
first axis by the angle leads it to the direction of that part.  So does the frame's first axis,
unless the angle is below the tolerance, for which the frame is kept. -/
theorem alignToDirection_turns
    {f : Frame ℝ}
    (hf : f.Orthonormal)
    (direction : Vec ℝ) :
    ∃ (g : Frame ℝ) (angle : ℝ),
      f.alignToDirection direction = g ∧ f.angleTo direction = angle ∧
      g = f.rotate angle ∧
      g.origin = f.origin ∧ g.zAxis = f.zAxis ∧
      angle ∈ Set.Ioc (-π) π ∧
      ((direction.reject f.zAxis).length ≤ Scalar.tolerance → angle = 0 ∧ g = f) ∧
      (Scalar.tolerance < (direction.reject f.zAxis).length →
        cos angle • f.xAxis + sin angle • f.yAxis = (direction.reject f.zAxis).normalized ∧
        (Scalar.tolerance ≤ |angle| → g.xAxis = (direction.reject f.zAxis).normalized) ∧
        (|angle| < Scalar.tolerance → g = f)) := by
  obtain ⟨horigin, hnormal⟩ := rotate_keeps hf (f.angleTo direction)
  refine ⟨_, _, rfl, rfl, rfl, horigin, hnormal, angleTo_mem f direction, ?_, ?_⟩
  · intro hshort
    have hangle : f.angleTo direction = 0 := angleTo_of_le hshort
    have hsmall : |f.angleTo direction| < Scalar.tolerance := by
      rw [hangle, abs_zero]
      exact Scalar.tolerance_pos
    exact ⟨hangle, rotate_of_lt hsmall⟩
  · intro hlong
    have hturned := turned_angleTo hf hlong
    refine ⟨hturned, fun hlarge => ?_, rotate_of_lt⟩
    rw [alignToDirection, rotate_of_le hf hlarge]
    exact hturned

/-- The world frame, aligned to a direction that points up and back along its first axis, makes half
a turn. -/
theorem alignToDirection_turns_back :
    (world : Frame ℝ).Orthonormal ∧
    (world : Frame ℝ).angleTo ⟨-3, 0, 4⟩ = π ∧
    ((world : Frame ℝ).alignToDirection ⟨-3, 0, 4⟩).xAxis = ⟨-1, 0, 0⟩ := by
  have hpart : (⟨-3, 0, 4⟩ : Vec ℝ).reject (world : Frame ℝ).zAxis = (3 : ℝ) • ⟨-1, 0, 0⟩ := by
    ext <;> norm_num [Vec.reject, Vec.dot_eq, world, worldXY, Vec.basisZ]
  have hunit : (⟨-1, 0, 0⟩ : Vec ℝ).length = 1 := by
    norm_num [Vec.length_eq_one_iff, Vec.dot_eq]
  have hnormalized : ((⟨-3, 0, 4⟩ : Vec ℝ).reject (world : Frame ℝ).zAxis).normalized =
      ⟨-1, 0, 0⟩ := by
    rw [hpart, Vec.normalized_smul three_pos, Vec.normalized_of_length_eq_one hunit]
  have hlong : Scalar.tolerance <
      ((⟨-3, 0, 4⟩ : Vec ℝ).reject (world : Frame ℝ).zAxis).length := by
    rw [hpart, Vec.length_smul, hunit, Scalar.tolerance_exact, abs_of_pos] <;> norm_num
  have hangle : (world : Frame ℝ).angleTo ⟨-3, 0, 4⟩ = π := by
    rw [angleTo_of_lt world_orthonormal hlong, hnormalized, Complex.arg_eq_pi_iff]
    norm_num [Vec.dot_eq, world, worldXY, Vec.basisX, Vec.basisY]
  have hlarge : Scalar.tolerance ≤ |π| := by
    rw [abs_of_pos pi_pos]
    linarith [two_le_pi, Scalar.tolerance_lt_one]
  obtain ⟨_, _, rfl, rfl, -, -, -, -, -, hfollows⟩ :=
    alignToDirection_turns world_orthonormal ⟨-3, 0, 4⟩
  refine ⟨world_orthonormal, hangle, ?_⟩
  rw [← hnormalized]
  exact (hfollows hlong).2.1 (by rwa [hangle])

end Frame

end FieldGeometry
