import FieldGeometry.Proofs.FrameTilts

/-!
# Frames through points and lines

A frame through a line and a point, through two lines or through three points contains what it was
built from.  All three are the frame that a direction and a reference span (`spanned`): the first
axis is the direction, the second that of the part of the reference across it, and the third their
product.  In such a frame the reference has no third coordinate and a positive second one, which is
the length of its part across (`dot_spanned`).

What is left to each construction is which direction and which reference it takes.  Through a line
and a point, or two lines, the reference is tried against the tolerance (`alongDirection_of_lt`),
and for parallel lines the offset between their starts takes its place.  Through three points the
normal comes first, as the product of two sides, and leads back to the part of the second side
across the first (`throughPoints_of_lt`).  There that part may be shorter than the tolerance, when
the first side is long; it still has a direction.
-/

namespace FieldGeometry

namespace Vec

section Parts

variable {v w axis : Vec ℝ}

theorem length_normalized (h : 0 < v.length) : v.normalized.length = 1 := by
  rw [normalized, length_smul, abs_of_pos (inv_pos.mpr h), inv_mul_cancel₀ (ne_of_gt h)]

/-- A vector is its length times its direction. -/
theorem length_smul_normalized (h : 0 < v.length) : v.length • v.normalized = v := by
  rw [normalized, smul_smul, mul_inv_cancel₀ (ne_of_gt h), one_smul]

/-- A vector is its part along an axis and its part across. -/
theorem along_add_reject (v axis : Vec ℝ) : v.dot axis • axis + v.reject axis = v := by
  rw [reject, add_sub_cancel]

/-- A vector carries no direction exactly when it is within the tolerance. -/
theorem isDegenerate_iff : v.isDegenerate = true ↔ v.length ≤ Scalar.tolerance := by
  rcases le_or_gt v.length Scalar.tolerance with h | h
  · simp [isDegenerate, unit?_of_le h, h]
  · simp [isDegenerate, unit?_of_lt h, h]

/-- The direction of the part across a unit axis, however short the part is. -/
theorem unitAcross_normalized_of_pos
    (haxis : axis.length = 1)
    (h : 0 < (v.reject axis).length) :
    UnitAcross axis (v.reject axis).normalized := by
  refine ⟨length_normalized h, ?_⟩
  rw [normalized, smul_dot, reject_dot v haxis, mul_zero]

theorem length_unit_cross
    (haxis : axis.length = 1)
    (v : Vec ℝ) :
    (axis.cross v).length = (v.reject axis).length := by
  rw [← neg_cross_eq, length_neg, length_cross_unit haxis]

/-- The normalized product with a unit axis leads back to the normalized part across it. -/
theorem normalized_cross_cross
    (haxis : axis.length = 1)
    (v : Vec ℝ) :
    (axis.cross v).normalized.cross axis = (v.reject axis).normalized := by
  rw [normalized, smul_cross, cross_cross_left haxis, length_unit_cross haxis, normalized]

/-- A product is as long as the first factor times the part of the second across it. -/
theorem length_cross_eq
    (h : 0 < v.length)
    (w : Vec ℝ) :
    (v.cross w).length = v.length * (w.reject v.normalized).length := by
  rw [← length_unit_cross (length_normalized h)]
  nth_rewrite 1 [← length_smul_normalized h]
  rw [smul_cross, length_smul, abs_of_pos h]

/-- Vectors with a product have parts across each other. -/
theorem length_reject_pos
    (h : 0 < v.length)
    (hcross : 0 < (v.cross w).length) :
    0 < (w.reject v.normalized).length := by
  rw [length_cross_eq h] at hcross
  exact (mul_pos_iff_of_pos_left h).mp hcross

end Parts

end Vec

namespace Frame

/-- The frame whose first axis is a unit vector, and whose second axis points along the part of a
reference across it. -/
noncomputable def spanned (origin : Point ℝ) (x reference : Vec ℝ) : Frame ℝ :=
  ⟨origin, x, (reference.reject x).normalized, x.cross (reference.reject x).normalized⟩

section Spanned

variable (origin : Point ℝ) {x reference : Vec ℝ}
variable (hx : x.length = 1) (h : 0 < (reference.reject x).length)
include hx h

theorem spanned_orthonormal : (spanned origin x reference).Orthonormal :=
  ((Vec.unitAcross_normalized_of_pos hx h).rightHanded hx).cycle.cycle

/-- The reference lies in the plane of the frame, on the side of the second axis. -/
theorem dot_spanned :
    reference.dot (spanned origin x reference).yAxis = (reference.reject x).length ∧
    reference.dot (spanned origin x reference).zAxis = 0 := by
  have hparts : reference.dot x • (spanned origin x reference).xAxis +
      (reference.reject x).length • (spanned origin x reference).yAxis +
      (0 : ℝ) • (spanned origin x reference).zAxis = reference := by
    rw [zero_smul, add_zero]
    show reference.dot x • x +
      (reference.reject x).length • (reference.reject x).normalized = reference
    rw [Vec.length_smul_normalized h, Vec.along_add_reject]
  obtain ⟨-, hy, hz⟩ := Vec.RightHanded.dot_combination
    (spanned_orthonormal origin hx h) (reference.dot x) (reference.reject x).length 0
  rw [hparts, Vec.dot_comm] at hy hz
  exact ⟨hy, hz⟩

end Spanned

/-- The point lies in the plane of the frame, on the side of the second axis. -/
def LiesBeside (f : Frame ℝ) (p : Point ℝ) : Prop :=
  ∃ u v : ℝ, 0 < v ∧ f.coordinates p = ⟨u, v, 0⟩

theorem liesBeside_spanned
    {origin p : Point ℝ}
    {x : Vec ℝ}
    (hx : x.length = 1)
    (h : 0 < ((p - origin : Vec ℝ).reject x).length) :
    (spanned origin x (p - origin)).LiesBeside p := by
  obtain ⟨hy, hz⟩ := dot_spanned origin hx h
  refine ⟨(p - origin : Vec ℝ).dot x, _, h, ?_⟩
  show (⟨_, _, _⟩ : Point ℝ) = _
  rw [← hy, ← hz]
  rfl

/-- A point on the first axis has its distance along it as first coordinate, and no other. -/
theorem Orthonormal.coordinates_of_along
    {f : Frame ℝ}
    {p : Point ℝ}
    {s : ℝ}
    (hf : f.Orthonormal)
    (h : p - f.origin = s • f.xAxis) :
    f.coordinates p = ⟨s, 0, 0⟩ := by
  obtain ⟨hx, hy, hz⟩ := Vec.RightHanded.dot_combination hf s 0 0
  rw [zero_smul, zero_smul, add_zero, add_zero] at hx hy hz
  rw [coordinates_eq, h, hx, hy, hz]

section AlongDirection

variable (origin : Point ℝ) {direction reference x : Vec ℝ}
variable (hx : direction.unitOr Vec.basisX = x)
include hx

theorem length_firstAxis : x.length = 1 := by
  rw [← hx]
  exact Vec.length_unitOr Vec.length_basis.1

/-- The frame along a direction has the direction as first axis and a unit vector across it as
second, whatever the reference. -/
theorem alongDirection_eq :
    alongDirection origin direction reference =
      ⟨origin, x, (reference.reject x).unitOr x.orthogonal,
        x.cross ((reference.reject x).unitOr x.orthogonal)⟩ := by
  have hunit := length_firstAxis hx
  unfold alongDirection
  simp only [hx]
  generalize hy : (reference.reject x).unitOr x.orthogonal = y
  have hacross : Vec.UnitAcross x y := by
    rw [← hy]
    refine Vec.unitOr_induction (fun u hu => ?_) (Vec.orthogonal_of_length_eq_one hunit)
    exact Vec.unitAcross_of_unit? hu (Vec.reject_dot reference hunit)
  -- the product of the two is a unit vector, so nothing stands in for it and it leads back to `y`
  have htriple := (hacross.rightHanded hunit).cycle.cycle
  rw [Vec.unitOr_of_length_eq_one _ htriple.length_z, Vec.cross_cross_left hunit,
    Vec.reject_of_unitAcross hacross, Vec.unitOrZero_of_length_eq_one htriple.length_y]
  exact ofAxes_of_orthonormal (f := ⟨origin, x, y, x.cross y⟩) _ htriple

/-- Where the reference has a part across the direction, the two span the frame. -/
theorem alongDirection_of_lt
    (h : Scalar.tolerance < (reference.reject x).length) :
    alongDirection origin direction reference = spanned origin x reference := by
  rw [alongDirection_eq origin hx, Vec.unitOr_of_lt h, ← Vec.normalized, spanned]

/-- A point off the first axis that serves as the reference lies beside it. -/
theorem liesBeside_alongDirection
    {p : Point ℝ}
    (h : Scalar.tolerance < ((p - origin : Vec ℝ).reject x).length) :
    (alongDirection origin direction (p - origin)).LiesBeside p := by
  rw [alongDirection_of_lt origin hx h]
  exact liesBeside_spanned (length_firstAxis hx) (lt_trans Scalar.tolerance_pos h)

end AlongDirection

/-- Through two segments: the direction of the second is the reference, unless it is parallel to the
first. -/
theorem throughSegments_eq
    {first second : Segment ℝ}
    {x : Vec ℝ}
    (hx : first.direction.unitOr Vec.basisX = x) :
    throughSegments first second =
      alongDirection first.start x
        (if (second.direction.reject x).length ≤ Scalar.tolerance then second.start - first.start
          else second.direction) := by
  simp only [throughSegments, hx, Vec.isDegenerate_iff]

/-- Three points that are not on a line span the frame through them. -/
theorem throughPoints_of_lt
    {a b c : Point ℝ}
    (hside : Scalar.tolerance < (b - a : Vec ℝ).length)
    (hskew : Scalar.tolerance < ((b - a : Vec ℝ).cross (c - a)).length) :
    throughPoints a b c = spanned a (b - a : Vec ℝ).normalized (c - a) := by
  have hpos := lt_trans Scalar.tolerance_pos hside
  obtain ⟨x, hx⟩ : ∃ x, (b - a : Vec ℝ).normalized = x := ⟨_, rfl⟩
  obtain ⟨z, hz⟩ : ∃ z, (x.cross (c - a)).normalized = z := ⟨_, rfl⟩
  have hunit : x.length = 1 := by
    rw [← hx, Vec.length_normalized hpos]
  -- the product of the sides has the direction of the product with the unit vector
  have hcross : ((b - a : Vec ℝ).cross (c - a)).normalized = z := by
    rw [← hz, ← Vec.normalized_smul hpos (x.cross (c - a)), ← Vec.smul_cross, ← hx,
      Vec.length_smul_normalized hpos]
  have hsome : ((b - a : Vec ℝ).cross (c - a)).unit? = some z := by
    rw [Vec.unit?_of_lt hskew, ← Vec.normalized, hcross]
  have hnormal : z.length = 1 := Vec.length_of_unit? hsome
  have hacross : Vec.UnitAcross z x := by
    refine ⟨hunit, ?_⟩
    rw [Vec.dot_comm, ← hz, Vec.normalized, Vec.smul_dot, Vec.cross_dot_left, mul_zero]
  have htriple := hacross.rightHanded hnormal
  have hy : z.cross x = ((c - a : Vec ℝ).reject x).normalized := by
    rw [← hz, Vec.normalized_cross_cross hunit]
  unfold throughPoints
  simp only [hsome, Vec.unitOr_of_lt hside]
  rw [← Vec.normalized, hx, Vec.unitOrZero_of_length_eq_one htriple.length_y,
    ofAxes_of_unitAcross _ _ hnormal hacross, spanned, ← hy, htriple.x_cross_y]

/-- **Frames contain what they are built from.**  Through a line and a point, the origin is the
start of the line, the first axis is its direction, and the point lies in the plane on the side of
the second axis, if it is off the line.  Through two lines, so does the direction of the second
line, or where that is parallel to the first line the start of the second, if it is off the first.
Through three points that are not on a line, the origin is the first, the second lies on the first
axis at its distance, and the third on the side of the second axis. -/
theorem through_contains :
    (∀ (s : Segment ℝ) (p : Point ℝ), Scalar.tolerance < s.length →
      ∃ f : Frame ℝ, throughSegmentAndPoint s p = f ∧
      f.Orthonormal ∧ f.origin = s.start ∧ f.xAxis = s.direction.normalized ∧
      (Scalar.tolerance < ((p - s.start : Vec ℝ).reject s.direction.normalized).length →
        f.LiesBeside p)) ∧
    (∀ first second : Segment ℝ, Scalar.tolerance < first.length →
      ∃ f : Frame ℝ, throughSegments first second = f ∧
      f.Orthonormal ∧ f.origin = first.start ∧ f.xAxis = first.direction.normalized ∧
      (Scalar.tolerance < (second.direction.reject first.direction.normalized).length →
        0 < second.direction.dot f.yAxis ∧ second.direction.dot f.zAxis = 0) ∧
      ((second.direction.reject first.direction.normalized).length ≤ Scalar.tolerance →
        Scalar.tolerance <
          ((second.start - first.start : Vec ℝ).reject first.direction.normalized).length →
        f.LiesBeside second.start)) ∧
    (∀ a b c : Point ℝ,
      Scalar.tolerance < ((b - a : Vec ℝ).cross (c - a)).length →
      Scalar.tolerance < (b - a : Vec ℝ).length →
      ∃ f : Frame ℝ, throughPoints a b c = f ∧
      f.Orthonormal ∧ f.origin = a ∧
      f.coordinates b = ⟨(b - a : Vec ℝ).length, 0, 0⟩ ∧ f.LiesBeside c) := by
  have hdirection : ∀ s : Segment ℝ, Scalar.tolerance < s.length →
      s.direction.unitOr Vec.basisX = s.direction.normalized := by
    intro s h
    exact Vec.unitOr_of_lt h _
  refine ⟨?_, ?_, ?_⟩
  · intro s p h
    have hx := hdirection s h
    refine ⟨_, rfl, ofAxes_orthonormal _ _ _ _, rfl, ?_, liesBeside_alongDirection _ hx⟩
    rw [throughSegmentAndPoint, alongDirection_eq _ hx]
  · intro first second h
    have hx := hdirection first h
    have hone := length_firstAxis hx
    have hagain : first.direction.normalized.unitOr Vec.basisX = first.direction.normalized :=
      Vec.unitOr_of_length_eq_one _ hone
    refine ⟨_, rfl, ofAxes_orthonormal _ _ _ _, rfl, ?_, ?_, ?_⟩
    · rw [throughSegments_eq hx, alongDirection_eq _ hagain]
    · intro hskew
      rw [throughSegments_eq hx, if_neg (not_le.mpr hskew), alongDirection_of_lt _ hagain hskew]
      have hpos := lt_trans Scalar.tolerance_pos hskew
      obtain ⟨hy, hz⟩ := dot_spanned first.start hone hpos
      exact ⟨by rwa [hy], hz⟩
    · intro hparallel hoff
      rw [throughSegments_eq hx, if_pos hparallel]
      exact liesBeside_alongDirection _ hagain hoff
  · intro a b c hskew hside
    have hpos := lt_trans Scalar.tolerance_pos hside
    have hone := Vec.length_normalized hpos
    have hoff := Vec.length_reject_pos hpos (lt_trans Scalar.tolerance_pos hskew)
    refine ⟨_, rfl, throughPoints_orthonormal a b c, ?_⟩
    rw [throughPoints_of_lt hside hskew]
    refine ⟨rfl, ?_, liesBeside_spanned hone hoff⟩
    exact (spanned_orthonormal a hone hoff).coordinates_of_along (Vec.length_smul_normalized hpos).symm

/-- A segment of length two against the first coordinate axis. -/
noncomputable def westward : Segment ℝ :=
  ⟨⟨1, 1, 1⟩, ⟨-1, 1, 1⟩⟩

/-- Beside that segment: a point, a segment that is skew to it, one that is parallel to it, and the
corners of a triangle on it. -/
theorem through_contains_westward :
    Scalar.tolerance < westward.length ∧
    (throughSegmentAndPoint westward ⟨2, 5, 1⟩).LiesBeside ⟨2, 5, 1⟩ ∧
    0 < (Segment.direction ⟨⟨0, 0, 0⟩, ⟨5, 0, 2⟩⟩).dot
      (throughSegments westward ⟨⟨0, 0, 0⟩, ⟨5, 0, 2⟩⟩).yAxis ∧
    (throughSegments westward ⟨⟨0, 5, 1⟩, ⟨-2, 5, 1⟩⟩).LiesBeside ⟨0, 5, 1⟩ ∧
    (throughPoints westward.start westward.stop ⟨2, 5, 1⟩).coordinates westward.stop = ⟨2, 0, 0⟩ ∧
    (throughPoints westward.start westward.stop ⟨2, 5, 1⟩).LiesBeside ⟨2, 5, 1⟩ := by
  obtain ⟨hx, hy, hz⟩ := Vec.length_basis
  have hlong : ∀ {s : ℝ} {v : Vec ℝ}, 1 ≤ s → v.length = 1 → Scalar.tolerance < (s • v).length := by
    intro s v hs hv
    rw [Vec.length_smul, hv, mul_one, abs_of_nonneg (le_trans zero_le_one hs)]
    exact lt_of_lt_of_le Scalar.tolerance_lt_one hs
  have hback : (-Vec.basisX : Vec ℝ).length = 1 := (Vec.length_neg _).trans hx
  have hdown : (-Vec.basisZ : Vec ℝ).length = 1 := (Vec.length_neg _).trans hz
  have hdirection : westward.direction = (2 : ℝ) • -Vec.basisX := by
    ext <;> norm_num [Segment.direction, westward, Point.sub_eq_toVec_sub, Point.toVec, Vec.basisX]
  have hnormalized : westward.direction.normalized = -Vec.basisX := by
    rw [hdirection, Vec.normalized_smul two_pos, Vec.normalized_of_length_eq_one hback]
  have hlength : Scalar.tolerance < westward.direction.length := by
    rw [hdirection]
    exact hlong (by norm_num) hback
  -- the parts across the segment
  have hpoint : ((⟨2, 5, 1⟩ : Point ℝ) - westward.start : Vec ℝ).reject (-Vec.basisX) =
      (4 : ℝ) • Vec.basisY := by
    ext <;> norm_num [Vec.reject, westward, Point.sub_eq_toVec_sub, Point.toVec, Vec.basisX,
      Vec.basisY, Vec.dot_eq]
  have hskew : (Segment.direction ⟨⟨0, 0, 0⟩, ⟨5, 0, 2⟩⟩ : Vec ℝ).reject (-Vec.basisX) =
      (2 : ℝ) • Vec.basisZ := by
    ext <;> norm_num [Vec.reject, Segment.direction, Point.sub_eq_toVec_sub, Point.toVec, Vec.basisX,
      Vec.basisZ, Vec.dot_eq]
  have hparallel : (Segment.direction ⟨⟨0, 5, 1⟩, ⟨-2, 5, 1⟩⟩ : Vec ℝ).reject (-Vec.basisX) = 0 := by
    ext <;> norm_num [Vec.reject, Segment.direction, Point.sub_eq_toVec_sub, Point.toVec, Vec.basisX,
      Vec.dot_eq]
  have hoffset : ((⟨0, 5, 1⟩ : Point ℝ) - westward.start : Vec ℝ).reject (-Vec.basisX) =
      (4 : ℝ) • Vec.basisY := by
    ext <;> norm_num [Vec.reject, westward, Point.sub_eq_toVec_sub, Point.toVec, Vec.basisX,
      Vec.basisY, Vec.dot_eq]
  have hcross : westward.direction.cross ((⟨2, 5, 1⟩ : Point ℝ) - westward.start) =
      (8 : ℝ) • -Vec.basisZ := by
    rw [hdirection]
    ext <;> norm_num [Vec.cross_eq, westward, Point.sub_eq_toVec_sub, Point.toVec, Vec.basisX,
      Vec.basisZ]
  obtain ⟨hline, hlines, hpoints⟩ := through_contains
  obtain ⟨_, rfl, -, -, -, hbeside⟩ := hline westward ⟨2, 5, 1⟩ hlength
  obtain ⟨_, rfl, -, -, -, hside, -⟩ := hlines westward ⟨⟨0, 0, 0⟩, ⟨5, 0, 2⟩⟩ hlength
  obtain ⟨_, rfl, -, -, -, -, hstart⟩ := hlines westward ⟨⟨0, 5, 1⟩, ⟨-2, 5, 1⟩⟩ hlength
  obtain ⟨_, rfl, -, -, hstop, hcorner⟩ := hpoints westward.start westward.stop ⟨2, 5, 1⟩
    (lt_of_lt_of_eq (hlong (by norm_num) hdown) (congrArg Vec.length hcross.symm)) hlength
  rw [hnormalized, hpoint] at hbeside
  rw [hnormalized, hskew] at hside
  rw [hnormalized, hparallel, hoffset] at hstart
  have htwo : (westward.stop - westward.start : Vec ℝ).length = 2 := by
    show westward.direction.length = 2
    rw [hdirection, Vec.length_smul, hback, mul_one, abs_of_pos two_pos]
  refine ⟨hlength, hbeside (hlong (by norm_num) hy), (hside (hlong (by norm_num) hz)).1,
    hstart ?_ (hlong (by norm_num) hy), ?_, hcorner⟩
  · rw [Vec.length_zero]
    exact le_of_lt Scalar.tolerance_pos
  · rw [hstop, htwo]

end Frame

end FieldGeometry
