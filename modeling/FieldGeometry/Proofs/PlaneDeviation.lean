import FieldGeometry.Proofs.PlaneFitting

/-!
# The deviation of a fitted plane

The deviation that a fit reports is the largest distance of a point from the plane, in exact
arithmetic, wherever the fit finds a direction in the points.

**Resolved points.**  None or one is on its plane, two with a direction between them are on a plane
along it, and for three or more that are no cluster the distances are measured
(`isLargestDistance_of_not_unresolved`).

**Unresolved points.**  Two points without a direction between them and the points of a cluster are
fitted by a horizontal plane, and zero is reported without looking at their heights
(`ofPoints_of_unresolved`).  An eigenvalue is a squared length, so the points of a cluster may be
apart by far more than the resolution: `deviation_column_zero` has three of them.
-/

namespace FieldGeometry

/-- The first coordinate axis is crossed by the third. -/
theorem Vec.orthogonal_basisX : (Vec.basisX : Vec ℝ).orthogonal = Vec.basisZ := by
  have hcandidate : (⟨-0, 0, 1⟩ : Vec ℝ) = Vec.basisZ := by
    rw [neg_zero]
    rfl
  have horthogonal : (Vec.basisX : Vec ℝ).orthogonal = (⟨-0, 0, 1⟩ : Vec ℝ).unitOr Vec.basisX := by
    norm_num [Vec.orthogonal, Vec.basisX]
  rw [horthogonal, hcandidate, Vec.unitOr_of_length_eq_one _ Vec.length_basis.2.2]

namespace PlaneFit

section Largest

variable {f : Frame ℝ} {ps : List (Point ℝ)}

/-- The largest distance of points from the plane of a frame, which is zero where there are no
points. -/
def IsLargestDistance (f : Frame ℝ) (ps : List (Point ℝ)) (d : ℝ) : Prop :=
  ps = [] ∧ d = 0 ∨ IsGreatest {r | ∃ p ∈ ps, r = |(f.coordinates p).z|} d

theorem isLargestDistance_largestDistance (f : Frame ℝ) (ps : List (Point ℝ)) :
    IsLargestDistance f ps (largestDistance f ps) := by
  obtain ⟨hmem, hle⟩ :=
    Scalar.isGreatest_foldl_maxNum 0 (ps.map fun p => Scalar.abs (f.coordinates p).z)
  have hbound : ∀ p ∈ ps, |(f.coordinates p).z| ≤ largestDistance f ps := fun p hp =>
    hle (List.mem_cons_of_mem _ (List.mem_map_of_mem hp))
  have hupper : largestDistance f ps ∈ upperBounds {r | ∃ p ∈ ps, r = |(f.coordinates p).z|} := by
    rintro _ ⟨p, hp, rfl⟩
    exact hbound p hp
  rcases List.mem_cons.mp hmem with hzero | hmap
  · -- zero is the start of the fold: there are no points, or all are on the plane
    cases ps with
    | nil =>
        exact Or.inl ⟨rfl, rfl⟩
    | cons p rest =>
        refine Or.inr ⟨⟨p, List.mem_cons_self, ?_⟩, hupper⟩
        have hp := hbound p List.mem_cons_self
        rw [largestDistance, hzero] at hp ⊢
        exact le_antisymm (abs_nonneg _) hp
  · obtain ⟨p, hp, heq⟩ := List.mem_map.mp hmap
    exact Or.inr ⟨⟨p, hp, heq.symm⟩, hupper⟩

/-- Zero is the largest distance exactly when all points are on the plane. -/
theorem isLargestDistance_zero_iff :
    IsLargestDistance f ps 0 ↔ ∀ p ∈ ps, (f.coordinates p).z = 0 := by
  constructor
  · rintro (⟨rfl, -⟩ | ⟨-, hupper⟩) p hp
    · exact absurd hp List.not_mem_nil
    · exact abs_nonpos_iff.mp (hupper ⟨p, hp, rfl⟩)
  · intro hon
    cases ps with
    | nil =>
        exact Or.inl ⟨rfl, rfl⟩
    | cons p rest =>
        refine Or.inr ⟨⟨p, List.mem_cons_self, ?_⟩, ?_⟩
        · rw [hon p List.mem_cons_self, abs_zero]
        · rintro _ ⟨q, hq, rfl⟩
          rw [hon q hq, abs_zero]

theorem z_sq_le_dot_self (v : Vec ℝ) : v.z ^ 2 ≤ v.dot v := by
  rw [Vec.dot_eq]
  linarith [mul_self_nonneg v.x, mul_self_nonneg v.y, pow_two v.z]

/-- The distance from a horizontal plane is a difference of heights. -/
theorem coordinates_of_horizontal
    (h : f.zAxis = Vec.basisZ)
    (p : Point ℝ) :
    (f.coordinates p).z = p.z - f.origin.z := by
  show (p - f.origin).dot f.zAxis = _
  rw [h, Vec.dot_basisZ]
  rfl

end Largest

section Fits

/-- The fit finds no direction in the points: two points have none between them, or three or more
are a cluster about their centroid. -/
inductive Unresolved : List (Point ℝ) → Prop
  | pair {p q : Point ℝ} (h : (q - p).length ≤ Scalar.tolerance) : Unresolved [p, q]
  | cluster {ps : List (Point ℝ)} {c : Point ℝ} (hcount : 3 ≤ ps.length)
      (hcentroid : Point.centroid? ps = some c) (h : Clustered c ps) : Unresolved ps

/-- Two points are fitted by a plane across a unit vector perpendicular to their direction. -/
theorem ofPoints_pair (p q : Point ℝ) :
    (ofPoints [p, q]).frame.origin = p ∧
      (ofPoints [p, q]).frame.zAxis = ((q - p).unitOr Vec.basisX).orthogonal ∧
      (ofPoints [p, q]).deviation = 0 := by
  have hunit := Vec.length_unitOr (v := q - p) Vec.length_basis.1
  have hnormal := (Vec.orthogonal_of_length_eq_one hunit).length_eq_one
  exact ⟨rfl, Vec.unitOr_of_length_eq_one _ hnormal, rfl⟩

variable {ps : List (Point ℝ)}

/-- Two points with a direction between them are on the plane fitted to them. -/
theorem coordinates_of_resolved_pair
    {p q : Point ℝ}
    (h : Scalar.tolerance < (q - p).length) :
    ∀ r ∈ [p, q], ((ofPoints [p, q]).frame.coordinates r).z = 0 := by
  obtain ⟨horigin, hnormal, -⟩ := ofPoints_pair p q
  have hlength : (q - p).length⁻¹ ≠ 0 := inv_ne_zero (ne_of_gt (lt_trans Scalar.tolerance_pos h))
  have hunit : ((q - p).unitOr Vec.basisX).length = 1 := Vec.length_unitOr Vec.length_basis.1
  have hperp := (Vec.orthogonal_of_length_eq_one hunit).dot_eq_zero
  rw [← hnormal, Vec.unitOr_of_lt h, Vec.dot_smul, Vec.dot_comm] at hperp
  have hzero := (mul_eq_zero.mp hperp).resolve_left hlength
  intro r hr
  show (r - (ofPoints [p, q]).frame.origin).dot (ofPoints [p, q]).frame.zAxis = 0
  rw [horigin]
  simp only [List.mem_cons, List.not_mem_nil, or_false] at hr
  rcases hr with rfl | rfl
  · rw [Point.sub_self_eq, Vec.zero_dot]
  · exact hzero

/-- Of the points in which the fit finds a direction, the largest distance is reported. -/
theorem isLargestDistance_of_not_unresolved (h : ¬ Unresolved ps) :
    IsLargestDistance (ofPoints ps).frame ps (ofPoints ps).deviation := by
  by_cases hcount : 3 ≤ ps.length
  · have hne : ps ≠ [] := by
      rintro rfl
      simp at hcount
    obtain ⟨c, hcentroid⟩ := Point.exists_centroid hne
    have hnot : ¬ Clustered c ps := fun hclustered => h (.cluster hcount hcentroid hclustered)
    obtain ⟨lead, -, hfit⟩ := ofPoints_of_three_le hcount hcentroid
    obtain ⟨-, -, -, -, -, hdeviation⟩ := leastScatter_of_not_clustered hnot lead
    rw [hfit, hdeviation]
    exact isLargestDistance_largestDistance _ _
  · obtain _ | ⟨p, _ | ⟨q, _ | ⟨r, rest⟩⟩⟩ := ps
    · exact Or.inl ⟨rfl, rfl⟩
    · apply isLargestDistance_zero_iff.mpr
      intro q hq
      rw [List.mem_singleton.mp hq]
      show (p - p).dot _ = 0
      rw [Point.sub_self_eq, Vec.zero_dot]
    · apply isLargestDistance_zero_iff.mpr
      exact coordinates_of_resolved_pair (not_le.mp fun hle => h (.pair hle))
    · simp at hcount

/-- Points without a direction are fitted by a horizontal plane close to them, and no deviation is
reported. -/
theorem ofPoints_of_unresolved (h : Unresolved ps) :
    (ofPoints ps).deviation = 0 ∧ (ofPoints ps).frame.zAxis = Vec.basisZ ∧
      ∀ p ∈ ps, (p - (ofPoints ps).frame.origin).dot (p - (ofPoints ps).frame.origin) ≤
        3 * Scalar.tolerance := by
  cases h with
  | @pair p q h =>
      obtain ⟨horigin, hnormal, hdeviation⟩ := ofPoints_pair p q
      rw [Vec.unitOr_of_le h, Vec.orthogonal_basisX] at hnormal
      refine ⟨hdeviation, hnormal, ?_⟩
      have hsq : (q - p).dot (q - p) ≤ 3 * Scalar.tolerance := by
        rw [← Vec.length_sq]
        nlinarith [Vec.length_nonneg (q - p), Scalar.tolerance_lt_one]
      rw [horigin]
      intro r hr
      simp only [List.mem_cons, List.not_mem_nil, or_false] at hr
      rcases hr with rfl | rfl
      · rw [Point.sub_self_eq, Vec.zero_dot]
        linarith [Scalar.tolerance_pos]
      · exact hsq
  | @cluster _ c hcount hcentroid h =>
      rw [ofPoints_of_clustered hcount hcentroid h]
      refine ⟨rfl, rfl, ?_⟩
      intro p hp
      exact le_trans (dot_self_le_trace c hp) h.trace_le

end Fits

section Column

/-- Three points of a vertical line, one above and one below the origin. -/
def column (h : ℝ) : List (Point ℝ) :=
  [⟨0, 0, 0⟩, ⟨0, 0, h⟩, ⟨0, 0, -h⟩]

theorem centroid_column (h : ℝ) : Point.centroid? (column h) = some Point.origin := by
  apply Point.centroid_of_sum_eq_zero
  · simp [column]
  · ext <;> simp [column, Point.toVec]

theorem trace_column (h : ℝ) : (scatter Point.origin (column h)).trace = 2 * h ^ 2 := by
  rw [trace_scatter]
  simp only [Point.sub_origin, column, Point.toVec, Vec.dot_eq, List.map_cons, List.map_nil,
    List.sum_cons, List.sum_nil]
  ring

theorem clustered_column
    {h : ℝ}
    (hsmall : 2 * h ^ 2 ≤ 1 / 10 ^ 9) :
    Clustered Point.origin (column h) := by
  apply clustered_of_trace_le
  rw [trace_column, Scalar.tolerance_exact]
  exact le_trans hsmall (by norm_num)

theorem unresolved_column
    {h : ℝ}
    (hsmall : 2 * h ^ 2 ≤ 1 / 10 ^ 9) :
    Unresolved (column h) :=
  .cluster (by simp [column]) (centroid_column h) (clustered_column hsmall)

theorem not_unresolved_column
    {h : ℝ}
    (hlarge : 3 / 10 ^ 9 < 2 * h ^ 2) :
    ¬ Unresolved (column h) := by
  intro hunresolved
  generalize hps : column h = ps at hunresolved
  cases hunresolved with
  | pair _ =>
      simp [column] at hps
  | cluster _ hcentroid hclustered =>
      rw [← hps, centroid_column, Option.some_inj] at hcentroid
      have htrace := hclustered.trace_le
      rw [← hps, ← hcentroid, trace_column, Scalar.tolerance_exact] at htrace
      norm_num at htrace hlarge
      linarith

end Column

/-- **The deviation of a fit.**  Where the fit finds a direction in the points, the deviation is the
largest distance of a point from the plane.  Where it finds none, the plane is horizontal and closer
to each point than the square root of three times the resolution, and the deviation is zero, which
is the largest distance only if all points are at one height. -/
theorem deviation_ofPoints (ps : List (Point ℝ)) :
    (¬ Unresolved ps → IsLargestDistance (ofPoints ps).frame ps (ofPoints ps).deviation) ∧
    (Unresolved ps →
      (ofPoints ps).deviation = 0 ∧
      (∀ p ∈ ps, ((ofPoints ps).frame.coordinates p).z ^ 2 ≤ 3 / 10 ^ 9) ∧
      (IsLargestDistance (ofPoints ps).frame ps (ofPoints ps).deviation ↔
        ∀ p ∈ ps, p.z = (ofPoints ps).frame.origin.z)) := by
  refine ⟨isLargestDistance_of_not_unresolved, ?_⟩
  intro h
  obtain ⟨hdeviation, hnormal, hclose⟩ := ofPoints_of_unresolved h
  have hheight := coordinates_of_horizontal hnormal
  refine ⟨hdeviation, ?_, ?_⟩
  · intro p hp
    rw [hheight]
    calc (p.z - (ofPoints ps).frame.origin.z) ^ 2
        ≤ (p - (ofPoints ps).frame.origin).dot (p - (ofPoints ps).frame.origin) :=
          z_sq_le_dot_self (p - (ofPoints ps).frame.origin)
      _ ≤ 3 * Scalar.tolerance := hclose p hp
      _ = 3 / 10 ^ 9 := by norm_num [Scalar.tolerance_exact]
  · rw [hdeviation, isLargestDistance_zero_iff]
    simp only [hheight, sub_eq_zero]

/-- Three points of a line that are one apart are measured, and three that are `1 / 50000` apart are
a cluster. -/
theorem deviation_ofPoints_columns :
    ¬ Unresolved (column 1) ∧
    IsLargestDistance (ofPoints (column 1)).frame (column 1) (ofPoints (column 1)).deviation ∧
    Unresolved (column (1 / 50000)) ∧
    (ofPoints (column (1 / 50000))).deviation = 0 ∧
    ∀ p ∈ column (1 / 50000),
      ((ofPoints (column (1 / 50000))).frame.coordinates p).z ^ 2 ≤ 3 / 10 ^ 9 := by
  have hapart : ¬ Unresolved (column 1) := not_unresolved_column (by norm_num)
  have hcluster : Unresolved (column (1 / 50000)) := unresolved_column (by norm_num)
  obtain ⟨hdeviation, hclose, -⟩ := (deviation_ofPoints _).2 hcluster
  exact ⟨hapart, (deviation_ofPoints _).1 hapart, hcluster, hdeviation, hclose⟩

/-- No deviation is reported for three points of a vertical line, although the plane fitted to them
is horizontal and one of them is `1 / 50000` above it. -/
theorem deviation_column_zero :
    (ofPoints (column (1 / 50000))).deviation = 0 ∧
    ⟨0, 0, 1 / 50000⟩ ∈ column (1 / 50000) ∧
    |((ofPoints (column (1 / 50000))).frame.coordinates ⟨0, 0, 1 / 50000⟩).z| = 1 / 50000 ∧
    ¬ IsLargestDistance (ofPoints (column (1 / 50000))).frame (column (1 / 50000))
      (ofPoints (column (1 / 50000))).deviation := by
  have hclustered : Clustered Point.origin (column (1 / 50000)) := clustered_column (by norm_num)
  have hfit := ofPoints_of_clustered (by simp [column]) (centroid_column (1 / 50000)) hclustered
  have hmem : (⟨0, 0, 1 / 50000⟩ : Point ℝ) ∈ column (1 / 50000) := by
    simp [column]
  have hheight : ((Frame.worldXY Point.origin : Frame ℝ).coordinates ⟨0, 0, 1 / 50000⟩).z =
      1 / 50000 := by
    rw [coordinates_of_horizontal rfl]
    exact sub_zero _
  rw [hfit]
  refine ⟨rfl, hmem, ?_, ?_⟩
  · rw [exact, hheight, abs_of_pos (by norm_num)]
  · intro hlargest
    have hzero := isLargestDistance_zero_iff.mp hlargest _ hmem
    rw [exact, hheight] at hzero
    norm_num at hzero

end PlaneFit

end FieldGeometry
