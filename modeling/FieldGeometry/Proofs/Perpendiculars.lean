import FieldGeometry.Proofs.Vectors

/-!
# Unit vectors across a vector

A unit vector perpendicular to a given one is made from two of its coordinates: the shortest is left
out.  What is left is shorter than the vector, and it is held against the same tolerance.

A vector is perpendicular to what is found exactly when it is above the tolerance without its
shortest coordinate (`orthogonal_perpendicular_iff`).  All vectors longer than the tolerance by a
factor of `√(3/2)` are.  Between the two lengths there are vectors that carry a direction and get
the first axis instead: `orthogonal_diagonal_falls_back` has one.
-/

namespace FieldGeometry

namespace Vec

section Across

variable {v : Vec ℝ}

theorem length_orthogonal (v : Vec ℝ) : v.orthogonal.length = 1 := by
  obtain ⟨c, heq, -, -⟩ := v.exists_orthogonal_eq
  rw [heq]
  exact length_unitOr length_basis.1

theorem orthogonal_of_le (h : v.dot v - v.shortest ^ 2 ≤ Scalar.tolerance ^ 2) :
    v.orthogonal = basisX := by
  obtain ⟨c, heq, -, hsq⟩ := v.exists_orthogonal_eq
  have hle : c.length ≤ Scalar.tolerance := by
    apply le_of_sq_le_sq _ (le_of_lt Scalar.tolerance_pos)
    rwa [length_sq, hsq]
  rw [heq, unitOr_of_le hle]

theorem tolerance_sq_lt (h : Scalar.tolerance < v.length) : Scalar.tolerance ^ 2 < v.dot v := by
  rw [← length_sq]
  exact pow_lt_pow_left₀ h (le_of_lt Scalar.tolerance_pos) two_ne_zero

/-- A vector whose first coordinate is zero has no shorter one. -/
theorem shortest_of_x_eq_zero (h : v.x = 0) : v.shortest = 0 := by
  rw [shortest, h, abs_zero]
  exact min_eq_left (le_min (abs_nonneg _) (abs_nonneg _))

end Across

/-- **What is found across a vector.**  For a vector that carries a direction a unit vector is
found.  It is perpendicular to the vector exactly when the vector is above the tolerance without its
shortest coordinate, as is every vector whose squared length is more than three halves of the
squared tolerance; otherwise it is the first axis. -/
theorem orthogonal_perpendicular_iff
    (v : Vec ℝ)
    (h : Scalar.tolerance < v.length) :
    v.orthogonal.length = 1 ∧
    (v.orthogonal.dot v = 0 ↔ Scalar.tolerance ^ 2 < v.dot v - v.shortest ^ 2) ∧
    (3 / 2 * Scalar.tolerance ^ 2 < v.dot v → v.orthogonal.dot v = 0) ∧
    (v.orthogonal.dot v ≠ 0 → v.orthogonal = basisX) := by
  have hfallback : ¬ Scalar.tolerance ^ 2 < v.dot v - v.shortest ^ 2 → v.orthogonal = basisX :=
    fun hshort => orthogonal_of_le (not_lt.mp hshort)
  refine ⟨length_orthogonal v, ⟨?_, ?_⟩, ?_, ?_⟩
  · intro hperp
    by_contra hshort
    -- the first axis is perpendicular to vectors without first coordinate, and these are long enough
    rw [hfallback hshort, dot_comm, dot_basisX] at hperp
    rw [shortest_of_x_eq_zero hperp] at hshort
    exact hshort (by simpa using tolerance_sq_lt h)
  · intro hlong
    exact (orthogonal_unitAcross hlong).dot_eq_zero
  · intro hlong
    apply (orthogonal_unitAcross _).dot_eq_zero
    linarith [v.three_mul_shortest_sq_le]
  · intro hnot
    exact hfallback fun hlong => hnot (orthogonal_unitAcross hlong).dot_eq_zero

section Diagonal

/-- A vector with equal coordinates. -/
def diagonal (t : ℝ) : Vec ℝ :=
  ⟨t, t, t⟩

theorem diagonal_dot (t : ℝ) : (diagonal t).dot (diagonal t) = 3 * t ^ 2 := by
  simp only [diagonal, dot_eq]
  ring

theorem shortest_diagonal (t : ℝ) : (diagonal t).shortest ^ 2 = t ^ 2 := by
  simp only [shortest, diagonal, min_self, sq_abs]

theorem tolerance_lt_length_diagonal
    {t : ℝ}
    (h : 1 / 10 ^ 18 < 3 * t ^ 2) :
    Scalar.tolerance < (diagonal t).length := by
  apply lt_of_pow_lt_pow_left₀ 2 (length_nonneg _)
  rw [length_sq, diagonal_dot, Scalar.tolerance_exact]
  refine lt_of_eq_of_lt ?_ h
  norm_num

end Diagonal

/-- A vector with coordinates of the size of the tolerance is perpendicular to what is found. -/
theorem orthogonal_perpendicular_diagonal :
    Scalar.tolerance < (diagonal (1 / 10 ^ 9)).length ∧
    (diagonal (1 / 10 ^ 9)).orthogonal.length = 1 ∧
    (diagonal (1 / 10 ^ 9)).orthogonal.dot (diagonal (1 / 10 ^ 9)) = 0 := by
  have hlong : Scalar.tolerance < (diagonal (1 / 10 ^ 9)).length :=
    tolerance_lt_length_diagonal (by norm_num)
  obtain ⟨hunit, hperp, -⟩ := orthogonal_perpendicular_iff _ hlong
  refine ⟨hlong, hunit, hperp.mpr ?_⟩
  rw [diagonal_dot, shortest_diagonal, Scalar.tolerance_exact]
  norm_num

/-- A vector whose three coordinates are `0.65` of the tolerance carries a direction, and the first
axis is found across it, which is not perpendicular to it. -/
theorem orthogonal_diagonal_falls_back :
    Scalar.tolerance < (diagonal (13 / (2 * 10 ^ 10))).length ∧
    (diagonal (13 / (2 * 10 ^ 10))).orthogonal = basisX ∧
    (diagonal (13 / (2 * 10 ^ 10))).orthogonal.dot (diagonal (13 / (2 * 10 ^ 10))) ≠ 0 := by
  have haxis : (diagonal (13 / (2 * 10 ^ 10))).orthogonal = basisX := by
    apply orthogonal_of_le
    rw [diagonal_dot, shortest_diagonal, Scalar.tolerance_exact]
    norm_num
  refine ⟨tolerance_lt_length_diagonal (by norm_num), haxis, ?_⟩
  rw [haxis, dot_comm, dot_basisX, diagonal]
  norm_num

end Vec

end FieldGeometry
