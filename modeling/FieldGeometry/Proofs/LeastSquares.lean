import FieldGeometry.Proofs.JacobiProgress
import FieldGeometry.Proofs.PlaneFitting

/-!
# Least squares

The plane fitted to three or more points, in exact arithmetic, against all planes.  A plane is given
by one of its points and a unit normal, and `PlaneFit.sumSqDistance` is the sum of the squared
distances of the points from it.

**The point.**  The offsets from the centroid add up to zero, so moving the plane off the centroid
only adds to the sum (`sumSqDistance_eq_add`).

**The normal.**  Through the centroid the sum is the form of the scatter tensor on the normal
(`form_scatter`).  In the basis of a converged diagonalisation the form of a unit vector is at least
the least diagonal entry, but for the off-diagonal entries that the tolerance leaves
(`SymTensor.le_form_of_unit`), and the fit takes the basis vector of the least one
(`Jacobi.exists_least`).
-/

namespace FieldGeometry

namespace SymTensor

section Combinations

variable (a : SymTensor ℝ) {x y z n : Vec ℝ}

/-- The form on a combination of three vectors, by the forms on these. -/
theorem form_combination (x y z : Vec ℝ) (p q r : ℝ) :
    a.form (p • x + q • y + r • z) (p • x + q • y + r • z) =
      p ^ 2 * a.form x x + q ^ 2 * a.form y y + r ^ 2 * a.form z z +
        2 * (p * q) * a.form x y + 2 * (p * r) * a.form x z + 2 * (q * r) * a.form y z := by
  have hyx : y.dot (a.mulVec x) = x.dot (a.mulVec y) := a.form_comm y x
  have hzx : z.dot (a.mulVec x) = x.dot (a.mulVec z) := a.form_comm z x
  have hzy : z.dot (a.mulVec y) = y.dot (a.mulVec z) := a.form_comm z y
  simp only [form, map_add, map_smul, Vec.add_dot, Vec.dot_add, Vec.smul_dot, Vec.dot_smul, hyx, hzx,
    hzy]
  ring

/-- A mixed term is bounded by the squares of its two coordinates. -/
theorem neg_le_mixed_term
    {e eps : ℝ}
    (he : |e| ≤ eps)
    (s t : ℝ) :
    -((s ^ 2 + t ^ 2) * eps) ≤ 2 * (s * t) * e := by
  have hproduct : |2 * (s * t)| ≤ s ^ 2 + t ^ 2 := by
    rw [abs_le]
    constructor
    · linarith [sq_nonneg (s + t), add_sq s t]
    · linarith [sq_nonneg (s - t), sub_sq s t]
  have hbound : |2 * (s * t) * e| ≤ (s ^ 2 + t ^ 2) * eps := by
    rw [abs_mul]
    exact mul_le_mul hproduct he (abs_nonneg e) (by positivity)
  exact (abs_le.mp hbound).1

/-- In a basis where the off-diagonal entries are at most `eps`, no unit vector falls below the
diagonal entries by more than `2 * eps`. -/
theorem le_form_of_unit
    {d eps : ℝ}
    (h : Vec.RightHanded x y z)
    (hn : n.length = 1)
    (hx : d ≤ a.form x x)
    (hy : d ≤ a.form y y)
    (hz : d ≤ a.form z z)
    (hxy : |a.form x y| ≤ eps)
    (hxz : |a.form x z| ≤ eps)
    (hyz : |a.form y z| ≤ eps) :
    d - 2 * eps ≤ a.form n n := by
  have hcoordinates := h.dot_self n
  rw [Vec.length_eq_one_iff.mp hn] at hcoordinates
  rw [← h.combination_dot n, form_combination]
  generalize x.dot n = p at hcoordinates
  generalize y.dot n = q at hcoordinates
  generalize z.dot n = r at hcoordinates
  have hp := mul_le_mul_of_nonneg_left hx (sq_nonneg p)
  have hq := mul_le_mul_of_nonneg_left hy (sq_nonneg q)
  have hr := mul_le_mul_of_nonneg_left hz (sq_nonneg r)
  have hsum : p ^ 2 * d + q ^ 2 * d + r ^ 2 * d - 2 * ((p ^ 2 + q ^ 2 + r ^ 2) * eps) =
      d - 2 * eps := by
    rw [← hcoordinates]
    linear_combination -d * hcoordinates
  linarith [neg_le_mixed_term hxy p q, neg_le_mixed_term hxz p r, neg_le_mixed_term hyz q r]

end Combinations

end SymTensor

theorem Vec.sum_dot (vs : List (Vec ℝ)) (n : Vec ℝ) :
    vs.sum.dot n = (vs.map fun v => v.dot n).sum := by
  induction vs with
  | nil =>
      simp
  | cons v vs ih =>
      simp [ih]

namespace Jacobi

/-- After a converged diagonalisation no unit vector falls below the least value by more than twice
the tolerance. -/
theorem le_form_of_converged
    {a : SymTensor ℝ}
    {options : Options ℝ}
    (hconverged : (a.diagonalize options).converged = true)
    {d : ℝ}
    (hleast : ∀ pair ∈ (a.diagonalize options).pairs, d ≤ pair.value)
    {n : Vec ℝ}
    (hn : n.length = 1) :
    d - 2 * options.eps ≤ a.form n n := by
  have hinvariant := diagonalize_represents a options
  obtain ⟨hxy, hxz, hyz⟩ := (diagonalize_converged_iff a options).mp hconverged
  simp only [Run.pairs, List.forall_mem_cons, hinvariant.xx, hinvariant.yy, hinvariant.zz] at hleast
  obtain ⟨hx, hy, hz, -⟩ := hleast
  exact a.le_form_of_unit hinvariant.basis hn hx hy hz (le_of_lt hxy) (le_of_lt hxz) (le_of_lt hyz)

end Jacobi

namespace PlaneFit

section Distances

/-- The sum of the squared distances of points from the plane through `o` across the unit vector
`n`. -/
noncomputable def sumSqDistance (ps : List (Point ℝ)) (o : Point ℝ) (n : Vec ℝ) : ℝ :=
  (ps.map fun p => (p - o).dot n ^ 2).sum

variable (ps : List (Point ℝ)) (o : Point ℝ) (n : Vec ℝ)

/-- The scatter tensor measures the distances from the planes through its centre. -/
theorem form_scatter : (scatter o ps).form n n = sumSqDistance ps o n := by
  rw [scatter_eq_sum, SymTensor.sum_form, List.map_map, sumSqDistance]
  congr 1
  apply List.map_congr_left
  intro p _
  simp only [Function.comp_apply, SymTensor.outer_form]
  ring

/-- A plane off the centroid has the sum of its parallel through the centroid and, for every point,
the squared distance of the centroid. -/
theorem sumSqDistance_eq_add
    {ps : List (Point ℝ)}
    {c : Point ℝ}
    (h : Point.centroid? ps = some c) :
    sumSqDistance ps o n = sumSqDistance ps c n + ps.length * (c - o).dot n ^ 2 := by
  have hzero : (ps.map fun p => (p - c).dot n).sum = 0 := by
    have hsum := Vec.sum_dot (ps.map (· - c)) n
    rw [Point.sum_sub_centroid h, Vec.zero_dot, List.map_map] at hsum
    exact hsum.symm
  generalize hd : (c - o).dot n = d
  have hexpand : ∀ p : Point ℝ, (p - o).dot n ^ 2 =
      (p - c).dot n ^ 2 + 2 * d * (p - c).dot n + d ^ 2 := by
    intro p
    rw [← Point.sub_add_sub p c o, Vec.add_dot, hd]
    ring
  simp only [sumSqDistance, hexpand, List.sum_map_add, List.sum_map_mul_left, hzero, mul_zero,
    add_zero, List.map_const', List.sum_replicate, nsmul_eq_mul]

end Distances

/-- **Least squares.**  The plane fitted to three points or more, of which the scatter was
diagonalised and has an eigenvalue above the resolution, goes through the centroid, and no plane has
a sum of squared distances that is less by more than twice the tolerance of the diagonalisation. -/
theorem ofPoints_leastSquares
    {ps : List (Point ℝ)}
    {c : Point ℝ}
    (hcount : 3 ≤ ps.length)
    (hcentroid : Point.centroid? ps = some c)
    (hconverged : (scatter c ps).diagonalize.converged = true)
    (hspread : ∃ pair ∈ (scatter c ps).diagonalize.pairs, 1 / 10 ^ 9 < |pair.value|) :
    (ofPoints ps).frame.origin = c ∧
    ∀ (o : Point ℝ) (n : Vec ℝ), n.length = 1 →
      sumSqDistance ps (ofPoints ps).frame.origin (ofPoints ps).frame.zAxis ≤
        sumSqDistance ps o n + 2 / 10 ^ 10 := by
  have hnot : ¬ Clustered c ps := by
    intro hclustered
    obtain ⟨pair, hmem, hlarge⟩ := hspread
    have hsmall := hclustered pair hmem
    rw [Scalar.tolerance_exact] at hsmall
    norm_num at hlarge hsmall
    linarith
  obtain ⟨lead, -, hfit⟩ := ofPoints_of_three_le hcount hcentroid
  obtain ⟨least, hmem, hleast, horigin, hnormal, -⟩ := leastScatter_of_not_clustered hnot lead
  have hinvariant := Jacobi.diagonalize_represents (scatter c ps) .standard
  have hvalue := (Jacobi.pairs_form hinvariant hmem).2
  rw [hfit, horigin, hnormal]
  refine ⟨rfl, ?_⟩
  intro o n hn
  have hdiagonal := Jacobi.le_form_of_converged hconverged hleast hn
  have htolerance : (Jacobi.Options.standard : Jacobi.Options ℝ).eps = 1 / 10 ^ 10 := by
    norm_num [Jacobi.Options.standard, Scalar.eigenTolerance]
  have hoffset : 0 ≤ (ps.length : ℝ) * (c - o).dot n ^ 2 := by positivity
  rw [form_scatter, htolerance] at hdiagonal
  rw [hvalue, form_scatter] at hdiagonal
  rw [sumSqDistance_eq_add o n hcentroid]
  linarith

/-- Four points of a plane through the first coordinate axis. -/
noncomputable def tiltedCross : List (Point ℝ) :=
  [⟨1, 0, 0⟩, ⟨-1, 0, 0⟩, ⟨0, 1, 1⟩, ⟨0, -1, -1⟩]

theorem centroid_tiltedCross : Point.centroid? tiltedCross = some Point.origin := by
  apply Point.centroid_of_sum_eq_zero
  · simp [tiltedCross]
  · ext <;> norm_num [tiltedCross, Point.toVec]

theorem scatter_tiltedCross :
    scatter Point.origin tiltedCross = ⟨1 + 1, 0, 0, 1 + 1, 1 + 1, 1 + 1⟩ := by
  simp only [scatter_eq_sum, Point.sub_origin]
  ext <;> norm_num [tiltedCross, Point.toVec, SymTensor.outer, SymTensor.add_entries,
    SymTensor.zero_entries]

/-- One rotation finds the plane of the four points: their squared distances from the plane fitted
to them add up to no more than twice the tolerance of the diagonalisation. -/
theorem ofPoints_leastSquares_tiltedCross :
    3 ≤ tiltedCross.length ∧
    Point.centroid? tiltedCross = some Point.origin ∧
    (scatter Point.origin tiltedCross).diagonalize.converged = true ∧
    (∃ pair ∈ (scatter Point.origin tiltedCross).diagonalize.pairs, 1 / 10 ^ 9 < |pair.value|) ∧
    (ofPoints tiltedCross).frame.origin = Point.origin ∧
    sumSqDistance tiltedCross (ofPoints tiltedCross).frame.origin
      (ofPoints tiltedCross).frame.zAxis ≤ 2 / 10 ^ 10 := by
  have hcount : 3 ≤ tiltedCross.length := by
    simp [tiltedCross]
  have hconverged : (scatter Point.origin tiltedCross).diagonalize.converged = true := by
    have hpivot : Jacobi.pivot
        (Jacobi.State.initial (scatter Point.origin tiltedCross)).tensor = .yz := by
      norm_num [scatter_tiltedCross, Jacobi.State.initial, Jacobi.pivot, Jacobi.Plane.entry]
    have hstep : (Jacobi.State.initial (scatter Point.origin tiltedCross)).step.tensor.offDiagonalSq =
        0 := by
      rw [Jacobi.State.step, Jacobi.State.offDiagonalSq_rotate, hpivot]
      norm_num [Jacobi.State.initial, scatter_tiltedCross, SymTensor.offDiagonalSq,
        Jacobi.Plane.entry]
    have heps : (0 : ℝ) < Scalar.eigenTolerance := by
      norm_num [Scalar.eigenTolerance]
    have hdiagonal := Jacobi.State.isDiagonal_of_offDiagonalSq_lt heps (hstep ▸ pow_pos heps 2)
    exact (SymTensor.converged_of_isDiagonal (n := 1) hdiagonal (by norm_num)).1
  have hspread : ∃ pair ∈ (scatter Point.origin tiltedCross).diagonalize.pairs,
      1 / 10 ^ 9 < |pair.value| := by
    by_contra hnone
    have hclustered : Clustered Point.origin tiltedCross := by
      intro pair hpair
      have hsmall := not_lt.mp fun hlarge => hnone ⟨pair, hpair, hlarge⟩
      rw [Scalar.tolerance_exact]
      exact le_trans hsmall (by norm_num)
    have htrace := hclustered.trace_le
    rw [scatter_tiltedCross, Scalar.tolerance_exact, SymTensor.trace] at htrace
    norm_num at htrace
  obtain ⟨horigin, hleast⟩ :=
    ofPoints_leastSquares hcount centroid_tiltedCross hconverged hspread
  -- the plane that contains the four points
  have hunit : (⟨0, √(1 / 2), -√(1 / 2)⟩ : Vec ℝ).length = 1 := by
    have hroot : √(1 / 2) * √(1 / 2) = (1 / 2 : ℝ) := Real.mul_self_sqrt (by norm_num)
    rw [Vec.length_eq_one_iff, Vec.dot_eq]
    simp only [neg_mul_neg, hroot]
    norm_num
  have hplane : sumSqDistance tiltedCross Point.origin ⟨0, √(1 / 2), -√(1 / 2)⟩ = 0 := by
    rw [← form_scatter, scatter_tiltedCross, SymTensor.form_eq]
    ring
  have hbound := hleast Point.origin _ hunit
  rw [hplane, zero_add] at hbound
  exact ⟨hcount, centroid_tiltedCross, hconverged, hspread, horigin, hbound⟩

end PlaneFit

end FieldGeometry
