import FieldGeometry.Proofs.JacobiInvariant

/-!
# Accuracy of the eigenvalues

What a diagonalisation answers, in exact arithmetic.  The three vectors are always a right-handed
triple of unit vectors, the three values are the values of the form on them, and they add up to the
trace.  A converged run says more: each vector is an eigenvector for its value up to the tolerance.

**The pivot.**  The run looks at one off-diagonal entry only, the pivot.  It is the largest one
(`entry_le_pivot`), so the test on the pivot is a test on all three (`isDiagonal_iff`), and a run
reports convergence exactly when its last tensor passes that test (`runFrom_converged`).

**The residual.**  In the basis of the run the residual `a v - (vᵀ a v) v` of a basis vector has no
coordinate along that vector, and its other two coordinates are off-diagonal entries
(`residual_sq`).
-/

namespace FieldGeometry

namespace Jacobi

section Pivot

variable (m : SymTensor ℝ)

theorem entry_le_pivot (plane : Plane) : |plane.entry m| ≤ |(pivot m).entry m| := by
  -- the larger of the first two entries is met first, then compared with the third
  have hfirst : ∃ first : Plane,
      |m.xy| ≤ |first.entry m| ∧ |m.xz| ≤ |first.entry m| ∧
      pivot m = if |first.entry m| < |m.yz| then .yz else first := by
    by_cases h : |m.xy| < |m.xz|
    · refine ⟨.xz, le_of_lt h, le_refl _, ?_⟩
      simp [pivot, h]
    · refine ⟨.xy, le_refl _, not_lt.mp h, ?_⟩
      simp [pivot, h]
  obtain ⟨first, hxy, hxz, hpivot⟩ := hfirst
  rw [hpivot]
  split_ifs with hlast
  · have hle : |first.entry m| ≤ |m.yz| := le_of_lt hlast
    cases plane with
    | xy =>
        exact le_trans hxy hle
    | xz =>
        exact le_trans hxz hle
    | yz =>
        exact le_refl _
  · cases plane with
    | xy =>
        exact hxy
    | xz =>
        exact hxz
    | yz =>
        exact not_lt.mp hlast

/-- The test on the pivot is a test on all off-diagonal entries. -/
theorem State.isDiagonal_iff (s : State ℝ) (eps : ℝ) :
    s.isDiagonal eps = true ↔ ∀ plane : Plane, |plane.entry s.tensor| < eps := by
  unfold State.isDiagonal
  rw [decide_eq_true_iff, Scalar.abs_exact]
  constructor
  · intro h plane
    exact lt_of_le_of_lt (entry_le_pivot s.tensor plane) h
  · intro h
    exact h (pivot s.tensor)

end Pivot

/-- A run reports whether its last tensor is diagonal, on whichever side it ended. -/
theorem runFrom_converged
    {α : Type}
    [Scalar α]
    (eps : α)
    (budget done : ℕ)
    (s : State α) :
    (runFrom eps budget done s).converged =
      (runFrom eps budget done s).state.isDiagonal eps := by
  induction budget generalizing done s with
  | zero =>
      rfl
  | succ budget ih =>
      rw [runFrom]
      split_ifs with hdiagonal
      · exact hdiagonal.symm
      · exact ih (done + 1) s.step

/-- A diagonalisation has converged exactly when the form of each two of its vectors is below the
tolerance. -/
theorem diagonalize_converged_iff (a : SymTensor ℝ) (options : Options ℝ) :
    (a.diagonalize options).converged = true ↔
      |a.form (a.diagonalize options).state.first (a.diagonalize options).state.second| <
          options.eps ∧
      |a.form (a.diagonalize options).state.first (a.diagonalize options).state.third| <
          options.eps ∧
      |a.form (a.diagonalize options).state.second (a.diagonalize options).state.third| <
          options.eps := by
  have hinvariant := diagonalize_represents a options
  have hconverged : (a.diagonalize options).converged =
      (a.diagonalize options).state.isDiagonal options.eps := runFrom_converged _ _ _ _
  rw [hconverged, State.isDiagonal_iff, ← hinvariant.xy, ← hinvariant.xz, ← hinvariant.yz]
  constructor
  · intro h
    exact ⟨h .xy, h .xz, h .yz⟩
  · rintro ⟨hxy, hxz, hyz⟩ plane
    cases plane with
    | xy =>
        exact hxy
    | xz =>
        exact hxz
    | yz =>
        exact hyz

section Residual

variable {x y z : Vec ℝ} (h : Vec.RightHanded x y z) (a : SymTensor ℝ)
include h

/-- The residual of the first vector of a triple lies across it, and the forms with the other two
are its coordinates. -/
theorem residual_sq :
    (a.mulVec x - a.form x x • x).length ^ 2 = a.form y x ^ 2 + a.form z x ^ 2 := by
  have hxx : x.dot x = 1 := Vec.length_eq_one_iff.mp h.length_x
  have hyx : y.dot x = 0 := by rw [Vec.dot_comm, h.x_dot_y]
  have halong : x.dot (a.mulVec x - a.form x x • x) = 0 := by
    rw [Vec.dot_sub, Vec.dot_smul, hxx, SymTensor.form]
    ring
  have hsecond : y.dot (a.mulVec x - a.form x x • x) = a.form y x := by
    rw [Vec.dot_sub, Vec.dot_smul, hyx, mul_zero, sub_zero, SymTensor.form]
  have hthird : z.dot (a.mulVec x - a.form x x • x) = a.form z x := by
    rw [Vec.dot_sub, Vec.dot_smul, h.z_dot_x, mul_zero, sub_zero, SymTensor.form]
  rw [Vec.length_sq, h.dot_self, halong, hsecond, hthird]
  ring

theorem residual_le
    {value eps : ℝ}
    (hvalue : value = a.form x x)
    (hy : |a.form y x| < eps)
    (hz : |a.form z x| < eps) :
    (a.mulVec x - value • x).length ^ 2 ≤ 2 * eps ^ 2 := by
  have hsq : ∀ r : ℝ, |r| < eps → r ^ 2 ≤ eps ^ 2 := by
    intro r hr
    rw [← sq_abs]
    exact pow_le_pow_left₀ (abs_nonneg r) (le_of_lt hr) 2
  rw [hvalue, residual_sq h]
  linarith [hsq _ hy, hsq _ hz]

end Residual

end Jacobi

/-- **What a diagonalisation answers.**  For every budget and tolerance the vectors are a
right-handed orthonormal triple, each value is the form of its vector, and the values add up to the
trace.  The run has converged exactly when the mixed forms are below the tolerance, and then each
vector is an eigenvector for its value up to a residual of at most the tolerance along each of the
other two. -/
theorem SymTensor.diagonalize_pairs
    (a : SymTensor ℝ)
    (options : Jacobi.Options ℝ) :
    ∃ d e f : Jacobi.EigenPair ℝ,
      (a.diagonalize options).pairs = [d, e, f] ∧
      Vec.RightHanded d.vector e.vector f.vector ∧
      (d.value = a.form d.vector d.vector ∧ e.value = a.form e.vector e.vector ∧
        f.value = a.form f.vector f.vector) ∧
      d.value + e.value + f.value = a.trace ∧
      ((a.diagonalize options).converged = true ↔
        [d, e, f].Pairwise fun p q =>
          |a.form p.vector q.vector| < options.eps ∧ |a.form q.vector p.vector| < options.eps) ∧
      ((a.diagonalize options).converged = true →
        ∀ p ∈ [d, e, f],
          (a.mulVec p.vector - p.value • p.vector).length ^ 2 ≤ 2 * options.eps ^ 2) := by
  have hinvariant := Jacobi.diagonalize_represents a options
  have hconverged := Jacobi.diagonalize_converged_iff a options
  generalize a.diagonalize options = r at hinvariant hconverged
  obtain ⟨s, rotations, converged⟩ := r
  have hbasis : Vec.RightHanded s.first s.second s.third := hinvariant.basis
  refine ⟨⟨s.tensor.xx, s.first⟩, ⟨s.tensor.yy, s.second⟩, ⟨s.tensor.zz, s.third⟩, rfl, hbasis,
    ⟨hinvariant.xx, hinvariant.yy, hinvariant.zz⟩, hinvariant.trace, ?_, ?_⟩
  · rw [hconverged]
    simp only [List.pairwise_cons, List.mem_cons, List.not_mem_nil, or_false, forall_eq_or_imp,
      forall_eq, a.form_comm s.second s.first, a.form_comm s.third s.first,
      a.form_comm s.third s.second, and_self]
    simp [and_assoc]
  · intro hrun
    obtain ⟨hxy, hxz, hyz⟩ := hconverged.mp hrun
    have hyx := a.form_comm s.first s.second ▸ hxy
    have hzx := a.form_comm s.first s.third ▸ hxz
    have hzy := a.form_comm s.second s.third ▸ hyz
    simp only [List.mem_cons, List.not_mem_nil, or_false, forall_eq_or_imp, forall_eq]
    refine ⟨?_, ?_, ?_⟩
    · exact Jacobi.residual_le hbasis a hinvariant.xx hyx hzx
    · exact Jacobi.residual_le hbasis.cycle a hinvariant.yy hzy hxy
    · exact Jacobi.residual_le hbasis.cycle.cycle a hinvariant.zz hxz hyz

section Sheared

/-- Where both diagonal entries are the same, a positive entry of the plane turns it by an
eighth. -/
theorem Jacobi.Turn.annihilating_of_pos
    {d b : ℝ}
    (hb : 0 < b) :
    Turn.annihilating d d b = ⟨√2 / 2, √2 / 2⟩ := by
  have harg : Complex.arg ⟨d - d, 2 * b⟩ = Real.pi / 2 := by
    rw [Complex.arg_eq_pi_div_two_iff]
    exact ⟨sub_self d, mul_pos two_pos hb⟩
  have hangle : Scalar.half * Scalar.atan2 (Scalar.two * b) (d - d) = Real.pi / 4 := by
    rw [Scalar.half_exact, Scalar.two_exact, Scalar.atan2_exact, harg]
    ring
  rw [Turn.annihilating, hangle, Scalar.cos_exact, Scalar.sin_exact, Real.cos_pi_div_four,
    Real.sin_pi_div_four]

/-- A tensor with one entry off the diagonal. -/
noncomputable def SymTensor.sheared : SymTensor ℝ :=
  ⟨1, 1, 0, 1, 0, -1⟩

open Jacobi in
/-- One rotation by an eighth makes it diagonal. -/
theorem SymTensor.step_sheared :
    (State.initial sheared).step =
      ⟨⟨0, 0, 0, 2, 0, -1⟩, ⟨√2 / 2, -(√2 / 2), 0⟩, ⟨√2 / 2, √2 / 2, 0⟩, ⟨0, 0, 1⟩⟩ := by
  have hpivot : pivot sheared = .xy := by
    norm_num [pivot, Plane.entry, sheared]
  have hturn : Turn.annihilating sheared.xx sheared.yy sheared.xy = ⟨√2 / 2, √2 / 2⟩ :=
    Turn.annihilating_of_pos one_pos
  have hsquare : √2 / 2 * (√2 / 2) = (1 : ℝ) / 2 := by
    rw [div_mul_div_comm, Real.mul_self_sqrt zero_le_two]
    norm_num
  have htensor : (State.initial sheared).tensor = sheared := rfl
  rw [State.step, htensor, hpivot, State.rotate]
  simp only [htensor, hturn]
  generalize √2 / 2 = c at hsquare
  congr 1
  · rw [SymTensor.mk.injEq]
    simp only [Turn.firstDiagonal, Turn.secondDiagonal, Turn.firstMixed, Turn.secondMixed,
      Scalar.two_exact, sheared]
    refine ⟨?_, trivial, by ring, ?_, by ring, trivial⟩
    · ring
    · linear_combination 4 * hsquare
  · ext <;> simp [Turn.firstVector, State.initial, Vec.basisX, Vec.basisY]
  · ext <;> simp [Turn.secondVector, State.initial, Vec.basisX, Vec.basisY]

open Jacobi in
/-- The run on it makes this rotation and no more, and its pairs are exact. -/
theorem SymTensor.diagonalize_pairs_sheared :
    (sheared.diagonalize ⟨4, 1 / 2⟩).rotations = 1 ∧
    (sheared.diagonalize ⟨4, 1 / 2⟩).converged = true ∧
    (sheared.diagonalize ⟨4, 1 / 2⟩).pairs =
      [⟨0, ⟨√2 / 2, -(√2 / 2), 0⟩⟩, ⟨2, ⟨√2 / 2, √2 / 2, 0⟩⟩, ⟨-1, ⟨0, 0, 1⟩⟩] ∧
    Vec.RightHanded (⟨√2 / 2, -(√2 / 2), 0⟩ : Vec ℝ) ⟨√2 / 2, √2 / 2, 0⟩ ⟨0, 0, 1⟩ := by
  have hopen : (State.initial sheared).isDiagonal (1 / 2) = false := by
    rw [Bool.eq_false_iff, ne_eq, State.isDiagonal_iff]
    intro hall
    have hxy : |(1 : ℝ)| < 1 / 2 := hall .xy
    norm_num at hxy
  have hdone : (State.initial sheared).step.isDiagonal (1 / 2) = true := by
    rw [step_sheared, State.isDiagonal_iff]
    intro plane
    cases plane with
    | xy | xz | yz =>
        norm_num [Plane.entry]
  have hrun : sheared.diagonalize ⟨4, 1 / 2⟩ = ⟨(State.initial sheared).step, 1, true⟩ := by
    rw [SymTensor.diagonalize, SymTensor.sanitized_exact, runFrom, hopen, runFrom, hdone]
    rfl
  have hpairs : (sheared.diagonalize ⟨4, 1 / 2⟩).pairs =
      [⟨0, ⟨√2 / 2, -(√2 / 2), 0⟩⟩, ⟨2, ⟨√2 / 2, √2 / 2, 0⟩⟩, ⟨-1, ⟨0, 0, 1⟩⟩] := by
    rw [hrun, Run.pairs, step_sheared]
  obtain ⟨d, e, f, hvectors, hbasis, -⟩ := SymTensor.diagonalize_pairs sheared ⟨4, 1 / 2⟩
  rw [hpairs] at hvectors
  cases hvectors
  exact ⟨by rw [hrun], by rw [hrun], hpairs, hbasis⟩

end Sheared

end FieldGeometry
