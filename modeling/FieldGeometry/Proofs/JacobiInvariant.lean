import FieldGeometry.Tensor.Principal
import FieldGeometry.Proofs.Tensors

/-!
# The invariant of the plane rotations

A run of the plane rotations on a tensor `a` carries a tensor and a basis.  In exact arithmetic the
basis is always a right-handed triple of unit vectors, and the carried tensor is always `a` written
in that basis: its entry for two axes is the form `vᵀ a w` of the two basis vectors.  Nothing of
this depends on whether the run ends because the tensor is diagonal or because its budget is spent.

**One rotation.**  The angle of `Turn.annihilating` makes the entry of the turned plane vanish
exactly (`annihilating_off`), so writing zero there is no approximation.  The other entries are
updated by the formulas that turning the basis vectors gives for the form.

**A run.**  `Represents` is the invariant, `rotate_represents` its step, `runFrom_represents` its
induction over the budget.  `pairs_form` and `byMagnitude_sorted` read the pairs off the final
state.
-/

namespace FieldGeometry

namespace Jacobi

namespace Turn

section Annihilation

variable (app aqq apq : ℝ)

/-- The angle gives a cosine and a sine. -/
theorem annihilating_unit :
    (annihilating app aqq apq).cos * (annihilating app aqq apq).cos +
      (annihilating app aqq apq).sin * (annihilating app aqq apq).sin = 1 := by
  have hunit := Real.cos_sq_add_sin_sq
    (Scalar.half * Scalar.atan2 (Scalar.two * apq) (aqq - app))
  rw [pow_two, pow_two] at hunit
  exact hunit

/-- The entry of the plane after the rotation is zero.  Twice the angle is the argument of the
number with real part `aqq - app` and imaginary part `2 * apq`. -/
theorem annihilating_off :
    (annihilating app aqq apq).cos * (annihilating app aqq apq).sin * (app - aqq) +
      ((annihilating app aqq apq).cos * (annihilating app aqq apq).cos -
        (annihilating app aqq apq).sin * (annihilating app aqq apq).sin) * apq = 0 := by
  let z : ℂ := ⟨aqq - app, 2 * apq⟩
  have hcos : ‖z‖ * Real.cos z.arg = aqq - app := Complex.norm_mul_cos_arg z
  have hsin : ‖z‖ * Real.sin z.arg = 2 * apq := Complex.norm_mul_sin_arg z
  have hangle : Scalar.half * Scalar.atan2 (Scalar.two * apq) (aqq - app) = z.arg / 2 := by
    rw [Scalar.half_exact, Scalar.two_exact, Scalar.atan2_exact]
    ring
  have hc : (annihilating app aqq apq).cos = Real.cos (z.arg / 2) := by
    show Real.cos _ = _
    rw [hangle]
  have hs : (annihilating app aqq apq).sin = Real.sin (z.arg / 2) := by
    show Real.sin _ = _
    rw [hangle]
  have hdouble : z.arg = 2 * (z.arg / 2) := by ring
  rw [hdouble, Real.cos_two_mul'] at hcos
  rw [hdouble, Real.sin_two_mul] at hsin
  rw [hc, hs]
  generalize Real.cos (z.arg / 2) = c at hcos hsin ⊢
  generalize Real.sin (z.arg / 2) = s at hcos hsin ⊢
  linear_combination c * s * hcos - (c ^ 2 - s ^ 2) / 2 * hsin

end Annihilation

section Forms

variable (a : SymTensor ℝ) (t : Turn ℝ) (k p q : Vec ℝ)

theorem form_firstVector :
    a.form (t.firstVector p q) (t.firstVector p q) =
      t.firstDiagonal (a.form p p) (a.form q q) (a.form p q) := by
  simp only [firstVector, firstDiagonal, SymTensor.form_eq, Vec.sub_x, Vec.sub_y, Vec.sub_z,
    Vec.smul_x, Vec.smul_y, Vec.smul_z, Scalar.two_exact]
  ring

theorem form_secondVector :
    a.form (t.secondVector p q) (t.secondVector p q) =
      t.secondDiagonal (a.form p p) (a.form q q) (a.form p q) := by
  simp only [secondVector, secondDiagonal, SymTensor.form_eq, Vec.add_x, Vec.add_y, Vec.add_z,
    Vec.smul_x, Vec.smul_y, Vec.smul_z, Scalar.two_exact]
  ring

theorem form_first_second :
    a.form (t.firstVector p q) (t.secondVector p q) =
      t.cos * t.sin * (a.form p p - a.form q q) +
        (t.cos * t.cos - t.sin * t.sin) * a.form p q := by
  simp only [firstVector, secondVector, SymTensor.form_eq, Vec.sub_x, Vec.sub_y, Vec.sub_z,
    Vec.add_x, Vec.add_y, Vec.add_z, Vec.smul_x, Vec.smul_y, Vec.smul_z]
  ring

theorem form_mixed_first :
    a.form k (t.firstVector p q) = t.firstMixed (a.form k p) (a.form k q) := by
  simp only [firstVector, firstMixed, SymTensor.form_eq, Vec.sub_x, Vec.sub_y, Vec.sub_z,
    Vec.smul_x, Vec.smul_y, Vec.smul_z]
  ring

theorem form_mixed_second :
    a.form k (t.secondVector p q) = t.secondMixed (a.form k p) (a.form k q) := by
  simp only [secondVector, secondMixed, SymTensor.form_eq, Vec.add_x, Vec.add_y, Vec.add_z,
    Vec.smul_x, Vec.smul_y, Vec.smul_z]
  ring

/-- The five entries that a rotation rewrites are those of the form on the turned vectors. -/
theorem annihilating_forms
    {app aqq apq akp akq : ℝ}
    (hpp : app = a.form p p)
    (hqq : aqq = a.form q q)
    (hpq : apq = a.form p q)
    (hkp : akp = a.form k p)
    (hkq : akq = a.form k q)
    (ht : t = annihilating app aqq apq) :
    t.firstDiagonal app aqq apq = a.form (t.firstVector p q) (t.firstVector p q) ∧
    t.secondDiagonal app aqq apq = a.form (t.secondVector p q) (t.secondVector p q) ∧
    0 = a.form (t.firstVector p q) (t.secondVector p q) ∧
    t.firstMixed akp akq = a.form k (t.firstVector p q) ∧
    t.secondMixed akp akq = a.form k (t.secondVector p q) := by
  have hoff := annihilating_off app aqq apq
  rw [← ht] at hoff
  rw [form_firstVector, form_secondVector, form_first_second, form_mixed_first,
    form_mixed_second, ← hpp, ← hqq, ← hpq, ← hkp, ← hkq]
  exact ⟨rfl, rfl, hoff.symm, rfl, rfl⟩

/-- A rotation keeps the sum of the two diagonal entries. -/
theorem diagonal_add
    (app aqq apq : ℝ)
    (ht : t.cos * t.cos + t.sin * t.sin = 1) :
    t.firstDiagonal app aqq apq + t.secondDiagonal app aqq apq = app + aqq := by
  have hsum : t.firstDiagonal app aqq apq + t.secondDiagonal app aqq apq =
      (t.cos * t.cos + t.sin * t.sin) * (app + aqq) := by
    simp only [firstDiagonal, secondDiagonal]
    ring
  rw [hsum, ht, one_mul]

end Forms

end Turn

/-- The basis is a right-handed triple, and the tensor of the state is `a` written in it. -/
structure State.Represents (a : SymTensor ℝ) (s : State ℝ) : Prop where
  basis : Vec.RightHanded s.first s.second s.third
  xx : s.tensor.xx = a.form s.first s.first
  yy : s.tensor.yy = a.form s.second s.second
  zz : s.tensor.zz = a.form s.third s.third
  xy : s.tensor.xy = a.form s.first s.second
  xz : s.tensor.xz = a.form s.first s.third
  yz : s.tensor.yz = a.form s.second s.third
  trace : s.tensor.trace = a.trace

namespace State

variable {a : SymTensor ℝ} {s : State ℝ}

theorem initial_represents (a : SymTensor ℝ) : (State.initial a).Represents a := by
  have hx : (Vec.basisX : Vec ℝ) = ⟨1, 0, 0⟩ := rfl
  have hy : (Vec.basisY : Vec ℝ) = ⟨0, 1, 0⟩ := rfl
  have hz : (Vec.basisZ : Vec ℝ) = ⟨0, 0, 1⟩ := rfl
  constructor
  case basis =>
      exact Vec.rightHanded_basis
  case trace =>
      rfl
  all_goals simp [State.initial, SymTensor.form_eq, hx, hy, hz]

/-- **Step of the invariant.**  Rotating any plane by its annihilating angle turns the basis and
rewrites the tensor in the turned basis. -/
theorem rotate_represents (h : s.Represents a) (plane : Plane) :
    (s.rotate plane).Represents a := by
  have hyx : s.tensor.xy = a.form s.second s.first := by rw [h.xy, a.form_comm]
  have hzx : s.tensor.xz = a.form s.third s.first := by rw [h.xz, a.form_comm]
  have hzy : s.tensor.yz = a.form s.third s.second := by rw [h.yz, a.form_comm]
  have htrace : s.tensor.xx + s.tensor.yy + s.tensor.zz = a.trace := h.trace
  cases plane with
  | xy =>
      have hunit := Turn.annihilating_unit s.tensor.xx s.tensor.yy s.tensor.xy
      have hdiagonal := Turn.diagonal_add _ s.tensor.xx s.tensor.yy s.tensor.xy hunit
      obtain ⟨hxx, hyy, hxy, hzx', hzy'⟩ :=
        Turn.annihilating_forms a _ s.third s.first s.second h.xx h.yy h.xy hzx hzy rfl
      refine ⟨h.basis.turned hunit, hxx, hyy, h.zz, hxy, ?_, ?_, ?_⟩
      · exact hzx'.trans (a.form_comm _ _)
      · exact hzy'.trans (a.form_comm _ _)
      · show Turn.firstDiagonal _ _ _ _ + Turn.secondDiagonal _ _ _ _ + s.tensor.zz = _
        rw [hdiagonal, htrace]
  | xz =>
      have hunit := Turn.annihilating_unit s.tensor.xx s.tensor.zz s.tensor.xz
      have hdiagonal := Turn.diagonal_add _ s.tensor.xx s.tensor.zz s.tensor.xz hunit
      obtain ⟨hxx, hzz, hxz, hyx', hyz'⟩ :=
        Turn.annihilating_forms a _ s.second s.first s.third h.xx h.zz h.xz hyx h.yz rfl
      refine ⟨h.basis.turned_outer hunit, hxx, h.yy, hzz, ?_, hxz, hyz', ?_⟩
      · exact hyx'.trans (a.form_comm _ _)
      · show Turn.firstDiagonal _ _ _ _ + s.tensor.yy + Turn.secondDiagonal _ _ _ _ = _
        linarith
  | yz =>
      have hunit := Turn.annihilating_unit s.tensor.yy s.tensor.zz s.tensor.yz
      have hdiagonal := Turn.diagonal_add _ s.tensor.yy s.tensor.zz s.tensor.yz hunit
      obtain ⟨hyy, hzz, hyz, hxy', hxz'⟩ :=
        Turn.annihilating_forms a _ s.first s.second s.third h.yy h.zz h.yz h.xy h.xz rfl
      have hbasis := (h.basis.cycle.turned hunit).cycle.cycle
      refine ⟨hbasis, h.xx, hyy, hzz, hxy', hxz', hyz, ?_⟩
      show s.tensor.xx + Turn.firstDiagonal _ _ _ _ + Turn.secondDiagonal _ _ _ _ = _
      linarith

end State

/-- **The invariant of a run**, whether it converges or spends its budget. -/
theorem runFrom_represents
    {a : SymTensor ℝ}
    {s : State ℝ}
    (eps : ℝ)
    (budget done : ℕ)
    (h : s.Represents a) :
    (runFrom eps budget done s).state.Represents a := by
  induction budget generalizing done s with
  | zero =>
      exact h
  | succ budget ih =>
      rw [runFrom]
      split_ifs with hdiagonal
      · exact h
      · exact ih (done + 1) (State.rotate_represents h (pivot s.tensor))

theorem diagonalize_represents (a : SymTensor ℝ) (options : Options ℝ) :
    (a.diagonalize options).state.Represents a := by
  have hinitial : (State.initial a.sanitized).Represents a := by
    rw [SymTensor.sanitized_exact]
    exact State.initial_represents a
  exact runFrom_represents options.eps options.maxRotations 0 hinitial

section Pairs

variable {a : SymTensor ℝ} {r : Run ℝ} (h : r.state.Represents a)
include h

/-- Each pair is a unit vector with the value of the form on it. -/
theorem pairs_form {pair : EigenPair ℝ} (hpair : pair ∈ r.pairs) :
    pair.vector.length = 1 ∧ pair.value = a.form pair.vector pair.vector := by
  simp only [Run.pairs, List.mem_cons, List.not_mem_nil, or_false] at hpair
  rcases hpair with rfl | rfl | rfl
  · exact ⟨h.basis.length_x, h.xx⟩
  · exact ⟨h.basis.length_y, h.yy⟩
  · exact ⟨h.basis.length_z, h.zz⟩

/-- The vectors of different pairs are perpendicular. -/
theorem pairs_perp : r.pairs.Pairwise fun p q => p.vector.dot q.vector = 0 := by
  have hxz : r.state.first.dot r.state.third = 0 := by
    rw [Vec.dot_comm, h.basis.z_dot_x]
  simp [Run.pairs, h.basis.x_dot_y, h.basis.y_dot_z, hxz]

/-- The values add up to the trace. -/
theorem pairs_sum : (r.pairs.map (·.value)).sum = a.trace := by
  rw [← h.trace]
  simp [Run.pairs, SymTensor.trace, add_assoc]

end Pairs

theorem byMagnitude_perm (r : Run ℝ) : r.byMagnitude.Perm r.pairs :=
  List.mergeSort_perm _ _

theorem byMagnitude_sorted (r : Run ℝ) :
    r.byMagnitude.Pairwise fun p q => |q.value| ≤ |p.value| := by
  have hsorted : r.byMagnitude.Pairwise fun p q =>
      Scalar.precedes (Scalar.abs q.value) (Scalar.abs p.value) = true := by
    apply List.pairwise_mergeSort
    · intro p q r hpq hqr
      exact Scalar.precedes_trans _ _ _ hqr hpq
    · intro p q
      exact Scalar.precedes_total _ _
  refine hsorted.imp fun {p q} hpq => ?_
  simpa using hpq

end Jacobi

end FieldGeometry
