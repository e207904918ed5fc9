import FieldGeometry.Vec
import FieldGeometry.Proofs.Exact

/-!
# Vectors in exact arithmetic

The vectors over the real numbers form a vector space with a scalar product, a vector product and a
length.  This module collects the identities that the rest of the theory computes with.

**Products.**  The scalar product is bilinear, the vector product is perpendicular to its factors,
and Lagrange's identity `dot_cross_cross` ties the two together.  It gives the inequality of Cauchy
and with it the triangle inequality.

**Directions.**  `Vec.unit?` either finds a unit vector along its argument or finds the argument too
short.  The lemmas on directions state both answers, so that no later proof opens a threshold.
-/

namespace FieldGeometry

attribute [ext] Vec

namespace Vec

section Coordinates

variable (v w : Vec ℝ) (s : ℝ)

@[simp] theorem add_x : (v + w).x = v.x + w.x := by
  rfl

@[simp] theorem add_y : (v + w).y = v.y + w.y := by
  rfl

@[simp] theorem add_z : (v + w).z = v.z + w.z := by
  rfl

@[simp] theorem sub_x : (v - w).x = v.x - w.x := by
  rfl

@[simp] theorem sub_y : (v - w).y = v.y - w.y := by
  rfl

@[simp] theorem sub_z : (v - w).z = v.z - w.z := by
  rfl

@[simp] theorem neg_x : (-v).x = -v.x := by
  rfl

@[simp] theorem neg_y : (-v).y = -v.y := by
  rfl

@[simp] theorem neg_z : (-v).z = -v.z := by
  rfl

@[simp] theorem smul_x : (s • v).x = v.x * s := by
  rfl

@[simp] theorem smul_y : (s • v).y = v.y * s := by
  rfl

@[simp] theorem smul_z : (s • v).z = v.z * s := by
  rfl

noncomputable instance : Zero (Vec ℝ) where
  zero := Vec.zero

@[simp] theorem zero_eq : (Vec.zero : Vec ℝ) = 0 := by
  rfl

@[simp] theorem zero_x : (0 : Vec ℝ).x = 0 := by
  rfl

@[simp] theorem zero_y : (0 : Vec ℝ).y = 0 := by
  rfl

@[simp] theorem zero_z : (0 : Vec ℝ).z = 0 := by
  rfl

@[simp] theorem basisX_x : (basisX : Vec ℝ).x = 1 := by
  rfl

@[simp] theorem basisY_y : (basisY : Vec ℝ).y = 1 := by
  rfl

@[simp] theorem basisZ_z : (basisZ : Vec ℝ).z = 1 := by
  rfl

end Coordinates

noncomputable instance : AddCommGroup (Vec ℝ) where
  add_assoc u v w := by
    ext <;> simp [add_assoc]
  zero_add v := by
    ext <;> simp
  add_zero v := by
    ext <;> simp
  add_comm v w := by
    ext <;> simp [add_comm]
  neg_add_cancel v := by
    ext <;> simp
  sub_eq_add_neg v w := by
    ext <;> simp [sub_eq_add_neg]
  nsmul := nsmulRec
  zsmul := zsmulRec

noncomputable instance : Module ℝ (Vec ℝ) where
  one_smul v := by
    ext <;> simp
  mul_smul s t v := by
    ext <;> simp <;> ring
  smul_zero s := by
    ext <;> simp
  smul_add s v w := by
    ext <;> simp [add_mul]
  add_smul s t v := by
    ext <;> simp [mul_add]
  zero_smul v := by
    ext <;> simp

/-- Dividing by a number is scaling by its inverse. -/
@[simp] theorem div_eq_smul (v : Vec ℝ) (s : ℝ) : v / s = s⁻¹ • v := by
  rfl

/-- Summing from the left gives the sum of the list. -/
@[simp] theorem sum_exact (vs : List (Vec ℝ)) : Vec.sum vs = vs.sum := by
  rw [List.sum_eq_foldl]
  rfl

section Products

variable (u v w : Vec ℝ) (s : ℝ)

theorem dot_eq : v.dot w = v.x * w.x + v.y * w.y + v.z * w.z := by
  rfl

theorem cross_eq :
    v.cross w =
      ⟨v.y * w.z - v.z * w.y, v.z * w.x - v.x * w.z, v.x * w.y - v.y * w.x⟩ := by
  rfl

theorem dot_comm : v.dot w = w.dot v := by
  simp only [dot_eq]
  ring

@[simp] theorem zero_dot : (0 : Vec ℝ).dot v = 0 := by
  simp [dot_eq]

@[simp] theorem dot_zero : v.dot 0 = 0 := by
  simp [dot_eq]

@[simp] theorem add_dot : (u + v).dot w = u.dot w + v.dot w := by
  simp only [dot_eq, add_x, add_y, add_z]
  ring

@[simp] theorem dot_add : u.dot (v + w) = u.dot v + u.dot w := by
  simp only [dot_eq, add_x, add_y, add_z]
  ring

@[simp] theorem sub_dot : (u - v).dot w = u.dot w - v.dot w := by
  simp only [dot_eq, sub_x, sub_y, sub_z]
  ring

@[simp] theorem dot_sub : u.dot (v - w) = u.dot v - u.dot w := by
  simp only [dot_eq, sub_x, sub_y, sub_z]
  ring

@[simp] theorem smul_dot : (s • v).dot w = s * v.dot w := by
  simp only [dot_eq, smul_x, smul_y, smul_z]
  ring

@[simp] theorem dot_smul : v.dot (s • w) = s * v.dot w := by
  simp only [dot_eq, smul_x, smul_y, smul_z]
  ring

@[simp] theorem neg_dot : (-v).dot w = -v.dot w := by
  simp only [dot_eq, neg_x, neg_y, neg_z]
  ring

@[simp] theorem dot_neg : v.dot (-w) = -v.dot w := by
  simp only [dot_eq, neg_x, neg_y, neg_z]
  ring

theorem dot_self_nonneg : 0 ≤ v.dot v := by
  have hx := mul_self_nonneg v.x
  have hy := mul_self_nonneg v.y
  have hz := mul_self_nonneg v.z
  rw [dot_eq]
  linarith

theorem eq_zero_of_dot_self {v : Vec ℝ} (h : v.dot v = 0) : v = 0 := by
  have hx := mul_self_nonneg v.x
  have hy := mul_self_nonneg v.y
  have hz := mul_self_nonneg v.z
  rw [dot_eq] at h
  ext
  · exact mul_self_eq_zero.mp (by linarith)
  · exact mul_self_eq_zero.mp (by linarith)
  · exact mul_self_eq_zero.mp (by linarith)

@[simp] theorem dot_basisX : v.dot basisX = v.x := by
  show v.x * 1 + v.y * 0 + v.z * 0 = v.x
  ring

@[simp] theorem dot_basisY : v.dot basisY = v.y := by
  show v.x * 0 + v.y * 1 + v.z * 0 = v.y
  ring

@[simp] theorem dot_basisZ : v.dot basisZ = v.z := by
  show v.x * 0 + v.y * 0 + v.z * 1 = v.z
  ring

theorem smul_cross : (s • v).cross w = s • v.cross w := by
  ext <;> simp [cross_eq] <;> ring

theorem cross_smul : v.cross (s • w) = s • v.cross w := by
  ext <;> simp [cross_eq] <;> ring

/-- Exchanging the factors turns the vector product round. -/
theorem neg_cross_eq : -v.cross w = w.cross v := by
  ext <;> simp [cross_eq, mul_comm]

/-- The vector product is perpendicular to its first factor. -/
@[simp] theorem cross_dot_left : (v.cross w).dot v = 0 := by
  simp only [dot_eq, cross_eq]
  ring

/-- The vector product is perpendicular to its second factor. -/
@[simp] theorem cross_dot_right : (v.cross w).dot w = 0 := by
  simp only [dot_eq, cross_eq]
  ring

/-- Lagrange's identity. -/
theorem dot_cross_cross :
    (v.cross w).dot (v.cross w) = v.dot v * w.dot w - v.dot w ^ 2 := by
  simp only [dot_eq, cross_eq]
  ring

/-- The triple product squared is the determinant of the scalar products of its factors. -/
theorem cross_dot_sq :
    (u.cross v).dot w ^ 2 =
      u.dot u * v.dot v * w.dot w + 2 * (u.dot v * v.dot w * u.dot w) -
        u.dot u * v.dot w ^ 2 - v.dot v * u.dot w ^ 2 - w.dot w * u.dot v ^ 2 := by
  simp only [dot_eq, cross_eq]
  ring

/-- A product taken twice stays in the plane of the inner factors. -/
theorem cross_cross :
    u.cross (v.cross w) = u.dot w • v - u.dot v • w := by
  ext <;> simp [dot_eq, cross_eq] <;> ring

end Products

section Lengths

variable (v w : Vec ℝ) (s : ℝ)

@[simp] theorem lengthSq_eq : v.lengthSq = v.dot v := by
  rfl

theorem length_eq : v.length = √(v.dot v) := by
  rfl

theorem length_nonneg : 0 ≤ v.length := by
  rw [length_eq]
  exact Real.sqrt_nonneg _

theorem length_sq : v.length ^ 2 = v.dot v := by
  rw [length_eq]
  exact Real.sq_sqrt (dot_self_nonneg v)

@[simp] theorem length_zero : (0 : Vec ℝ).length = 0 := by
  simp [length_eq]

/-- Unit vectors are those whose product with themselves is one. -/
theorem length_eq_one_iff {v : Vec ℝ} : v.length = 1 ↔ v.dot v = 1 := by
  rw [length_eq, Real.sqrt_eq_one]

@[simp] theorem length_smul : (s • v).length = |s| * v.length := by
  have hsq : (s • v).dot (s • v) = s ^ 2 * v.dot v := by
    simp only [smul_dot, dot_smul]
    ring
  rw [length_eq, length_eq, hsq, Real.sqrt_mul (sq_nonneg s), Real.sqrt_sq_eq_abs]

@[simp] theorem length_neg : (-v).length = v.length := by
  rw [length_eq, length_eq, neg_dot, dot_neg, neg_neg]

/-- The inequality of Cauchy, with the square of the vector product as the difference. -/
theorem dot_le_length_mul_length : v.dot w ≤ v.length * w.length := by
  apply abs_le_of_sq_le_sq' _ (mul_nonneg (length_nonneg v) (length_nonneg w)) |>.2
  have hlagrange := dot_cross_cross v w
  have hnonneg := dot_self_nonneg (v.cross w)
  rw [mul_pow, length_sq, length_sq]
  linarith

/-- The triangle inequality. -/
theorem length_add_le : (v + w).length ≤ v.length + w.length := by
  apply abs_le_of_sq_le_sq' _ (add_nonneg (length_nonneg v) (length_nonneg w)) |>.2
  have hcauchy := dot_le_length_mul_length v w
  have hsq : (v + w).length ^ 2 = v.length ^ 2 + 2 * v.dot w + w.length ^ 2 := by
    simp only [length_sq, add_dot, dot_add, dot_comm w v]
    ring
  rw [hsq]
  nlinarith

/-- The triangle inequality for a list of vectors. -/
theorem length_sum_le (vs : List (Vec ℝ)) :
    vs.sum.length ≤ (vs.map length).sum := by
  induction vs with
  | nil =>
      simp
  | cons v vs ih =>
      simp only [List.sum_cons, List.map_cons]
      exact le_trans (length_add_le v vs.sum) (by linarith)

end Lengths

section Directions

variable {u v : Vec ℝ}

/-- A vector longer than the tolerance carries the direction of its unit vector. -/
theorem unit?_of_lt (h : Scalar.tolerance < v.length) :
    v.unit? = some (v.length⁻¹ • v) := by
  simp [unit?, unitAbove?, h]

/-- A vector within the tolerance carries no direction. -/
theorem unit?_of_le (h : v.length ≤ Scalar.tolerance) : v.unit? = none := by
  simp [unit?, unitAbove?, not_lt.mpr h]

/-- Where a direction is found, the vector is longer than the tolerance and along it. -/
theorem unit?_eq_some_iff :
    v.unit? = some u ↔ Scalar.tolerance < v.length ∧ u = v.length⁻¹ • v := by
  by_cases h : Scalar.tolerance < v.length
  · rw [unit?_of_lt h]
    simp [h, eq_comm]
  · rw [unit?_of_le (not_lt.mp h)]
    simp [h]

theorem length_pos_of_unit? (h : v.unit? = some u) : 0 < v.length :=
  lt_trans Scalar.tolerance_pos (unit?_eq_some_iff.mp h).1

/-- The direction that is found has length one. -/
theorem length_of_unit? (h : v.unit? = some u) : u.length = 1 := by
  have hpos := length_pos_of_unit? h
  rw [(unit?_eq_some_iff.mp h).2, length_smul, abs_of_pos (inv_pos.mpr hpos)]
  exact inv_mul_cancel₀ (ne_of_gt hpos)

/-- The direction that is found is perpendicular to whatever the vector is perpendicular to. -/
theorem dot_of_unit? {w : Vec ℝ} (h : v.unit? = some u) (hperp : v.dot w = 0) :
    u.dot w = 0 := by
  rw [(unit?_eq_some_iff.mp h).2, smul_dot, hperp, mul_zero]

/-- A unit vector is its own direction. -/
theorem unit?_of_length_eq_one (h : v.length = 1) : v.unit? = some v := by
  rw [unit?_eq_some_iff, h]
  exact ⟨Scalar.tolerance_lt_one, by simp⟩

/-- What holds of the direction, if one is found, and of the fallback holds of the choice. -/
theorem unitOr_induction {P : Vec ℝ → Prop} {fallback : Vec ℝ}
    (hunit : ∀ u, v.unit? = some u → P u) (hfallback : P fallback) :
    P (v.unitOr fallback) := by
  unfold unitOr
  cases h : v.unit? with
  | none =>
      exact hfallback
  | some u =>
      exact hunit u h

theorem unitOr_of_lt (h : Scalar.tolerance < v.length) (fallback : Vec ℝ) :
    v.unitOr fallback = v.length⁻¹ • v := by
  rw [unitOr, unit?_of_lt h]
  rfl

theorem unitOr_of_le (h : v.length ≤ Scalar.tolerance) (fallback : Vec ℝ) :
    v.unitOr fallback = fallback := by
  rw [unitOr, unit?_of_le h]
  rfl

theorem length_unitOr {fallback : Vec ℝ} (h : fallback.length = 1) :
    (v.unitOr fallback).length = 1 :=
  unitOr_induction (fun _ hu => length_of_unit? hu) h

theorem unitOr_of_length_eq_one (fallback : Vec ℝ) (h : v.length = 1) :
    v.unitOr fallback = v := by
  rw [unitOr, unit?_of_length_eq_one h]
  rfl

theorem unitOrZero_of_length_eq_one (h : v.length = 1) : v.unitOrZero = v :=
  unitOr_of_length_eq_one _ h

theorem length_unitOrZero_le (v : Vec ℝ) : v.unitOrZero.length ≤ 1 := by
  refine unitOr_induction (fun u hu => le_of_eq (length_of_unit? hu)) ?_
  simp

/-- The axes of the coordinates are unit vectors. -/
@[simp] theorem length_basis :
    (basisX : Vec ℝ).length = 1 ∧ (basisY : Vec ℝ).length = 1 ∧ (basisZ : Vec ℝ).length = 1 := by
  simp only [length_eq_one_iff, dot_basisX, dot_basisY, dot_basisZ, basisX_x, basisY_y, basisZ_z,
    and_self]

end Directions

section Triples

/-- Three unit vectors, perpendicular to each other, of which the third is the product of the
other two. -/
structure RightHanded (x y z : Vec ℝ) : Prop where
  length_x : x.length = 1
  length_y : y.length = 1
  length_z : z.length = 1
  x_dot_y : x.dot y = 0
  y_dot_z : y.dot z = 0
  z_dot_x : z.dot x = 0
  x_cross_y : x.cross y = z

variable {x y z : Vec ℝ}

/-- `x` is a unit vector perpendicular to `z`. -/
structure UnitAcross (z x : Vec ℝ) : Prop where
  length_eq_one : x.length = 1
  dot_eq_zero : x.dot z = 0

theorem unitAcross_of_unit?
    {u v : Vec ℝ}
    (h : v.unit? = some u)
    (hperp : v.dot z = 0) :
    UnitAcross z u :=
  ⟨length_of_unit? h, dot_of_unit? h hperp⟩

/-- Two perpendicular unit vectors are the third and first of a triple. -/
theorem UnitAcross.rightHanded
    (hz : z.length = 1)
    (h : UnitAcross z x) :
    RightHanded x (z.cross x) z := by
  obtain ⟨hx, hxz⟩ := h
  have hxx : x.dot x = 1 := length_eq_one_iff.mp hx
  have hzz : z.dot z = 1 := length_eq_one_iff.mp hz
  have hzx : z.dot x = 0 := by rw [dot_comm, hxz]
  have hyy : (z.cross x).dot (z.cross x) = 1 := by
    rw [dot_cross_cross, hzz, hxx, hzx]
    norm_num
  refine ⟨hx, length_eq_one_iff.mpr hyy, hz, ?_, cross_dot_left z x, hzx, ?_⟩
  · rw [dot_comm]
    exact cross_dot_right z x
  · rw [cross_cross, hxx, hxz]
    simp

/-- The axes of a triple may be renamed in turn. -/
theorem RightHanded.cycle (h : RightHanded x y z) : RightHanded y z x := by
  refine ⟨h.length_y, h.length_z, h.length_x, h.y_dot_z, h.z_dot_x, h.x_dot_y, ?_⟩
  have hyx : y.dot x = 0 := by rw [dot_comm, h.x_dot_y]
  rw [← h.x_cross_y, cross_cross, length_eq_one_iff.mp h.length_y, hyx]
  simp

/-- Reversing the first two axes turns a triple half a turn about the third. -/
theorem RightHanded.half_turn (h : RightHanded x y z) : RightHanded (-x) (-y) z := by
  refine ⟨?_, ?_, h.length_z, ?_, ?_, ?_, ?_⟩
  · rw [length_neg, h.length_x]
  · rw [length_neg, h.length_y]
  · rw [neg_dot, dot_neg, neg_neg, h.x_dot_y]
  · rw [neg_dot, h.y_dot_z, neg_zero]
  · rw [dot_neg, h.z_dot_x, neg_zero]
  · rw [← h.x_cross_y]
    ext <;> simp [cross_eq]

/-- The squared length of a vector is that of its coordinates along the axes of a triple. -/
theorem RightHanded.dot_self (h : RightHanded x y z) (v : Vec ℝ) :
    v.dot v = x.dot v ^ 2 + y.dot v ^ 2 + z.dot v ^ 2 := by
  have hgram := cross_dot_sq x y v
  rw [h.x_cross_y, length_eq_one_iff.mp h.length_x, length_eq_one_iff.mp h.length_y,
    h.x_dot_y] at hgram
  linarith

/-- Vectors with the same coordinates along the axes of a triple are equal. -/
theorem RightHanded.eq_of_dot
    {v w : Vec ℝ}
    (h : RightHanded x y z)
    (hx : x.dot v = x.dot w)
    (hy : y.dot v = y.dot w)
    (hz : z.dot v = z.dot w) :
    v = w := by
  have hsq : (v - w).dot (v - w) = 0 := by
    rw [h.dot_self, dot_sub, dot_sub, dot_sub, hx, hy, hz]
    ring
  exact sub_eq_zero.mp (eq_zero_of_dot_self hsq)

/-- The coordinates of a combination of the axes of a triple are its factors. -/
theorem RightHanded.dot_combination
    (h : RightHanded x y z)
    (a b c : ℝ) :
    x.dot (a • x + b • y + c • z) = a ∧
      y.dot (a • x + b • y + c • z) = b ∧
      z.dot (a • x + b • y + c • z) = c := by
  have hxx : x.dot x = 1 := length_eq_one_iff.mp h.length_x
  have hyy : y.dot y = 1 := length_eq_one_iff.mp h.length_y
  have hzz : z.dot z = 1 := length_eq_one_iff.mp h.length_z
  have hyx : y.dot x = 0 := by rw [dot_comm, h.x_dot_y]
  have hzy : z.dot y = 0 := by rw [dot_comm, h.y_dot_z]
  have hxz : x.dot z = 0 := by rw [dot_comm, h.z_dot_x]
  simp only [dot_add, dot_smul, hxx, hyy, hzz, h.x_dot_y, hyx, h.y_dot_z, hzy, h.z_dot_x, hxz]
  refine ⟨?_, ?_, ?_⟩ <;> ring

/-- A vector is the combination of the axes of a triple by its coordinates along them. -/
theorem RightHanded.combination_dot
    (h : RightHanded x y z)
    (v : Vec ℝ) :
    x.dot v • x + y.dot v • y + z.dot v • z = v := by
  obtain ⟨hx, hy, hz⟩ := h.dot_combination (x.dot v) (y.dot v) (z.dot v)
  exact h.eq_of_dot hx hy hz

/-- Turning the first two axes in their plane keeps a triple right-handed. -/
theorem RightHanded.turned
    {c s : ℝ}
    (h : RightHanded x y z)
    (hcs : c * c + s * s = 1) :
    RightHanded (c • x - s • y) (s • x + c • y) z := by
  have hxx : x.dot x = 1 := length_eq_one_iff.mp h.length_x
  have hyy : y.dot y = 1 := length_eq_one_iff.mp h.length_y
  have hxy : x.dot y = 0 := h.x_dot_y
  have hyx : y.dot x = 0 := by rw [dot_comm, hxy]
  have hzx : z.dot x = 0 := h.z_dot_x
  have hyz : y.dot z = 0 := h.y_dot_z
  have hzy : z.dot y = 0 := by rw [dot_comm, hyz]
  have hxz : x.dot z = 0 := by rw [dot_comm, hzx]
  have hcross : (c • x - s • y).cross (s • x + c • y) = (c * c + s * s) • x.cross y := by
    ext <;> simp [cross_eq] <;> ring
  refine ⟨?_, ?_, h.length_z, ?_, ?_, ?_, ?_⟩
  · rw [length_eq_one_iff]
    simp only [sub_dot, dot_sub, smul_dot, dot_smul, hxx, hyy, hxy, hyx]
    linarith
  · rw [length_eq_one_iff]
    simp only [add_dot, dot_add, smul_dot, dot_smul, hxx, hyy, hxy, hyx]
    linarith
  · simp only [sub_dot, dot_add, smul_dot, dot_smul, hxx, hyy, hxy, hyx]
    ring
  · simp only [add_dot, smul_dot, hxz, hyz]
    ring
  · simp only [dot_sub, dot_smul, hzx, hzy]
    ring
  · rw [hcross, hcs, one_smul, h.x_cross_y]

/-- Turning the first and third axes in their plane, towards each other. -/
theorem RightHanded.turned_outer
    {c s : ℝ}
    (h : RightHanded x y z)
    (hcs : c * c + s * s = 1) :
    RightHanded (c • x - s • z) y (s • x + c • z) := by
  have hback : c * c + -s * -s = 1 := by linarith
  have hturned := (h.cycle.cycle.turned hback).cycle
  have hx : -s • z + c • x = c • x - s • z := by module
  have hz : c • z - -s • x = s • x + c • z := by module
  rwa [hx, hz] at hturned

theorem rightHanded_basis : RightHanded basisX basisY basisZ := by
  obtain ⟨hx, hy, hz⟩ := length_basis
  refine ⟨hx, hy, hz, ?_, ?_, ?_, ?_⟩
  · show (1 : ℝ) * 0 + 0 * 1 + 0 * 0 = 0
    norm_num
  · show (0 : ℝ) * 0 + 1 * 0 + 0 * 1 = 0
    norm_num
  · show (0 : ℝ) * 1 + 0 * 0 + 1 * 0 = 0
    norm_num
  · show (⟨(0 : ℝ) * 0 - 0 * 1, 0 * 0 - 1 * 0, 1 * 1 - 0 * 0⟩ : Vec ℝ) = ⟨0, 0, 1⟩
    norm_num

/-- The part of a vector beside a unit axis is perpendicular to it. -/
theorem reject_dot (v : Vec ℝ) {axis : Vec ℝ} (h : axis.length = 1) :
    (v.reject axis).dot axis = 0 := by
  rw [reject, sub_dot, smul_dot, length_eq_one_iff.mp h]
  ring

/-- The least of the sizes of the coordinates. -/
noncomputable def shortest (v : Vec ℝ) : ℝ :=
  min |v.x| (min |v.y| |v.z|)

/-- What becomes a unit vector perpendicular to `v` is perpendicular to `v` and lacks the shortest
coordinate. -/
theorem exists_orthogonal_eq (v : Vec ℝ) :
    ∃ c : Vec ℝ, v.orthogonal = c.unitOr basisX ∧ c.dot v = 0 ∧
      c.dot c = v.dot v - v.shortest ^ 2 := by
  unfold orthogonal shortest
  simp only [Scalar.abs_exact]
  split_ifs with hx hy
  · refine ⟨_, rfl, ?_, ?_⟩
    · simp only [dot_eq]
      ring
    · rw [min_eq_left (le_min hx.1 hx.2), sq_abs]
      simp only [dot_eq]
      ring
  · refine ⟨_, rfl, ?_, ?_⟩
    · simp only [dot_eq]
      ring
    · rw [min_eq_left hy.2, min_eq_right hy.1, sq_abs]
      simp only [dot_eq]
      ring
  · -- neither of the first two is shortest, so the third is shorter than both
    have hz : |v.z| ≤ |v.x| ∧ |v.z| ≤ |v.y| := by
      rcases le_total |v.x| |v.y| with hxy | hyx
      · have hzx : |v.z| < |v.x| := not_le.mp fun hxz => hx ⟨hxy, hxz⟩
        exact ⟨le_of_lt hzx, le_trans (le_of_lt hzx) hxy⟩
      · have hzy : |v.z| < |v.y| := not_le.mp fun hyz => hy ⟨hyx, hyz⟩
        exact ⟨le_trans (le_of_lt hzy) hyx, le_of_lt hzy⟩
    refine ⟨_, rfl, ?_, ?_⟩
    · simp only [dot_eq]
      ring
    · rw [min_eq_right hz.2, min_eq_right hz.1, sq_abs]
      simp only [dot_eq]
      ring

/-- The shortest coordinate makes up a third of the squared length at most. -/
theorem three_mul_shortest_sq_le (v : Vec ℝ) : 3 * v.shortest ^ 2 ≤ v.dot v := by
  have hnonneg : 0 ≤ v.shortest := le_min (abs_nonneg _) (le_min (abs_nonneg _) (abs_nonneg _))
  have hx : v.shortest ^ 2 ≤ |v.x| ^ 2 := pow_le_pow_left₀ hnonneg (min_le_left _ _) 2
  have hy : v.shortest ^ 2 ≤ |v.y| ^ 2 :=
    pow_le_pow_left₀ hnonneg (le_trans (min_le_right _ _) (min_le_left _ _)) 2
  have hz : v.shortest ^ 2 ≤ |v.z| ^ 2 :=
    pow_le_pow_left₀ hnonneg (le_trans (min_le_right _ _) (min_le_right _ _)) 2
  rw [sq_abs] at hx hy hz
  rw [dot_eq]
  linarith

/-- A vector has a unit vector perpendicular to it when it is above the tolerance without its
shortest coordinate. -/
theorem orthogonal_unitAcross
    {v : Vec ℝ}
    (h : Scalar.tolerance ^ 2 < v.dot v - v.shortest ^ 2) :
    UnitAcross v v.orthogonal := by
  obtain ⟨c, heq, hperp, hsq⟩ := v.exists_orthogonal_eq
  have hlt : Scalar.tolerance < c.length := by
    apply lt_of_pow_lt_pow_left₀ 2 (length_nonneg c)
    rwa [length_sq, hsq]
  rw [heq, unitOr, unit?_of_lt hlt]
  exact unitAcross_of_unit? (unit?_of_lt hlt) hperp

/-- Every unit vector is far above the tolerance. -/
theorem orthogonal_of_length_eq_one
    {v : Vec ℝ}
    (h : v.length = 1) :
    UnitAcross v v.orthogonal := by
  apply orthogonal_unitAcross
  have hthird := v.three_mul_shortest_sq_le
  rw [length_eq_one_iff.mp h] at hthird ⊢
  rw [Scalar.tolerance_exact]
  norm_num
  linarith

end Triples

end Vec

end FieldGeometry
