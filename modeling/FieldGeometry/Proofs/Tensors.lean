import FieldGeometry.Tensor
import FieldGeometry.Proofs.Vectors
import Mathlib.Algebra.Order.Star.Real
import Mathlib.LinearAlgebra.Matrix.PosDef

/-!
# Symmetric tensors in exact arithmetic

A symmetric tensor stores the six independent entries of a symmetric matrix of three rows.  This
module gives it its vector space, its matrix and its action on vectors, and says what the product of
a vector with itself is in these terms: a positive semidefinite matrix whose trace is the squared
length.
-/

namespace FieldGeometry

open Matrix

attribute [ext] SymTensor

namespace Vec

/-- The coordinates of a vector as a column. -/
def coords (v : Vec ℝ) : Fin 3 → ℝ :=
  ![v.x, v.y, v.z]

/-- The vector with given coordinates. -/
def ofCoords (c : Fin 3 → ℝ) : Vec ℝ :=
  ⟨c 0, c 1, c 2⟩

@[simp] theorem ofCoords_coords (v : Vec ℝ) : ofCoords v.coords = v := by
  rfl

@[simp] theorem coords_ofCoords (c : Fin 3 → ℝ) : (ofCoords c).coords = c := by
  ext i
  fin_cases i <;> rfl

/-- The scalar product is that of the columns. -/
theorem coords_dotProduct (v w : Vec ℝ) : v.coords ⬝ᵥ w.coords = v.dot w := by
  simp [coords, dotProduct, Fin.sum_univ_three, dot_eq]

/-- The linear map of a matrix. -/
def ofMatrix (m : Matrix (Fin 3) (Fin 3) ℝ) : Vec ℝ →ₗ[ℝ] Vec ℝ where
  toFun v := ofCoords (m *ᵥ v.coords)
  map_add' v w := by
    have hadd : (v + w).coords = v.coords + w.coords := by
      ext i
      fin_cases i <;> rfl
    rw [hadd, mulVec_add]
    rfl
  map_smul' s v := by
    have hsmul : (s • v).coords = s • v.coords := by
      ext i
      fin_cases i <;> exact mul_comm _ _
    rw [hsmul, mulVec_smul]
    ext <;> exact mul_comm _ _

@[simp] theorem coords_ofMatrix (m : Matrix (Fin 3) (Fin 3) ℝ) (v : Vec ℝ) :
    (ofMatrix m v).coords = m *ᵥ v.coords :=
  coords_ofCoords _

end Vec

namespace SymTensor

section Entries

variable (a b : SymTensor ℝ)

theorem add_entries :
    a + b =
      ⟨a.xx + b.xx, a.xy + b.xy, a.xz + b.xz, a.yy + b.yy, a.yz + b.yz, a.zz + b.zz⟩ := by
  rfl

noncomputable instance : Zero (SymTensor ℝ) where
  zero := SymTensor.zero

theorem smul_entries (s : ℝ) :
    s • a = ⟨a.xx * s, a.xy * s, a.xz * s, a.yy * s, a.yz * s, a.zz * s⟩ := by
  rfl

theorem zero_entries : (0 : SymTensor ℝ) = ⟨0, 0, 0, 0, 0, 0⟩ := by
  rfl

end Entries

noncomputable instance : AddCommMonoid (SymTensor ℝ) where
  add_assoc a b c := by
    simp only [add_entries, add_assoc]
  zero_add a := by
    simp only [zero_entries, add_entries, zero_add]
  add_zero a := by
    simp only [zero_entries, add_entries, add_zero]
  add_comm a b := by
    simp only [add_entries, add_comm]
  nsmul := nsmulRec

noncomputable instance : Module ℝ (SymTensor ℝ) where
  one_smul a := by
    simp only [smul_entries, mul_one]
  mul_smul s t a := by
    simp only [smul_entries, mul_assoc, mul_comm s]
  smul_zero s := by
    simp only [zero_entries, smul_entries, zero_mul]
  smul_add s a b := by
    simp only [add_entries, smul_entries, add_mul]
  add_smul s t a := by
    simp only [add_entries, smul_entries, mul_add]
  zero_smul a := by
    simp only [zero_entries, smul_entries, mul_zero]

/-- Summing from the left gives the sum of the list. -/
@[simp] theorem sum_exact (as : List (SymTensor ℝ)) : SymTensor.sum as = as.sum := by
  rw [List.sum_eq_foldl]
  rfl

/-- Every entry is finite, so none is replaced. -/
@[simp] theorem sanitized_exact (a : SymTensor ℝ) : a.sanitized = a := by
  simp [sanitized]

/-- The matrix of a tensor. -/
def toMatrix (a : SymTensor ℝ) : Matrix (Fin 3) (Fin 3) ℝ :=
  !![a.xx, a.xy, a.xz; a.xy, a.yy, a.yz; a.xz, a.yz, a.zz]

/-- The tensor with the entries of a matrix on and above its diagonal. -/
def ofMatrix (m : Matrix (Fin 3) (Fin 3) ℝ) : SymTensor ℝ :=
  ⟨m 0 0, m 0 1, m 0 2, m 1 1, m 1 2, m 2 2⟩

@[simp] theorem ofMatrix_toMatrix (a : SymTensor ℝ) : ofMatrix a.toMatrix = a := by
  rfl

theorem toMatrix_injective : Function.Injective toMatrix :=
  Function.LeftInverse.injective ofMatrix_toMatrix

/-- A symmetric matrix is determined by the entries that a tensor stores. -/
theorem toMatrix_ofMatrix
    {m : Matrix (Fin 3) (Fin 3) ℝ}
    (h : mᵀ = m) :
    (ofMatrix m).toMatrix = m := by
  have hyx : m 1 0 = m 0 1 := congrFun (congrFun h 0) 1
  have hzx : m 2 0 = m 0 2 := congrFun (congrFun h 0) 2
  have hzy : m 2 1 = m 1 2 := congrFun (congrFun h 1) 2
  conv_rhs => rw [Matrix.eta_fin_three m, hyx, hzx, hzy]
  rfl

theorem toMatrix_transpose (a : SymTensor ℝ) : a.toMatrixᵀ = a.toMatrix := by
  ext i j
  fin_cases i <;> fin_cases j <;> rfl

@[simp] theorem toMatrix_zero : (0 : SymTensor ℝ).toMatrix = 0 := by
  ext i j
  fin_cases i <;> fin_cases j <;> rfl

@[simp] theorem toMatrix_add (a b : SymTensor ℝ) :
    (a + b).toMatrix = a.toMatrix + b.toMatrix := by
  ext i j
  fin_cases i <;> fin_cases j <;> rfl

@[simp] theorem toMatrix_smul (s : ℝ) (a : SymTensor ℝ) :
    (s • a).toMatrix = s • a.toMatrix := by
  ext i j
  fin_cases i <;> fin_cases j <;> exact mul_comm _ _

/-- The matrix of the product of a vector with itself. -/
theorem toMatrix_outer (v : Vec ℝ) :
    (outer v).toMatrix = vecMulVec v.coords v.coords := by
  ext i j
  fin_cases i <;> fin_cases j <;>
    simp [toMatrix, outer, vecMulVec, Vec.coords, mul_comm]

/-- The trace of a tensor is that of its matrix. -/
theorem toMatrix_trace (a : SymTensor ℝ) : a.toMatrix.trace = a.trace := by
  rw [Matrix.trace_fin_three]
  rfl

section Traces

variable (a b : SymTensor ℝ) (s : ℝ) (v : Vec ℝ)

@[simp] theorem trace_zero : (0 : SymTensor ℝ).trace = 0 := by
  rw [← toMatrix_trace, toMatrix_zero, Matrix.trace_zero]

@[simp] theorem trace_add : (a + b).trace = a.trace + b.trace := by
  rw [← toMatrix_trace, toMatrix_add, Matrix.trace_add, toMatrix_trace, toMatrix_trace]

@[simp] theorem trace_smul : (s • a).trace = s * a.trace := by
  rw [← toMatrix_trace, toMatrix_smul, Matrix.trace_smul, toMatrix_trace, smul_eq_mul]

/-- The trace of the product of a vector with itself is the squared length. -/
@[simp] theorem trace_outer : (outer v).trace = v.dot v := by
  rfl

theorem trace_sum (as : List (SymTensor ℝ)) :
    as.sum.trace = (as.map trace).sum := by
  induction as with
  | nil =>
      exact trace_zero
  | cons a as ih =>
      rw [List.sum_cons, trace_add, ih, List.map_cons, List.sum_cons]

end Traces

section Forms

variable (a : SymTensor ℝ) (v w : Vec ℝ)

/-- The linear map of a tensor. -/
def mulVec : Vec ℝ →ₗ[ℝ] Vec ℝ :=
  Vec.ofMatrix a.toMatrix

/-- The bilinear form of a tensor, `vᵀ a w`. -/
noncomputable def form : ℝ :=
  v.dot (a.mulVec w)

/-- The form is that of the matrix on the columns. -/
theorem form_eq_dotProduct : a.form v w = v.coords ⬝ᵥ a.toMatrix *ᵥ w.coords := by
  rw [form, ← Vec.coords_dotProduct, mulVec, Vec.coords_ofMatrix]

theorem form_eq :
    a.form v w =
      a.xx * v.x * w.x + a.yy * v.y * w.y + a.zz * v.z * w.z +
        a.xy * (v.x * w.y + v.y * w.x) + a.xz * (v.x * w.z + v.z * w.x) +
        a.yz * (v.y * w.z + v.z * w.y) := by
  simp only [form_eq_dotProduct, toMatrix, Vec.coords, Matrix.mulVec, dotProduct,
    Fin.sum_univ_three, Matrix.of_apply, Matrix.cons_val]
  ring

theorem form_comm : a.form v w = a.form w v := by
  simp only [form_eq]
  ring

/-- A positive semidefinite tensor takes no negative value. -/
theorem form_self_nonneg (h : a.toMatrix.PosSemidef) : 0 ≤ a.form v v := by
  rw [form_eq_dotProduct]
  exact h.dotProduct_mulVec_nonneg v.coords

/-- The product of a vector with itself is positive semidefinite. -/
theorem posSemidef_outer : (outer v).toMatrix.PosSemidef := by
  rw [toMatrix_outer]
  exact Matrix.posSemidef_vecMulVec_self_star v.coords

theorem posSemidef_smul
    {s : ℝ}
    (hs : 0 ≤ s)
    (h : a.toMatrix.PosSemidef) :
    (s • a).toMatrix.PosSemidef := by
  rw [toMatrix_smul]
  exact h.smul hs

theorem posSemidef_sum
    {as : List (SymTensor ℝ)}
    (h : ∀ a ∈ as, a.toMatrix.PosSemidef) :
    as.sum.toMatrix.PosSemidef := by
  induction as with
  | nil =>
      rw [List.sum_nil, toMatrix_zero]
      exact Matrix.PosSemidef.zero
  | cons a as ih =>
      rw [List.sum_cons, toMatrix_add]
      have hfirst := h a List.mem_cons_self
      have hrest := ih fun b hb => h b (List.mem_cons_of_mem a hb)
      exact hfirst.add hrest

end Forms

end SymTensor

end FieldGeometry
