import FieldGeometry.Segment
import FieldGeometry.Proofs.Vectors

/-!
# Points and segments in exact arithmetic

Differences of points are vectors, and the length of a difference is a distance: it is symmetric and
obeys the triangle inequality.  Along a segment the distance of two points is proportional to the
difference of their fractions.
-/

namespace FieldGeometry

attribute [ext] Point

namespace Point

section Differences

variable (p q r : Point ℝ)

theorem add_vec_eq (v : Vec ℝ) : p + v = ⟨p.x + v.x, p.y + v.y, p.z + v.z⟩ := by
  rfl

theorem sub_eq_toVec_sub : p - q = p.toVec - q.toVec := by
  rfl

theorem sub_self_eq : (p - p : Vec ℝ) = 0 := by
  rw [sub_eq_toVec_sub, sub_self]

theorem sub_origin : p - (origin : Point ℝ) = p.toVec := by
  ext <;> exact sub_zero _

/-- The difference of two points leads from the one to the other. -/
theorem add_sub_eq : p + (q - p) = q := by
  ext
  · exact add_sub_cancel p.x q.x
  · exact add_sub_cancel p.y q.y
  · exact add_sub_cancel p.z q.z

theorem add_vec_sub (v : Vec ℝ) : p + v - p = v := by
  ext
  · exact add_sub_cancel_left p.x v.x
  · exact add_sub_cancel_left p.y v.y
  · exact add_sub_cancel_left p.z v.z

theorem add_vec_add (v w : Vec ℝ) : p + v + w = p + (v + w) := by
  ext
  · exact add_assoc p.x v.x w.x
  · exact add_assoc p.y v.y w.y
  · exact add_assoc p.z v.z w.z

@[simp] theorem add_zero_vec : p + (0 : Vec ℝ) = p := by
  ext
  · exact add_zero p.x
  · exact add_zero p.y
  · exact add_zero p.z

/-- Vectors that lead to the same point are equal. -/
theorem add_vec_inj {v w : Vec ℝ} : p + v = p + w ↔ v = w := by
  constructor
  · intro h
    rw [← add_vec_sub p v, h, add_vec_sub]
  · rintro rfl
    rfl

/-- Interpolation goes from the first point along the difference. -/
theorem lerp_eq (t : ℝ) : p.lerp q t = p + t • (q - p) := by
  rfl

theorem sub_add_vec (v : Vec ℝ) : p - (q + v) = (p - q) - v := by
  ext
  · exact sub_add_eq_sub_sub p.x q.x v.x
  · exact sub_add_eq_sub_sub p.y q.y v.y
  · exact sub_add_eq_sub_sub p.z q.z v.z

/-- Moving both points leaves their difference. -/
theorem add_vec_sub_add_vec (v : Vec ℝ) : (p + v) - (q + v) = p - q := by
  ext
  · exact add_sub_add_right_eq_sub p.x q.x v.x
  · exact add_sub_add_right_eq_sub p.y q.y v.y
  · exact add_sub_add_right_eq_sub p.z q.z v.z

theorem sub_add_sub : (p - q) + (q - r) = p - r := by
  simp only [sub_eq_toVec_sub, sub_add_sub_cancel]

theorem length_sub_comm : (p - q).length = (q - p).length := by
  have hneg : p - q = -(q - p) := by
    rw [sub_eq_toVec_sub, sub_eq_toVec_sub, neg_sub]
  rw [hneg, Vec.length_neg]

/-- The triangle inequality. -/
theorem length_sub_le : (p - r).length ≤ (p - q).length + (q - r).length := by
  rw [← sub_add_sub p q r]
  exact Vec.length_add_le _ _

/-- Points at no distance are the same. -/
theorem eq_of_length_sub {p q : Point ℝ} (h : (p - q).length ≤ 0) : p = q := by
  have hzero : (p - q).length = 0 := le_antisymm h (Vec.length_nonneg _)
  have hsq : (p - q).dot (p - q) = 0 := by
    rw [← Vec.length_sq, hzero]
    norm_num
  have hback := add_sub_eq q p
  rw [Vec.eq_zero_of_dot_self hsq, add_zero_vec] at hback
  exact hback.symm

end Differences

end Point

namespace Segment

variable (s : Segment ℝ) (u v : ℝ)

theorem length_nonneg : 0 ≤ s.length :=
  Vec.length_nonneg _

@[simp] theorem pointAt_zero : s.pointAt 0 = s.start := by
  ext <;> simp [pointAt, Point.lerp]

@[simp] theorem pointAt_one : s.pointAt 1 = s.stop := by
  ext <;> simp [pointAt, Point.lerp]

theorem pointAt_sub_pointAt : s.pointAt u - s.pointAt v = (u - v) • s.direction := by
  have hpoint : ∀ t, (s.pointAt t).toVec = s.start.toVec + t • s.direction := fun _ => rfl
  rw [Point.sub_eq_toVec_sub, hpoint, hpoint]
  module

/-- Two points of a segment are as far apart as their fractions, measured by its length. -/
theorem length_pointAt_sub :
    (s.pointAt u - s.pointAt v).length = |u * s.length - v * s.length| := by
  rw [pointAt_sub_pointAt, Vec.length_smul, ← sub_mul, abs_mul, abs_of_nonneg s.length_nonneg]
  rfl

end Segment

end FieldGeometry
