import FieldGeometry.Moment
import FieldGeometry.Proofs.PlaneCoordinates

/-!
# The nearest point of a plane

The plane of a frame holds the points with two free coordinates and no third.  With orthonormal axes
the squared distance of two points is the sum of the squares of the differences of their coordinates
(`Orthonormal.length_sub_pointAt_sq`), so of the points of the plane the one with the same first two
coordinates is the nearest, and the third coordinate is what is left: the distance, with the side of
the plane as its sign.
-/

namespace FieldGeometry

namespace Frame

/-- The points without a third coordinate. -/
def plane (f : Frame ℝ) : Set (Point ℝ) :=
  {q | ∃ u v : ℝ, f.pointAt u v 0 = q}

section Coordinates

variable (f : Frame ℝ) (u v w : ℝ)

/-- Going along the normal changes the third coordinate only. -/
theorem pointAt_add_zAxis (d : ℝ) : f.pointAt u v w + d • f.zAxis = f.pointAt u v (w + d) := by
  rw [pointAt_eq, pointAt_eq, Point.add_vec_add, add_smul, add_assoc (_ + _)]

/-- Seen from a frame that is moved along its normal, heights are less by as much. -/
theorem pointAt_offset (d : ℝ) : (f.offset d).pointAt u v w = f.pointAt u v (w + d) := by
  rw [pointAt_eq, pointAt_eq]
  show f.origin + d • f.zAxis + (u • f.xAxis + v • f.yAxis + w • f.zAxis) = _
  rw [Point.add_vec_add]
  congr 1
  module

theorem foot_mem_plane (p : Point ℝ) : f.foot p ∈ f.plane :=
  ⟨_, _, rfl⟩

end Coordinates

section Distances

variable {f : Frame ℝ} (hf : f.Orthonormal) (p : Point ℝ)
include hf

/-- Pythagoras: with orthonormal axes distances are measured by coordinates. -/
theorem Orthonormal.length_sub_pointAt_sq (u v w : ℝ) :
    (p - f.pointAt u v w : Vec ℝ).length ^ 2 =
      ((f.coordinates p).x - u) ^ 2 + ((f.coordinates p).y - v) ^ 2 +
        ((f.coordinates p).z - w) ^ 2 := by
  obtain ⟨hx, hy, hz⟩ := Vec.RightHanded.dot_combination hf u v w
  rw [Vec.length_sq, Vec.RightHanded.dot_self hf, pointAt_eq, Point.sub_add_vec]
  simp only [Vec.dot_sub, hx, hy, hz, coordinates_eq]

/-- From the plane the squared distance is that of the height and those within the plane. -/
theorem Orthonormal.length_sub_plane_sq (u v : ℝ) :
    (p - f.pointAt u v 0 : Vec ℝ).length ^ 2 =
      (f.coordinates p).z ^ 2 + ((f.coordinates p).x - u) ^ 2 + ((f.coordinates p).y - v) ^ 2 := by
  rw [hf.length_sub_pointAt_sq]
  ring

theorem Orthonormal.length_sub_foot_sq :
    (p - f.foot p : Vec ℝ).length ^ 2 = (f.coordinates p).z ^ 2 := by
  rw [foot, hf.length_sub_plane_sq, sub_self, sub_self]
  ring

theorem Orthonormal.length_sub_foot : (p - f.foot p : Vec ℝ).length = |(f.coordinates p).z| := by
  rw [← abs_of_nonneg (Vec.length_nonneg (p - f.foot p : Vec ℝ))]
  exact (sq_eq_sq_iff_abs_eq_abs _ _).mp (hf.length_sub_foot_sq p)

section Nearest

variable {p} {r : Point ℝ} (hr : r ∈ f.plane)
include hr

/-- Pythagoras about the foot. -/
theorem Orthonormal.length_sub_sq_of_mem_plane :
    (p - r : Vec ℝ).length ^ 2 =
      (p - f.foot p : Vec ℝ).length ^ 2 + (f.foot p - r : Vec ℝ).length ^ 2 := by
  obtain ⟨u, v, rfl⟩ := hr
  rw [hf.length_sub_plane_sq p, hf.length_sub_foot_sq p, hf.length_sub_plane_sq (f.foot p), foot,
    hf.coordinates_pointAt]
  ring

/-- No point of the plane is nearer than the foot. -/
theorem Orthonormal.length_sub_foot_le :
    (p - f.foot p : Vec ℝ).length ≤ (p - r : Vec ℝ).length := by
  have hsq := hf.length_sub_sq_of_mem_plane (p := p) hr
  have hnonneg := sq_nonneg (f.foot p - r : Vec ℝ).length
  apply le_of_sq_le_sq _ (Vec.length_nonneg _)
  linarith

/-- No other point of the plane is as near. -/
theorem Orthonormal.eq_foot_of_length_sub
    (h : (p - r : Vec ℝ).length = (p - f.foot p : Vec ℝ).length) :
    r = f.foot p := by
  have hsq := hf.length_sub_sq_of_mem_plane (p := p) hr
  rw [h, left_eq_add, sq_eq_zero_iff] at hsq
  exact (Point.eq_of_length_sub (le_of_eq hsq)).symm

end Nearest

/-- The foot and the height lead back to the point. -/
theorem Orthonormal.foot_add_zAxis : f.foot p + (f.coordinates p).z • f.zAxis = p := by
  rw [foot, pointAt_add_zAxis, zero_add]
  exact hf.pointAt_coordinates p

theorem Orthonormal.mem_plane_offset : p ∈ (f.offset (f.coordinates p).z).plane := by
  refine ⟨(f.coordinates p).x, (f.coordinates p).y, ?_⟩
  rw [pointAt_offset, zero_add]
  exact hf.pointAt_coordinates p

end Distances

end Frame

namespace Component

/-- Plane Closest Point gives the foot, its place in the plane and the height. -/
theorem planeClosestPoint_eq
    {δ : Type}
    {f : Frame ℝ}
    {plane : Value ℝ δ}
    (h : Pin.frame (some plane) = .ok (some f))
    (p : Point ℝ) :
    planeClosestPoint.evaluate [.point p, plane] =
      .ok [("P", .point (f.foot p)),
        ("uv", .point ⟨(f.coordinates p).x, (f.coordinates p).y, 0⟩),
        ("D", .number (f.coordinates p).z)] := by
  show planeClosestPointAt _ = _
  have hpoint : needPoint .planeClosestPoint (some (.point p) : Pin ℝ δ) = .ok p := rfl
  simp only [planeClosestPointAt, needPlane, Pin.require, List.getElem?_cons_zero,
    List.getElem?_cons_succ, hpoint, h]
  rfl

end Component

namespace Frame

/-- **The nearest point of a plane.**  The coordinates of a point in an orthonormal frame give its
squared distance from every point of the plane.  So the foot of the point is the one nearest point
of the plane, the size of the third coordinate is its distance, the foot and that coordinate lead
back to the point, and the plane moved by it along the normal holds the point.  These are the
outputs of Plane Closest Point, whatever value the frame is read from. -/
theorem foot_nearest
    {f : Frame ℝ}
    (hf : f.Orthonormal)
    (p : Point ℝ) :
    ∃ (q : Point ℝ) (u v d : ℝ),
      f.foot p = q ∧ f.coordinates p = ⟨u, v, d⟩ ∧
      (∀ u' v' : ℝ,
        (p - f.pointAt u' v' 0 : Vec ℝ).length ^ 2 = d ^ 2 + (u - u') ^ 2 + (v - v') ^ 2) ∧
      q = f.pointAt u v 0 ∧ q ∈ f.plane ∧
      (∀ r ∈ f.plane, (p - q : Vec ℝ).length ≤ (p - r : Vec ℝ).length ∧
        ((p - r : Vec ℝ).length = (p - q : Vec ℝ).length → r = q)) ∧
      (p - q : Vec ℝ).length = |d| ∧
      p = q + d • f.zAxis ∧
      p ∈ (f.offset d).plane ∧
      ∀ (δ : Type) (plane : Value ℝ δ), Pin.frame (some plane) = .ok (some f) →
        Component.planeClosestPoint.evaluate [.point p, plane] =
          .ok [("P", .point q), ("uv", .point ⟨u, v, 0⟩), ("D", .number d)] := by
  refine ⟨_, _, _, _, rfl, rfl, hf.length_sub_plane_sq p, rfl, f.foot_mem_plane p, ?_,
    hf.length_sub_foot p, (hf.foot_add_zAxis p).symm, hf.mem_plane_offset p, ?_⟩
  · intro r hr
    exact ⟨hf.length_sub_foot_le hr, hf.eq_foot_of_length_sub hr⟩
  · intro δ plane hplane
    exact Component.planeClosestPoint_eq hplane p

/-- Above a slanted plane, a point at the height three. -/
theorem foot_nearest_slanted :
    ∃ f : Frame ℝ, f = ⟨⟨1, 0, 0⟩, ⟨1, 0, 0⟩, ⟨0, 4 / 5, -3 / 5⟩, ⟨0, 3 / 5, 4 / 5⟩⟩ ∧
      f.Orthonormal ∧
      Pin.frame (some (.frame f) : Pin ℝ Moment) = .ok (some f) ∧
      Component.planeClosestPoint.evaluate [.point ⟨3, 5, 0⟩, .frame f] =
        .ok ([("P", .point ⟨3, 16 / 5, -12 / 5⟩), ("uv", .point ⟨2, 4, 0⟩), ("D", .number 3)] :
          Outputs ℝ Moment) ∧
      f.origin ∈ f.plane ∧
      3 ≤ ((⟨3, 5, 0⟩ : Point ℝ) - f.origin : Vec ℝ).length := by
  refine ⟨_, rfl, ?_⟩
  generalize hslanted :
    (⟨⟨1, 0, 0⟩, ⟨1, 0, 0⟩, ⟨0, 4 / 5, -3 / 5⟩, ⟨0, 3 / 5, 4 / 5⟩⟩ : Frame ℝ) = f
  have hf : f.Orthonormal := by
    rw [← hslanted]
    constructor <;> norm_num [Vec.length_eq_one_iff, Vec.dot_eq, Vec.cross_eq]
  have hread : Pin.frame (some (.frame f) : Pin ℝ Moment) = .ok (some f) := by
    show Except.ok (some (ofAxes f.origin f.xAxis f.yAxis f.zAxis)) = _
    rw [ofAxes_of_orthonormal _ hf]
  have hcoordinates : f.coordinates ⟨3, 5, 0⟩ = ⟨2, 4, 3⟩ := by
    rw [← hslanted]
    ext <;> norm_num [coordinates, Point.sub_eq_toVec_sub, Point.toVec, Vec.dot_eq]
  have hfoot : f.foot ⟨3, 5, 0⟩ = ⟨3, 16 / 5, -12 / 5⟩ := by
    rw [foot, hcoordinates, ← hslanted]
    ext <;> norm_num [pointAt, Point.add_vec_eq]
  have horigin : f.origin ∈ f.plane := by
    refine ⟨0, 0, ?_⟩
    rw [pointAt_eq, zero_smul, zero_smul, zero_smul, add_zero, add_zero, Point.add_zero_vec]
  obtain ⟨_, _, _, _, rfl, hplace, -, -, -, hnearest, hdistance, -, -, houtputs⟩ :=
    foot_nearest hf ⟨3, 5, 0⟩
  rw [hcoordinates] at hplace
  obtain ⟨rfl, rfl, rfl⟩ := Point.mk.inj hplace
  have hnear := (hnearest _ horigin).1
  rw [hdistance, abs_of_pos three_pos] at hnear
  refine ⟨hf, hread, ?_, horigin, hnear⟩
  rw [houtputs Moment _ hread, hfoot]

end Frame

end FieldGeometry
