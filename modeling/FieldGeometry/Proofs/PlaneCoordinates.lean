import FieldGeometry.Component.Evaluate
import FieldGeometry.Moment
import FieldGeometry.Proofs.FrameAxes
import FieldGeometry.Proofs.Points

/-!
# Coordinates in a plane

The coordinates of a point in a frame with orthonormal axes and the point with given coordinates
undo each other: taking coordinates is taking scalar products with the axes, and a vector is the
combination of three orthonormal axes by these products (`Vec.RightHanded.combination_dot`).

Plane Coordinates and Point Oriented both repair the plane that they are given, so whatever stands
for it, even a frame whose axes are missing or lie along each other, the two components compute in
one frame with orthonormal axes, and each undoes the other (`planeCoordinates_pointOriented`).
-/

namespace FieldGeometry

namespace Frame

variable {f : Frame ℝ}

theorem pointAt_eq (f : Frame ℝ) (u v w : ℝ) :
    f.pointAt u v w = f.origin + (u • f.xAxis + v • f.yAxis + w • f.zAxis) := by
  ext
  · simp only [pointAt, Point.add_vec_eq, Vec.add_x]
    ring
  · simp only [pointAt, Point.add_vec_eq, Vec.add_y]
    ring
  · simp only [pointAt, Point.add_vec_eq, Vec.add_z]
    ring

theorem coordinates_eq (f : Frame ℝ) (p : Point ℝ) :
    f.coordinates p =
      ⟨f.xAxis.dot (p - f.origin), f.yAxis.dot (p - f.origin), f.zAxis.dot (p - f.origin)⟩ := by
  rw [Vec.dot_comm f.xAxis, Vec.dot_comm f.yAxis, Vec.dot_comm f.zAxis]
  rfl

/-- A point is its own coordinates in the frame of the coordinate axes. -/
theorem coordinates_world (p : Point ℝ) : (world : Frame ℝ).coordinates p = p := by
  have hoffset : p - (world : Frame ℝ).origin = p.toVec := Point.sub_origin p
  rw [coordinates, hoffset]
  ext
  · exact Vec.dot_basisX p.toVec
  · exact Vec.dot_basisY p.toVec
  · exact Vec.dot_basisZ p.toVec

/-- A point with given coordinates has these coordinates. -/
theorem Orthonormal.coordinates_pointAt
    (h : f.Orthonormal)
    (u v w : ℝ) :
    f.coordinates (f.pointAt u v w) = ⟨u, v, w⟩ := by
  obtain ⟨hx, hy, hz⟩ := Vec.RightHanded.dot_combination h u v w
  rw [coordinates_eq, pointAt_eq, Point.add_vec_sub, hx, hy, hz]

/-- A point is the one with its coordinates. -/
theorem Orthonormal.pointAt_coordinates
    (h : f.Orthonormal)
    (p : Point ℝ) :
    f.pointAt (f.coordinates p).x (f.coordinates p).y (f.coordinates p).z = p := by
  rw [pointAt_eq, coordinates_eq, Vec.RightHanded.combination_dot h, Point.add_sub_eq]

end Frame

namespace Pin

/-- A value that may stand at a pin for a plane. -/
def AcceptedAsPlane {α δ : Type} [Scalar α] (v : Value α δ) : Prop :=
  ∃ f?, frame (some v) = .ok f?

/-- Whatever is read as a plane has orthonormal axes, and so has the plane that stands in for a
missing one. -/
theorem frame_orthonormal
    {δ : Type}
    {pin : Pin ℝ δ}
    {f? : Option (Frame ℝ)}
    (h : frame pin = .ok f?) :
    (f?.getD .world).Orthonormal := by
  unfold frame at h
  split at h
  · cases h
    exact Frame.worldXY_orthonormal Point.origin
  · cases h
    exact Frame.ofAxes_orthonormal _ _ _ _
  · rename_i p hp
    cases h
    exact Frame.worldXY_orthonormal p
  · cases h

end Pin

namespace Component

section Evaluated

variable {δ : Type} {plane : Value ℝ δ} {f? : Option (Frame ℝ)}
  (h : Pin.frame (some plane) = .ok f?)

include h

theorem planeCoordinates_eq (p : Point ℝ) :
    planeCoordinates.evaluate [.point p, plane] =
      .ok [("X", .number ((f?.getD .world).coordinates p).x),
        ("Y", .number ((f?.getD .world).coordinates p).y),
        ("Z", .number ((f?.getD .world).coordinates p).z)] := by
  show planeCoordinatesAt _ = _
  have hpoint : needPoint .planeCoordinates (some (.point p) : Pin ℝ δ) = .ok p := rfl
  simp only [planeCoordinatesAt, List.getElem?_cons_zero, List.getElem?_cons_succ, hpoint, h]
  rfl

theorem pointOriented_eq (u v w : ℝ) :
    pointOriented.evaluate [plane, .number u, .number v, .number w] =
      .ok [("P", .point ((f?.getD .world).pointAt u v w))] := by
  show pointOrientedAt _ = _
  have hnumber : ∀ x : ℝ, Pin.number (some (.number x) : Pin ℝ δ) 0 = .ok x := fun _ => rfl
  simp only [pointOrientedAt, List.getElem?_cons_zero, List.getElem?_cons_succ, hnumber, h]
  rfl

end Evaluated

/-- **Plane Coordinates and Point Oriented.**  Take any value that is accepted as a plane, such as
any frame or any point.  The coordinates that Plane Coordinates gives for a point lead Point
Oriented back to the point, and Plane Coordinates gives back the numbers by which Point Oriented
found a point. -/
theorem planeCoordinates_pointOriented
    {δ : Type} :
    (∀ f : Frame ℝ, Pin.AcceptedAsPlane (.frame f : Value ℝ δ)) ∧
    (∀ q : Point ℝ, Pin.AcceptedAsPlane (.point q : Value ℝ δ)) ∧
    ∀ plane : Value ℝ δ, Pin.AcceptedAsPlane plane →
      (∀ p : Point ℝ, ∃ u v w : ℝ,
        planeCoordinates.evaluate [.point p, plane] =
          .ok [("X", .number u), ("Y", .number v), ("Z", .number w)] ∧
        pointOriented.evaluate [plane, .number u, .number v, .number w] =
          .ok [("P", .point p)]) ∧
      (∀ u v w : ℝ, ∃ p : Point ℝ,
        pointOriented.evaluate [plane, .number u, .number v, .number w] =
          .ok [("P", .point p)] ∧
        planeCoordinates.evaluate [.point p, plane] =
          .ok [("X", .number u), ("Y", .number v), ("Z", .number w)]) := by
  refine ⟨fun f => ⟨_, rfl⟩, fun q => ⟨_, rfl⟩, ?_⟩
  rintro plane ⟨f?, hplane⟩
  have horthonormal := Pin.frame_orthonormal hplane
  constructor
  · intro p
    refine ⟨_, _, _, planeCoordinates_eq hplane p, ?_⟩
    rw [pointOriented_eq hplane, horthonormal.pointAt_coordinates]
  · intro u v w
    refine ⟨_, pointOriented_eq hplane u v w, ?_⟩
    rw [planeCoordinates_eq hplane, horthonormal.coordinates_pointAt]

/-- A frame without a single direction among its axes is repaired alike by both components. -/
theorem planeCoordinates_pointOriented_collapsed :
    Pin.AcceptedAsPlane (.frame ⟨⟨1, 1, 0⟩, Vec.zero, Vec.zero, Vec.zero⟩ : Value ℝ Moment) ∧
    ∃ u v w : ℝ,
      planeCoordinates.evaluate
          ([.point ⟨3, 2, 1⟩, .frame ⟨⟨1, 1, 0⟩, Vec.zero, Vec.zero, Vec.zero⟩] :
            List (Value ℝ Moment)) =
        .ok [("X", .number u), ("Y", .number v), ("Z", .number w)] ∧
      pointOriented.evaluate
          ([.frame ⟨⟨1, 1, 0⟩, Vec.zero, Vec.zero, Vec.zero⟩, .number u, .number v, .number w] :
            List (Value ℝ Moment)) =
        .ok [("P", .point ⟨3, 2, 1⟩)] := by
  obtain ⟨hframe, -, hround⟩ := planeCoordinates_pointOriented
  have hcollapsed := hframe ⟨⟨1, 1, 0⟩, Vec.zero, Vec.zero, Vec.zero⟩
  exact ⟨hcollapsed, (hround _ hcollapsed).1 ⟨3, 2, 1⟩⟩

end Component

end FieldGeometry
