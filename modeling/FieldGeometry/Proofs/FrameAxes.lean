import FieldGeometry.Frame.Fit
import FieldGeometry.Frame.Motion
import FieldGeometry.Proofs.Vectors

/-!
# The axes of frames

In exact arithmetic no frame that the geometry makes is degenerate.  Whatever hints, points,
segments or scattered points a frame is built from, and whatever is done to it afterwards, its axes
are unit vectors, perpendicular to each other, and the third is the product of the first two.

**Constructions and operations.**  `Frame.Construction` lists the ways to build a frame and
`Frame.Operation` the ways to turn one into another, each with all its arguments.  A frame that can
be obtained at all is `Operation.run ops c.build` for a construction `c` and operations `ops`.

**The argument.**  Almost everything passes through `Frame.ofAxes`, and `ofAxes_eq` says what comes
out of it: a unit normal `z`, a unit vector `x` perpendicular to it, and `z.cross x` for the second
axis.  Since that product already has length one, the fallback for the second axis is never taken.
What does not pass through `Frame.ofAxes` keeps the axes it was given.
-/

namespace FieldGeometry

namespace Frame

/-- The ways to build a frame. -/
inductive Construction (α : Type) where
  | world
  | worldXY (origin : Point α)
  | worldXZ (origin : Point α)
  | worldYZ (origin : Point α)
  | ofAxes (origin : Point α) (xHint yHint zHint : Vec α)
  | ofNormal (origin : Point α) (normal : Vec α)
  | throughPoints (a b c : Point α)
  | throughSegmentAndPoint (s : Segment α) (p : Point α)
  | throughSegments (first second : Segment α)
  | fitting (ps : List (Point α))

/-- The ways to turn a frame into another.  The reference of an alignment may be any frame, also
one whose axes are not orthonormal. -/
inductive Operation (α : Type) where
  | offset (distance : α)
  | withOrigin (origin : Point α)
  | flip (reverseX reverseY swap : Bool)
  | rotate (angle : α)
  | adjustNormal (normal : Vec α)
  | alignTo (reference : Frame α)
  | alignToDirection (direction : Vec α)

section Runs

variable {α : Type} [Scalar α]

/-- The frame that a construction builds. -/
def Construction.build : Construction α → Frame α
  | .world => Frame.world
  | .worldXY origin => Frame.worldXY origin
  | .worldXZ origin => Frame.worldXZ origin
  | .worldYZ origin => Frame.worldYZ origin
  | .ofAxes origin xHint yHint zHint => Frame.ofAxes origin xHint yHint zHint
  | .ofNormal origin normal => Frame.ofNormal origin normal
  | .throughPoints a b c => Frame.throughPoints a b c
  | .throughSegmentAndPoint s p => Frame.throughSegmentAndPoint s p
  | .throughSegments first second => Frame.throughSegments first second
  | .fitting ps => (PlaneFit.ofPoints ps).frame

/-- The frame that an operation makes of another. -/
def Operation.apply (f : Frame α) : Operation α → Frame α
  | .offset distance => f.offset distance
  | .withOrigin origin => f.withOrigin origin
  | .flip reverseX reverseY swap => f.flip reverseX reverseY swap
  | .rotate angle => f.rotate angle
  | .adjustNormal normal => f.adjustNormal normal
  | .alignTo reference => Frame.align reference f
  | .alignToDirection direction => f.alignToDirection direction

/-- The frame that operations make of another, one after the other. -/
def Operation.run (ops : List (Operation α)) (f : Frame α) : Frame α :=
  ops.foldl Operation.apply f

end Runs

/-- The axes are orthonormal and right-handed, without any tolerance. -/
def Orthonormal (f : Frame ℝ) : Prop :=
  Vec.RightHanded f.xAxis f.yAxis f.zAxis

section OfAxes

variable (origin : Point ℝ) (xHint yHint zHint : Vec ℝ)

@[simp] theorem ofAxes_origin : (ofAxes origin xHint yHint zHint).origin = origin := by
  rfl

@[simp] theorem ofAxes_zAxis :
    (ofAxes origin xHint yHint zHint).zAxis = zHint.unitOr Vec.basisZ := by
  rfl

/-- Repairing three hints gives a unit normal, a unit vector perpendicular to it, and their
product. -/
theorem ofAxes_eq :
    ∃ x z : Vec ℝ,
      z.length = 1 ∧
      Vec.UnitAcross z x ∧
      ofAxes origin xHint yHint zHint = ⟨origin, x, z.cross x, z⟩ := by
  unfold ofAxes
  simp only
  generalize hz : zHint.unitOr Vec.basisZ = z
  generalize xHint.unitOr z.orthogonal = x₀
  generalize yHint.unitOr (z.cross x₀) = y₀
  generalize hx :
    (y₀.cross z).unitOr ((x₀.reject z).unitOr z.orthogonal) = x
  have hzlen : z.length = 1 := by
    rw [← hz]
    exact Vec.length_unitOr Vec.length_basis.2.2
  -- each of the three sources of the first axis is a unit vector perpendicular to the normal
  have hxz : Vec.UnitAcross z x := by
    rw [← hx]
    refine Vec.unitOr_induction ?_ (Vec.unitOr_induction ?_ ?_)
    · intro u hu
      exact Vec.unitAcross_of_unit? hu (Vec.cross_dot_right y₀ z)
    · intro u hu
      exact Vec.unitAcross_of_unit? hu (Vec.reject_dot x₀ hzlen)
    · exact Vec.orthogonal_of_length_eq_one hzlen
  have htriple := hxz.rightHanded hzlen
  refine ⟨x, z, hzlen, hxz, ?_⟩
  rw [Vec.unitOrZero_of_length_eq_one htriple.length_y]

theorem ofAxes_orthonormal : (ofAxes origin xHint yHint zHint).Orthonormal := by
  obtain ⟨x, z, hz, hxz, heq⟩ := ofAxes_eq origin xHint yHint zHint
  rw [heq]
  exact hxz.rightHanded hz

/-- Hints for the second axis and the normal that are perpendicular unit vectors are kept, and they
determine the first axis. -/
theorem ofAxes_of_perpendicular
    {y z : Vec ℝ}
    (hy : y.length = 1)
    (hz : z.length = 1)
    (hyz : y.dot z = 0) :
    ofAxes origin xHint y z = ⟨origin, y.cross z, y, z⟩ := by
  have hacross : Vec.UnitAcross y z := ⟨hz, by rw [Vec.dot_comm, hyz]⟩
  have htriple := (hacross.rightHanded hy).cycle
  unfold ofAxes
  simp only [Vec.unitOr_of_length_eq_one _ hz, Vec.unitOr_of_length_eq_one _ hy,
    Vec.unitOr_of_length_eq_one _ htriple.length_x, htriple.cycle.cycle.x_cross_y,
    Vec.unitOrZero_of_length_eq_one hy]

/-- The last two axes of an orthonormal frame determine it, whatever the hint for the first. -/
theorem ofAxes_of_orthonormal
    {f : Frame ℝ}
    (hf : f.Orthonormal) :
    ofAxes f.origin xHint f.yAxis f.zAxis = f := by
  rw [ofAxes_of_perpendicular _ _ hf.length_y hf.length_z hf.y_dot_z, hf.cycle.x_cross_y]

end OfAxes

theorem worldXY_orthonormal (origin : Point ℝ) : (worldXY origin).Orthonormal :=
  Vec.rightHanded_basis

theorem world_orthonormal : (world : Frame ℝ).Orthonormal :=
  worldXY_orthonormal Point.origin

theorem throughPoints_orthonormal (a b c : Point ℝ) :
    (throughPoints a b c).Orthonormal := by
  unfold throughPoints
  simp only
  split
  · exact worldXY_orthonormal a
  · exact ofAxes_orthonormal _ _ _ _

theorem leastScatter_orthonormal
    (centre lead : Point ℝ)
    (ps : List (Point ℝ)) :
    (PlaneFit.leastScatter centre lead ps).frame.Orthonormal := by
  unfold PlaneFit.leastScatter
  simp only
  split
  · exact worldXY_orthonormal centre
  · exact ofAxes_orthonormal _ _ _ _

theorem ofPoints_orthonormal (ps : List (Point ℝ)) :
    (PlaneFit.ofPoints ps).frame.Orthonormal := by
  unfold PlaneFit.ofPoints
  split
  · exact worldXY_orthonormal _
  · exact worldXY_orthonormal _
  · exact ofAxes_orthonormal _ _ _ _
  · split
    · exact worldXY_orthonormal _
    · exact leastScatter_orthonormal _ _ _

/-- Every construction builds an orthonormal frame. -/
theorem build_orthonormal (c : Construction ℝ) : c.build.Orthonormal := by
  cases c with
  | world =>
      exact world_orthonormal
  | worldXY origin =>
      exact worldXY_orthonormal origin
  | throughPoints a b c =>
      exact throughPoints_orthonormal a b c
  | fitting ps =>
      exact ofPoints_orthonormal ps
  | worldXZ _ | worldYZ _ | ofAxes _ _ _ _ | ofNormal _ _ | throughSegmentAndPoint _ _
  | throughSegments _ _ =>
      exact ofAxes_orthonormal _ _ _ _

theorem rotate_orthonormal
    {f : Frame ℝ}
    (hf : f.Orthonormal)
    (angle : ℝ) :
    (f.rotate angle).Orthonormal := by
  unfold rotate
  split
  · exact hf
  · exact ofAxes_orthonormal _ _ _ _

/-- Every operation keeps a frame orthonormal. -/
theorem apply_orthonormal
    {f : Frame ℝ}
    (hf : f.Orthonormal)
    (op : Operation ℝ) :
    (op.apply f).Orthonormal := by
  cases op with
  | offset _ | withOrigin _ =>
      exact hf
  | rotate angle =>
      exact rotate_orthonormal hf angle
  | alignToDirection direction =>
      exact rotate_orthonormal hf (f.angleTo direction)
  | flip _ _ _ | adjustNormal _ | alignTo _ =>
      exact ofAxes_orthonormal _ _ _ _

theorem run_orthonormal
    {f : Frame ℝ}
    (hf : f.Orthonormal)
    (ops : List (Operation ℝ)) :
    (Operation.run ops f).Orthonormal := by
  induction ops generalizing f with
  | nil =>
      exact hf
  | cons op ops ih =>
      exact ih (apply_orthonormal hf op)

/-- **No frame is degenerate.**  However a frame was built and whatever was done to it, its axes are
unit vectors, perpendicular to each other and right-handed. -/
theorem obtainable_orthonormal
    (c : Construction ℝ)
    (ops : List (Operation ℝ)) :
    (Operation.run ops c.build).Orthonormal :=
  run_orthonormal (build_orthonormal c) ops

end Frame

end FieldGeometry
