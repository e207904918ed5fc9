import FieldGeometry.Frame
import FieldGeometry.Tensor.Jacobi

/-!
# Fitting a plane to points

The least-squares plane through a list of points. Its normal is the direction in which the points
scatter least: the eigenvector of the least eigenvalue of their scatter tensor.
-/

namespace FieldGeometry

/-- A plane fitted to points. -/
structure PlaneFit (α : Type) where
  frame : Frame α
  /-- The largest distance of a point from the plane. -/
  deviation : α

namespace PlaneFit

variable {α : Type} [Scalar α]

/-- A plane that contains all its points. -/
def exact (frame : Frame α) : PlaneFit α :=
  ⟨frame, 0⟩

/-- The scatter tensor of points about a centre. -/
def scatter (centre : Point α) (ps : List (Point α)) : SymTensor α :=
  SymTensor.sum (ps.map fun p => .outer (p - centre))

/-- The largest distance of a point from the plane of a frame. -/
def largestDistance (frame : Frame α) (ps : List (Point α)) : α :=
  (ps.map fun p => Scalar.abs (frame.coordinates p).z).foldl Scalar.maxNum 0

/-- The plane through a centre along which the points scatter least, with its first axis towards
the point `lead`. -/
def leastScatter (centre lead : Point α) (ps : List (Point α)) : PlaneFit α :=
  let eigen := (scatter centre ps).diagonalize
  if eigen.pairs.all fun pair => decide (Scalar.abs pair.value ≤ Scalar.tolerance) then
    exact (.worldXY centre)
  else
    let normal := (eigen.ascending.head?.map (·.vector)).getD Vec.zero |>.unitOr Vec.basisZ
    let x := ((lead - centre).reject normal).unitOr normal.orthogonal
    let frame := Frame.ofAxes centre x (normal.cross x) normal
    ⟨frame, largestDistance frame ps⟩

/-- The plane that fits a list of points best. One point or none leaves the directions of the
coordinate axes, and two points give the first axis. -/
def ofPoints : List (Point α) → PlaneFit α
  | [] => exact .world
  | [p] => exact (.worldXY p)
  | [p, q] =>
    let x := (q - p).unitOr Vec.basisX
    let normal := x.orthogonal
    exact (.ofAxes p x (normal.cross x) normal)
  | p :: ps =>
    match Point.centroid? (p :: ps) with
    | none => exact .world
    | some centre => leastScatter centre p (p :: ps)

end PlaneFit

end FieldGeometry
