import FieldGeometry.Component.Pin
import FieldGeometry.Frame.Fit
import FieldGeometry.Frame.Motion

/-!
# Components on planes

Each component reads its pins in order and gives its outputs under the names of the output pins.
-/

namespace FieldGeometry

/-- The values of a component's output pins, by their names. -/
abbrev Outputs (α : Type) [Scalar α] (δ : Type) := List (String × Value α δ)

namespace Component

variable {α δ : Type} [Scalar α]

/-- A single plane at pin `P`. -/
def onePlane (f : Frame α) : Outputs α δ :=
  [("P", .frame f)]

/-- A list of planes at pin `P`. -/
def manyPlanes (fs : List (Frame α)) : Outputs α δ :=
  [("P", .frames fs)]

/-- A plane for each origin: a list of them when there are several, and the plane at the origin of
space when there are none. -/
def planePerOrigin (origins : List (Point α)) (make : Point α → Frame α) : Outputs α δ :=
  match origins with
  | [] => onePlane (make Point.origin)
  | [p] => onePlane (make p)
  | ps => manyPlanes (ps.map make)

/-- Planes along coordinate axes. Input: origins. -/
def worldPlane (make : Point α → Frame α) (inputs : List (Value α δ)) :
    Except Failure (Outputs α δ) := do
  let origins ← Pin.points inputs[0]?
  return planePerOrigin origins make

def needPlane (c : Component) (pin : Pin α δ) : Except Failure (Frame α) :=
  Pin.require c .plane (Pin.frame pin)

def needPoint (c : Component) (pin : Pin α δ) : Except Failure (Point α) :=
  Pin.require c .point (Pin.point pin)

def chord? : Path α → Option (Segment α)
  | .segment s => some s
  | .polyline l =>
    match l.points.head?, l.points.getLast? with
    | some first, some last => some ⟨first, last⟩
    | _, _ => none

/-- A line that a component cannot do without; a polyline stands for the line between its ends. -/
def needLine (c : Component) (pin : Pin α δ) : Except Failure (Segment α) := do
  match (← Pin.curve pin).bind chord? with
  | some s => return s
  | none => throw (.requires c .line)

/-- Aligns each plane to the one before. Inputs: planes, a plane for the first. -/
def alignPlanesAt (inputs : List (Value α δ)) : Except Failure (Outputs α δ) := do
  let planes ← Pin.frames inputs[0]?
  let master ← Pin.frame inputs[1]?
  return manyPlanes (Frame.alignChain master planes)

/-- Fits a plane to points. Input: points. -/
def planeFitAt (inputs : List (Value α δ)) : Except Failure (Outputs α δ) := do
  let points ← Pin.points inputs[0]?
  let fit := PlaneFit.ofPoints points
  return onePlane fit.frame ++ [("dx", .number fit.deviation)]

/-- Moves a plane along its normal. Inputs: plane, distance. -/
def planeOffsetAt (inputs : List (Value α δ)) : Except Failure (Outputs α δ) := do
  let plane ← needPlane .planeOffset inputs[0]?
  let distance ← Pin.number inputs[1]? 0
  return onePlane (plane.offset distance)

/-- The origin and axes of a plane. Input: plane. -/
def deconstructPlaneAt (inputs : List (Value α δ)) : Except Failure (Outputs α δ) := do
  let plane ← needPlane .deconstructPlane inputs[0]?
  return [("O", .point plane.origin), ("X", .vector plane.xAxis), ("Y", .vector plane.yAxis),
    ("Z", .vector plane.zAxis)]

/-- The coordinates of a point in a plane. Inputs: point, plane. -/
def planeCoordinatesAt (inputs : List (Value α δ)) : Except Failure (Outputs α δ) := do
  let p ← needPoint .planeCoordinates inputs[0]?
  let plane := (← Pin.frame inputs[1]?).getD .world
  let c := plane.coordinates p
  return [("X", .number c.x), ("Y", .number c.y), ("Z", .number c.z)]

/-- Moves a plane to an origin. Inputs: plane, origin. -/
def planeOriginAt (inputs : List (Value α δ)) : Except Failure (Outputs α δ) := do
  let plane ← needPlane .planeOrigin inputs[0]?
  let origin := (← Pin.point inputs[1]?).getD plane.origin
  return onePlane (plane.withOrigin origin)

/-- Tilts a plane to a normal. Inputs: plane, normal. -/
def adjustPlaneAt (inputs : List (Value α δ)) : Except Failure (Outputs α δ) := do
  let plane ← needPlane .adjustPlane inputs[0]?
  let normal := (← Pin.vector inputs[1]?).getD plane.zAxis
  return onePlane (plane.adjustNormal normal)

/-- The point of a plane nearest to a point. Inputs: point, plane. -/
def planeClosestPointAt (inputs : List (Value α δ)) : Except Failure (Outputs α δ) := do
  let p ← needPoint .planeClosestPoint inputs[0]?
  let plane ← needPlane .planeClosestPoint inputs[1]?
  let c := plane.coordinates p
  return [("P", .point (plane.foot p)), ("uv", .point ⟨c.x, c.y, 0⟩), ("D", .number c.z)]

/-- The plane with given axes: an axis without direction, or one along the other, is replaced. -/
def planeOfAxes (origin : Point α) (xAxis yAxis : Option (Vec α)) : Frame α :=
  let x := (xAxis.bind Vec.unit?).getD Vec.basisX
  let y := (yAxis.bind Vec.unit?).getD x.orthogonal
  let y := if (x.cross y).isDegenerate then x.orthogonal else y
  .ofAxes origin x y (x.cross y)

/-- A plane from its parts. Inputs: origin, first axis, second axis. -/
def constructPlaneAt (inputs : List (Value α δ)) : Except Failure (Outputs α δ) := do
  let origin := (← Pin.point inputs[0]?).getD Point.origin
  let xAxis ← Pin.vector inputs[1]?
  let yAxis ← Pin.vector inputs[2]?
  return onePlane (planeOfAxes origin xAxis yAxis)

/-- Reverses or swaps the axes of a plane. Inputs: plane, reverse first, reverse second, swap. -/
def flipPlaneAt (inputs : List (Value α δ)) : Except Failure (Outputs α δ) := do
  let plane ← needPlane .flipPlane inputs[0]?
  let reverseX ← Pin.boolean inputs[1]? false
  let reverseY ← Pin.boolean inputs[2]? false
  let swap ← Pin.boolean inputs[3]? false
  return onePlane (plane.flip reverseX reverseY swap)

/-- The plane through three points. Inputs: the points. -/
def planeThroughPointsAt (inputs : List (Value α δ)) : Except Failure (Outputs α δ) := do
  let a ← needPoint .planeThroughPoints inputs[0]?
  let b ← needPoint .planeThroughPoints inputs[1]?
  let c ← needPoint .planeThroughPoints inputs[2]?
  return onePlane (.throughPoints a b c)

/-- The plane through a line and a point. Inputs: line, point. -/
def planeThroughLineAndPointAt (inputs : List (Value α δ)) : Except Failure (Outputs α δ) := do
  let line ← needLine .planeThroughLineAndPoint inputs[0]?
  let p ← needPoint .planeThroughLineAndPoint inputs[1]?
  return onePlane (.throughSegmentAndPoint line p)

/-- Planes with a normal. Inputs: origins, normal. -/
def planeNormalAt (inputs : List (Value α δ)) : Except Failure (Outputs α δ) := do
  let origins ← Pin.points inputs[0]?
  let normal := (← Pin.vector inputs[1]?).getD Vec.basisZ
  return planePerOrigin origins fun origin => .ofNormal origin normal

/-- The plane through two lines. Inputs: the lines. -/
def planeThroughLinesAt (inputs : List (Value α δ)) : Except Failure (Outputs α δ) := do
  let first ← needLine .planeThroughLines inputs[0]?
  let second ← needLine .planeThroughLines inputs[1]?
  return onePlane (.throughSegments first second)

/-- Turns a plane towards a direction. Inputs: plane, direction. -/
def alignPlaneAt (inputs : List (Value α δ)) : Except Failure (Outputs α δ) := do
  let plane ← needPlane .alignPlane inputs[0]?
  let direction := (← Pin.vector inputs[1]?).getD Vec.zero
  return onePlane (plane.alignToDirection direction) ++
    [("A", .number (plane.angleTo direction))]

/-- Turns a plane about its normal. Inputs: plane, angle. -/
def rotatePlaneAt (inputs : List (Value α δ)) : Except Failure (Outputs α δ) := do
  let plane ← needPlane .rotatePlane inputs[0]?
  let angle ← Pin.number inputs[1]? 0
  return onePlane (plane.rotate angle)

/-- The point with given coordinates in a plane. Inputs: plane, the three coordinates. -/
def pointOrientedAt (inputs : List (Value α δ)) : Except Failure (Outputs α δ) := do
  let plane := (← Pin.frame inputs[0]?).getD .world
  let u ← Pin.number inputs[1]? 0
  let v ← Pin.number inputs[2]? 0
  let w ← Pin.number inputs[3]? 0
  return [("P", .point (plane.pointAt u v w))]

end Component

end FieldGeometry
