import FieldGeometry.Segment

/-!
# Frames

Reference frames: an origin and three axes. `ofAxes` turns any three hints for the axes into a
right-handed orthonormal frame, and every constructor and operation below goes through it or keeps
axes that already came from it, so degenerate input never makes a construction fail.
-/

namespace FieldGeometry

/-- An origin with three axes. The axes of a frame that was given from outside may be anything;
`Frame.ofAxes` repairs them. -/
structure Frame (α : Type) where
  origin : Point α
  xAxis : Vec α
  yAxis : Vec α
  /-- The normal of the frame's plane. -/
  zAxis : Vec α

namespace Frame

variable {α : Type} [Scalar α]

/-- The frame of the coordinate axes, at a given origin. -/
def worldXY (origin : Point α) : Frame α :=
  ⟨origin, Vec.basisX, Vec.basisY, Vec.basisZ⟩

def world : Frame α :=
  worldXY Point.origin

/-- The right-handed orthonormal frame that three hints determine.

The normal is the hint for it. The second axis, as far as it is perpendicular to the normal,
decides the plane's axes; where the hint for it is missing or along the normal, the first does, and
where that fails too, any axis perpendicular to the normal serves. -/
def ofAxes (origin : Point α) (xHint yHint zHint : Vec α) : Frame α :=
  let z := zHint.unitOr Vec.basisZ
  let x := xHint.unitOr z.orthogonal
  let y := yHint.unitOr (z.cross x)
  let x := (y.cross z).unitOr ((x.reject z).unitOr z.orthogonal)
  let y := (z.cross x).unitOrZero
  ⟨origin, x, y, z⟩

/-- The frame in the plane of the first and third coordinate axes. -/
def worldXZ (origin : Point α) : Frame α :=
  ofAxes origin Vec.basisX Vec.basisZ (-Vec.basisY)

/-- The frame in the plane of the second and third coordinate axes. -/
def worldYZ (origin : Point α) : Frame α :=
  ofAxes origin Vec.basisY Vec.basisZ Vec.basisX

def ofNormal (origin : Point α) (normal : Vec α) : Frame α :=
  let z := normal.unitOr Vec.basisZ
  let x := z.orthogonal
  ofAxes origin x (z.cross x) z

/-- The frame through three points, with its origin at the first and its first axis towards the
second; the coordinate axes at the first point when the three lie on a line. -/
def throughPoints (a b c : Point α) : Frame α :=
  let ab := b - a
  let ac := c - a
  match (ab.cross ac).unit? with
  | none => worldXY a
  | some z =>
    let x := ab.unitOr z.orthogonal
    ofAxes a x (z.cross x).unitOrZero z

/-- The frame whose first axis is `direction` and whose plane contains `reference`, with
`reference` on the side of the second axis. -/
def alongDirection (origin : Point α) (direction reference : Vec α) : Frame α :=
  let x := direction.unitOr Vec.basisX
  let side := (reference.reject x).unitOr x.orthogonal
  let normal := (x.cross side).unitOr x.orthogonal
  ofAxes origin x (normal.cross x).unitOrZero normal

/-- The frame along a segment whose plane contains a point. -/
def throughSegmentAndPoint (s : Segment α) (p : Point α) : Frame α :=
  alongDirection s.start s.direction (p - s.start)

/-- The frame along one segment whose plane contains the direction of another. For parallel
segments the offset between their starts takes the place of the second direction. -/
def throughSegments (first second : Segment α) : Frame α :=
  let x := first.direction.unitOr Vec.basisX
  let reference :=
    if (second.direction.reject x).isDegenerate then second.start - first.start
    else second.direction
  alongDirection first.start x reference

/-- The coordinates of a point in the frame, as a point of the frame's own space. -/
def coordinates (f : Frame α) (p : Point α) : Point α :=
  let offset := p - f.origin
  ⟨offset.dot f.xAxis, offset.dot f.yAxis, offset.dot f.zAxis⟩

def pointAt (f : Frame α) (u v w : α) : Point α :=
  f.origin + u • f.xAxis + v • f.yAxis + w • f.zAxis

/-- The unit axes are perpendicular and right-handed, each within `eps`. -/
def isOrthonormal (eps : α) (f : Frame α) : Bool :=
  let isUnit (v : Vec α) : Bool := decide (Scalar.abs (v.length - 1) ≤ eps)
  let isRight (v w : Vec α) : Bool := decide (Scalar.abs (v.dot w) ≤ eps)
  isUnit f.xAxis && isUnit f.yAxis && isUnit f.zAxis &&
    isRight f.xAxis f.yAxis && isRight f.yAxis f.zAxis && isRight f.zAxis f.xAxis &&
    Vec.isNear eps (f.xAxis.cross f.yAxis) f.zAxis

end Frame

end FieldGeometry
