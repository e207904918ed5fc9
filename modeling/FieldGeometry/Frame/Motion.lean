import FieldGeometry.Frame

/-!
# Motions of frames

Operations that turn a frame into another: moving the origin, reversing and swapping axes, turning
about the normal, tilting to a new normal, and turning so that the frame agrees with a reference.
-/

namespace FieldGeometry

namespace Frame

variable {α : Type} [Scalar α]

def offset (f : Frame α) (distance : α) : Frame α :=
  { f with origin := f.origin + distance • f.zAxis }

def withOrigin (f : Frame α) (origin : Point α) : Frame α :=
  { f with origin := origin }

/-- The point of the frame's plane nearest to `p`. -/
def foot (f : Frame α) (p : Point α) : Point α :=
  let c := f.coordinates p
  f.pointAt c.x c.y 0

/-- Swaps the axes of the plane, then reverses either of them; the normal follows. -/
def flip (f : Frame α) (reverseX reverseY swap : Bool) : Frame α :=
  let x := if swap then f.yAxis else f.xAxis
  let y := if swap then f.xAxis else f.yAxis
  let x := if reverseX then -x else x
  let y := if reverseY then -y else y
  ofAxes f.origin x y ((x.cross y).unitOr f.zAxis)

/-- Turns the axes of the plane about the normal by an angle in radians. Angles that are not finite
or below the tolerance leave the frame as it is. -/
def rotate (f : Frame α) (angle : α) : Frame α :=
  if !Scalar.isFinite angle || decide (Scalar.abs angle < Scalar.tolerance) then f
  else
    let s := Scalar.sin angle
    let c := Scalar.cos angle
    ofAxes f.origin (c • f.xAxis + s • f.yAxis) (c • f.yAxis - s • f.xAxis) f.zAxis

/-- Tilts the frame to a new normal, keeping the first axis as close to the old one as it can. -/
def adjustNormal (f : Frame α) (normal : Vec α) : Frame α :=
  let z := normal.unitOr f.zAxis
  let x := (f.xAxis.reject z).unitOr ((f.yAxis.reject z).unitOr z.orthogonal)
  ofAxes f.origin x (z.cross x) z

/-- The angle from the first axis to the part of `direction` in the plane, or `0` when the
direction has no part there. -/
def angleTo (f : Frame α) (direction : Vec α) : α :=
  match (direction.reject f.zAxis).unit? with
  | none => 0
  | some target =>
    Scalar.atan2 (target.dot f.yAxis) (Scalar.clamp (target.dot f.xAxis) (-1) 1)

/-- Turns the frame about its normal so that the first axis follows `direction`. -/
def alignToDirection (f : Frame α) (direction : Vec α) : Frame α :=
  f.rotate (f.angleTo direction)

def reversed (f : Frame α) : Frame α :=
  { f with xAxis := -f.xAxis, yAxis := -f.yAxis, zAxis := -f.zAxis }

/-- The frame turned half a turn about its normal. -/
def halfTurn (f : Frame α) : Frame α :=
  { f with xAxis := -f.xAxis, yAxis := -f.yAxis }

/-- How well the axes of the plane agree with those of a reference. -/
def agreement (reference f : Frame α) : α :=
  f.xAxis.dot reference.xAxis + f.yAxis.dot reference.yAxis

/-- Orients a candidate consistently with a reference: reversed when its normal opposes the
reference's, and given a half turn when that brings the axes of the plane closer. -/
def align (reference candidate : Frame α) : Frame α :=
  let target := if candidate.zAxis.dot reference.zAxis < 0 then candidate.reversed else candidate
  let best :=
    if agreement reference target < agreement reference target.halfTurn then target.halfTurn
    else target
  ofAxes best.origin best.xAxis best.yAxis best.zAxis

/-- Aligns every frame of a list to the one before it. The first is aligned to the master, or kept
as it is when there is none. -/
def alignChain : Option (Frame α) → List (Frame α) → List (Frame α)
  | _, [] => []
  | none, f :: rest => f :: alignChain (some f) rest
  | some reference, f :: rest =>
    let aligned := align reference f
    aligned :: alignChain (some aligned) rest

end Frame

end FieldGeometry
