import FieldGeometry.Component.Planes

/-!
# Components on curves

Components that search a curve for the places nearest to points.
-/

namespace FieldGeometry

namespace Component

variable {α δ : Type} [Scalar α]

def needCurve (c : Component) (pin : Pin α δ) : Except Failure (Curve α) :=
  (Pin.require c .curve (Pin.curve pin)).map Path.toCurve

/-- The point of a curve nearest to a point. Inputs: point, curve, number of samples. -/
def curveClosestPointAt (inputs : List (Value α δ)) : Except Failure (Outputs α δ) := do
  match ← Pin.points inputs[0]? with
  | [] => throw (.requires .curveClosestPoint .point)
  | p :: _ =>
    let curve ← needCurve .curveClosestPoint inputs[1]?
    let options ← Pin.searchOptions inputs[2]?
    match curve.nearest? p options with
    | none => throw (.unplaceable .curveClosestPoint 0)
    | some q =>
      return [("P", .point q.point), ("t", .number (q.parameterIn curve.domain)),
        ("D", .number q.distance)]

/-- Sorts points by where they lie along a curve. Inputs: points, curve, number of samples. -/
def sortAlongCurveAt (inputs : List (Value α δ)) : Except Failure (Outputs α δ) := do
  let points ← Pin.points inputs[0]?
  let curve ← needCurve .sortAlongCurve inputs[1]?
  let options ← Pin.searchOptions inputs[2]?
  let order := curve.sortAlong points options
  return [("P", .points (order.filterMap fun i => points[i]?)),
    ("I", .numbers (order.map fun (i : Nat) => (i : α)))]

/-- The places found for points counted from an index, or the first index without one. -/
def allPlaced (c : Component) : Nat → List (Option (Placement α)) →
    Except Failure (List (Placement α))
  | _, [] => .ok []
  | i, none :: _ => .error (.unplaceable c i)
  | i, some q :: rest => (allPlaced c (i + 1) rest).map (q :: ·)

/-- The points of a curve nearest to points. Inputs: points, curve, number of samples. -/
def pullPointAt (inputs : List (Value α δ)) : Except Failure (Outputs α δ) := do
  let points ← Pin.points inputs[0]?
  let curve ← needCurve .pullPoint inputs[1]?
  let options ← Pin.searchOptions inputs[2]?
  let placed ← allPlaced .pullPoint 0 (curve.pull points options)
  return [("P", .points (placed.map (·.point))),
    ("t", .numbers (placed.map fun q => q.parameterIn curve.domain)),
    ("D", .numbers (placed.map Placement.distance))]

end Component

end FieldGeometry
