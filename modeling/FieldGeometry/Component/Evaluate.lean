import FieldGeometry.Component.Curves
import FieldGeometry.Component.Fields

/-!
# Evaluating components

The outputs of every component for a list of inputs, or why there are none.
-/

namespace FieldGeometry

namespace Component

variable {α δ : Type} [Scalar α]

/-- The outputs of a component. -/
def evaluate (c : Component) (inputs : List (Value α δ)) : Except Failure (Outputs α δ) :=
  match c with
  | .xyPlane => worldPlane .worldXY inputs
  | .alignPlanes => alignPlanesAt inputs
  | .planeFit => planeFitAt inputs
  | .planeOffset => planeOffsetAt inputs
  | .deconstructPlane => deconstructPlaneAt inputs
  | .planeCoordinates => planeCoordinatesAt inputs
  | .planeOrigin => planeOriginAt inputs
  | .xzPlane => worldPlane .worldXZ inputs
  | .adjustPlane => adjustPlaneAt inputs
  | .planeClosestPoint => planeClosestPointAt inputs
  | .constructPlane => constructPlaneAt inputs
  | .flipPlane => flipPlaneAt inputs
  | .planeThroughPoints => planeThroughPointsAt inputs
  | .planeThroughLineAndPoint => planeThroughLineAndPointAt inputs
  | .planeNormal => planeNormalAt inputs
  | .planeThroughLines => planeThroughLinesAt inputs
  | .alignPlane => alignPlaneAt inputs
  | .rotatePlane => rotatePlaneAt inputs
  | .yzPlane => worldPlane .worldYZ inputs
  | .pointOriented => pointOrientedAt inputs
  | .tensorDisplay => tensorDisplayAt inputs
  | .spinForce => spinForceAt inputs
  | .scalarDisplay => scalarDisplayAt inputs
  | .directionDisplay => directionDisplayAt inputs
  | .lineCharge => lineChargeAt inputs
  | .evaluateField => evaluateFieldAt inputs
  | .fieldLine => fieldLineAt inputs
  | .breakField => breakFieldAt inputs
  | .perpendicularDisplay => perpendicularDisplayAt inputs
  | .pointCharge => pointChargeAt inputs
  | .vectorForce => vectorForceAt inputs
  | .mergeFields => mergeFieldsAt inputs
  | .curveClosestPoint => curveClosestPointAt inputs
  | .sortAlongCurve => sortAlongCurveAt inputs
  | .pullPoint => pullPointAt inputs

end Component

end FieldGeometry
