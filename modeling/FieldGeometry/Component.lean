/-!
# Components

The components that can be evaluated: twenty on planes, twelve on fields and three on curves. Each
has a title, perhaps a nickname, and the identifiers under which hosts know it.
-/

namespace FieldGeometry

inductive Component where
  | xyPlane
  /-- Orients each plane of a list like the one before. -/
  | alignPlanes
  | planeFit
  | planeOffset
  | deconstructPlane
  | planeCoordinates
  | planeOrigin
  | xzPlane
  | adjustPlane
  | planeClosestPoint
  | constructPlane
  | flipPlane
  | planeThroughPoints
  | planeThroughLineAndPoint
  | planeNormal
  | planeThroughLines
  | alignPlane
  | rotatePlane
  | yzPlane
  | pointOriented
  | tensorDisplay
  | spinForce
  | scalarDisplay
  | directionDisplay
  | lineCharge
  | evaluateField
  | fieldLine
  /-- The sources of a field as fields of their own. -/
  | breakField
  /-- Shows by colours how far a field stands off a section. -/
  | perpendicularDisplay
  | pointCharge
  /-- The field of a pull along a line. -/
  | vectorForce
  | mergeFields
  | curveClosestPoint
  | sortAlongCurve
  | pullPoint
deriving DecidableEq, Repr

namespace Component

def all : List Component :=
  [.xyPlane, .alignPlanes, .planeFit, .planeOffset, .deconstructPlane, .planeCoordinates,
    .planeOrigin, .xzPlane, .adjustPlane, .planeClosestPoint, .constructPlane, .flipPlane,
    .planeThroughPoints, .planeThroughLineAndPoint, .planeNormal, .planeThroughLines, .alignPlane,
    .rotatePlane, .yzPlane, .pointOriented, .tensorDisplay, .spinForce, .scalarDisplay,
    .directionDisplay, .lineCharge, .evaluateField, .fieldLine, .breakField, .perpendicularDisplay,
    .pointCharge, .vectorForce, .mergeFields, .curveClosestPoint, .sortAlongCurve, .pullPoint]

def title : Component → String
  | .xyPlane => "XY Plane"
  | .alignPlanes => "Align Planes"
  | .planeFit => "Plane Fit"
  | .planeOffset => "Plane Offset"
  | .deconstructPlane => "Deconstruct Plane"
  | .planeCoordinates => "Plane Coordinates"
  | .planeOrigin => "Plane Origin"
  | .xzPlane => "XZ Plane"
  | .adjustPlane => "Adjust Plane"
  | .planeClosestPoint => "Plane Closest Point"
  | .constructPlane => "Construct Plane"
  | .flipPlane => "Flip Plane"
  | .planeThroughPoints => "Plane 3Pt"
  | .planeThroughLineAndPoint => "Line + Pt"
  | .planeNormal => "Plane Normal"
  | .planeThroughLines => "Line + Line"
  | .alignPlane => "Align Plane"
  | .rotatePlane => "Rotate Plane"
  | .yzPlane => "YZ Plane"
  | .pointOriented => "Point Oriented"
  | .tensorDisplay => "Tensor Display"
  | .spinForce => "Spin Force"
  | .scalarDisplay => "Scalar Display"
  | .directionDisplay => "Direction Display"
  | .lineCharge => "Line Charge"
  | .evaluateField => "Evaluate Field"
  | .fieldLine => "Field Line"
  | .breakField => "Break Field"
  | .perpendicularDisplay => "Perpendicular Display"
  | .pointCharge => "Point Charge"
  | .vectorForce => "Vector Force"
  | .mergeFields => "Merge Fields"
  | .curveClosestPoint => "Curve Closest Point"
  | .sortAlongCurve => "Sort Along Curve"
  | .pullPoint => "Pull Point"

/-- The short name of a component, if it has one. -/
def nickname? : Component → Option String
  | .xyPlane => some "XY"
  | .alignPlanes => some "Align"
  | .planeFit => some "PlFit"
  | .planeOffset => some "Pl Offset"
  | .deconstructPlane => some "DePlane"
  | .planeCoordinates => some "PlCoord"
  | .planeOrigin => some "Pl Origin"
  | .xzPlane => some "XZ"
  | .adjustPlane => some "PAdjust"
  | .planeClosestPoint => some "CP"
  | .constructPlane => some "Pl"
  | .flipPlane => some "PFlip"
  | .planeThroughPoints => some "Pl 3Pt"
  | .planeThroughLineAndPoint => some "LnPt"
  | .planeNormal => none
  | .planeThroughLines => some "LnLn"
  | .alignPlane => none
  | .rotatePlane => some "PRot"
  | .yzPlane => some "YZ"
  | .pointOriented => some "Point UVW"
  | .tensorDisplay => some "FTensor"
  | .spinForce => some "FSpin"
  | .scalarDisplay => some "FScalar"
  | .directionDisplay => some "FDir"
  | .lineCharge => some "LCharge"
  | .evaluateField => some "EvF"
  | .fieldLine => some "FLine"
  | .breakField => some "BreakF"
  | .perpendicularDisplay => some "FPerp"
  | .pointCharge => some "PCharge"
  | .vectorForce => some "FVector"
  | .mergeFields => some "MergeF"
  | .curveClosestPoint => some "CrvCP"
  | .sortAlongCurve => some "AlongCrv"
  | .pullPoint => some "Pull"

def names (c : Component) : List String :=
  c.title :: c.nickname?.toList

def guids : Component → List String
  | .xyPlane => ["17b7152b-d30d-4d50-b9ef-c9fe25576fc2"]
  | .alignPlanes => ["2318aee8-01fe-4ea8-9524-6966023fc622"]
  | .planeFit => ["33bfc73c-19b2-480b-81e6-f3523a012ea6"]
  | .planeOffset => ["3a0c7bda-3d22-4588-8bab-03f57a52a6ea"]
  | .deconstructPlane => ["3cd2949b-4ea8-4ffb-a70c-5c380f9f46ea"]
  | .planeCoordinates => ["5f127fa4-ca61-418e-bb2d-e3739d900f1f"]
  | .planeOrigin => ["75eec078-a905-47a1-b0d2-0934182b1e3d"]
  | .xzPlane => ["8cc3a196-f6a0-49ea-9ed9-0cb343a3ae64"]
  | .adjustPlane => ["9ce34996-d8c6-40d3-b442-1a7c8c093614"]
  | .planeClosestPoint => ["b075c065-efda-4c9f-9cc9-288362b1b4b9"]
  | .constructPlane => ["bc3e379e-7206-4e7b-b63a-ff61f4b38a3e"]
  | .flipPlane => ["c73e1ed0-82a2-40b0-b4df-8f10e445d60b"]
  | .planeThroughPoints => ["c98a6015-7a2f-423c-bc66-bdc505249b45"]
  | .planeThroughLineAndPoint => ["ccc3f2ff-c9f6-45f8-aa30-8a924a9bda36"]
  | .planeNormal => ["cfb6b17f-ca82-4f5d-b604-d4f69f569de3"]
  | .planeThroughLines => ["d788ad7f-6d68-4106-8b2f-9e55e6e107c0"]
  | .alignPlane => ["e76040ec-3b91-41e1-8e00-c74c23b89391"]
  | .rotatePlane => ["f6f14b09-6497-4564-8403-09e4eb5a6b82"]
  | .yzPlane => ["fad344bc-09b1-4855-a2e6-437ef5715fe3"]
  | .pointOriented => ["aa333235-5922-424c-9002-1e0b866a854b"]
  | .tensorDisplay => ["08619b6d-f9c4-4cb2-adcd-90959f08dc0d"]
  | .spinForce => ["4b59e893-d4ee-4e31-ae24-a489611d1088"]
  | .scalarDisplay => ["55f9ce6a-490c-4f25-a536-a3d47b794752"]
  | .directionDisplay => ["5ba20fab-6d71-48ea-a98f-cb034db6bbdc"]
  | .lineCharge => ["8cc9eb88-26a7-4baa-a896-13e5fc12416a"]
  | .evaluateField => ["a7c9f738-f8bd-4f64-8e7f-33341183e493"]
  | .fieldLine => ["add6be3e-c57f-4740-96e4-5680abaa9169"]
  | .breakField => ["b27d53bc-e713-475d-81fd-71cdd8de2e58"]
  | .perpendicularDisplay => ["bf106e4c-68f4-476f-b05b-9c15fb50e078"]
  | .pointCharge => ["cffdbaf3-8d33-4b38-9cad-c264af9fc3f4"]
  | .vectorForce => ["d27cc1ea-9ef7-47bf-8ee2-c6662da0e3d9"]
  | .mergeFields => ["d9a6fbd2-2e9f-472e-8147-33bf0233a115"]
  | .curveClosestPoint => ["2dc44b22-b1dd-460a-a704-6462d6e91096"]
  | .sortAlongCurve => ["59aaebf8-6654-46b7-8386-89223c773978"]
  | .pullPoint =>
    ["902289da-28dc-454b-98d4-b8f8aa234516", "cf3a0865-4882-46bd-91a1-d512acf95be4"]

end Component

end FieldGeometry
