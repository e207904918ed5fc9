import FieldGeometry.Component.Planes
import FieldGeometry.Streamline

/-!
# Components on fields

Components that make fields of one source, put fields together and take them apart, evaluate them
and show them on a section.
-/

namespace FieldGeometry

namespace Component

variable {α δ : Type} [Scalar α]

/-- A field at pin `F`. -/
def oneField (f : Field α) : Outputs α δ :=
  [("F", .field f)]

/-- The field of a single law that acts in a region. -/
def fieldOf (model : Model α) (region : Option (Region α)) : Outputs α δ :=
  oneField (.ofSource (.ofModel model region))

def needField (c : Component) (pin : Pin α δ) : Except Failure (Field α) :=
  Pin.require c .field (Pin.field pin)

def needSegment (c : Component) (pin : Pin α δ) : Except Failure (Segment α) := do
  match ← Pin.curve pin with
  | some (.segment s) => return s
  | some (.polyline _) => throw (.polylineForSegment c)
  | none => throw (.requires c .atLeastLine)

/-- The field of a point charge. Inputs: position, charge, decay, region. -/
def pointChargeAt (inputs : List (Value α δ)) : Except Failure (Outputs α δ) := do
  let position ← Pin.require .pointCharge .atLeastPoint (Pin.point inputs[0]?)
  let charge ← Pin.number inputs[1]? 1
  let decay ← Pin.number inputs[2]? Scalar.two
  let region ← Pin.region inputs[3]?
  return fieldOf (.pointCharge ⟨position, charge, Scalar.maxNum decay 0⟩) region

/-- The field of a line charge. Inputs: line, charge, region. -/
def lineChargeAt (inputs : List (Value α δ)) : Except Failure (Outputs α δ) := do
  let line ← needSegment .lineCharge inputs[0]?
  let charge ← Pin.number inputs[1]? 1
  let region ← Pin.region inputs[2]?
  return fieldOf (.lineCharge ⟨line, charge⟩) region

/-- The field of a pull along a line. Inputs: line, region. -/
def vectorForceAt (inputs : List (Value α δ)) : Except Failure (Outputs α δ) := do
  let line ← needSegment .vectorForce inputs[0]?
  let region ← Pin.region inputs[1]?
  return fieldOf (.segmentForce line) region

/-- The field of a vortex. Inputs: plane, strength, radius, decay, region. -/
def spinForceAt (inputs : List (Value α δ)) : Except Failure (Outputs α δ) := do
  let plane := (← Pin.frame inputs[0]?).getD .world
  let strength ← Pin.number inputs[1]? 1
  let radius ← Pin.number inputs[2]? 1
  let decay ← Pin.number inputs[3]? Scalar.two
  let region ← Pin.region inputs[4]?
  return fieldOf (.spin ⟨plane, strength, Scalar.abs radius, Scalar.maxNum decay 0⟩) region

/-- The fields at each pin of a list in turn, as values that are no lists. -/
def mergeFieldsAt (inputs : List (Value α δ)) : Except Failure (Outputs α δ) := do
  let fields ← inputs.mapM Pin.fieldsOf
  return oneField (.merge fields.flatten)

/-- The sources of a field as fields of their own. Input: field. -/
def breakFieldAt (inputs : List (Value α δ)) : Except Failure (Outputs α δ) := do
  let field := (← Pin.field inputs[0]?).getD .empty
  return [("F", .list (field.split.map .field))]

/-- All of a value of a field: the point, vector, magnitude and direction, and the principal
directions, each as long as its factor says. -/
def tensorEntry (e : Evaluation α) : Value α δ :=
  .list [.point e.point, .vector e.vector, .number e.magnitude, .vector e.direction,
    .list (e.tensor.principal.map fun d => .vector (d.magnitude • d.direction))]

/-- The values of a field at points: lists of them when there are several points. Inputs: field,
points. -/
def evaluateFieldAt (inputs : List (Value α δ)) : Except Failure (Outputs α δ) := do
  let field ← needField .evaluateField inputs[0]?
  match ← Pin.points inputs[1]? with
  | [] => throw (.requires .evaluateField .point)
  | [p] =>
    let e := field.evaluate p
    return [("T", tensorEntry e), ("S", .number e.strength)]
  | ps =>
    let es := ps.map field.evaluate
    return [("T", .list (es.map tensorEntry)), ("S", .numbers (es.map (·.strength)))]

/-- A streamline of a field. Inputs: field, start, steps, step size, order. -/
def fieldLineAt (inputs : List (Value α δ)) : Except Failure (Outputs α δ) := do
  let field ← needField .fieldLine inputs[0]?
  let seed ← Pin.require .fieldLine .startPoint (Pin.point inputs[1]?)
  let standard : Streamline.Options α := .standard
  let steps ← Pin.count inputs[2]? standard.steps
  let stepSize ← Pin.number inputs[3]? standard.stepSize
  let order ← Pin.number inputs[4]? (standard.order.index : α)
  let options : Streamline.Options α :=
    ⟨steps, stepSize, .ofIndex (Scalar.toIndex (Scalar.round order))⟩
  return [("C", .points (field.streamline seed options))]

/-- A field sampled on a section. -/
structure Display (α : Type) where
  onSection : Section α
  /-- The values of the field at the points of the grid. -/
  evaluations : List (Evaluation α)

/-- Samples a field for display. Inputs: field, section, grid. -/
def display (c : Component) (inputs : List (Value α δ)) : Except Failure (Display α) := do
  let field ← needField c inputs[0]?
  let onSection ← Pin.displaySection inputs[1]?
  let grid ← Pin.displayGrid inputs[2]?
  return ⟨onSection, field.onGrid onSection grid⟩

/-- What is shown at each point of a display, at pin `D`. -/
def displayed (entry : Evaluation α → Value α δ) (d : Display α) : Outputs α δ :=
  [("D", .list (d.evaluations.map entry))]

/-- Shows all of a field on a section. -/
def tensorDisplayAt (inputs : List (Value α δ)) : Except Failure (Outputs α δ) :=
  (display .tensorDisplay inputs).map (displayed tensorEntry)

/-- Shows the magnitudes of a field on a section. -/
def scalarDisplayAt (inputs : List (Value α δ)) : Except Failure (Outputs α δ) :=
  (display .scalarDisplay inputs).map
    (displayed fun e => .list [.point e.point, .number e.magnitude])

/-- Shows the directions of a field on a section. -/
def directionDisplayAt (inputs : List (Value α δ)) : Except Failure (Outputs α δ) :=
  (display .directionDisplay inputs).map
    (displayed fun e => .list [.point e.point, .vector e.direction])

/-- The colour of a field along the normal, when no other is given. -/
def positiveColor : Color α :=
  ⟨Scalar.ratio 95 100, Scalar.ratio 45 100, Scalar.ratio 35 100⟩

/-- The colour of a field against the normal, when no other is given. -/
def negativeColor : Color α :=
  ⟨Scalar.ratio 35 100, Scalar.ratio 55 100, Scalar.ratio 95 100⟩

/-- The colour that shows how a field stands to a normal, between two colours. -/
def alignmentColor (positive negative : Color α) (normal : Vec α) (e : Evaluation α) : Color α :=
  negative.mix positive ((e.alignment normal + 1) / Scalar.two)

/-- Shows by colours how far a field stands off a section. Inputs: field, section, grid, the colour
along the normal, the colour against it. -/
def perpendicularDisplayAt (inputs : List (Value α δ)) : Except Failure (Outputs α δ) := do
  let d ← display .perpendicularDisplay inputs
  let positive := (← Pin.color inputs[3]?).getD positiveColor
  let negative := (← Pin.color inputs[4]?).getD negativeColor
  let normal := d.onSection.frame.zAxis
  return displayed
    (fun e => .list [.point e.point, .color (alignmentColor positive negative normal e)]) d

end Component

end FieldGeometry
