import FieldGeometry.Format.Datum
import FieldGeometry.Value

/-!
# Decoding

Values from a host's data, or nothing where the data have another form. A structure may come as a
record, of which unknown names are ignored, or as a list of its parts in order. A whole number
serves where a scalar is wanted, but no scalar where a whole number is. Parts that encoding leaves
out may be missing. How dates are read is the host's choice.
-/

namespace FieldGeometry

variable {α : Type}

namespace Datum

def bool? : Datum α → Option Bool
  | .bool b => some b
  | _ => none

def text? : Datum α → Option String
  | .text s => some s
  | _ => none

def int? : Datum α → Option Int
  | .int n => some n
  | _ => none

/-- A whole number of 64 bits without a sign. -/
def count? : Datum α → Option Nat
  | .int n => if 0 ≤ n ∧ n < countBound then some n.toNat else none
  | _ => none

/-- A whole number of 64 bits with a sign. -/
def index? : Datum α → Option Int
  | .int n => if -indexBound ≤ n ∧ n < indexBound then some n else none
  | _ => none

/-- A scalar, or a whole number as one. -/
def scalar? [Scalar α] : Datum α → Option α
  | .scalar x => some x
  | .int n => some (Scalar.ofInt n)
  | _ => none

/-- A list, each item read alike. -/
def listOf? {β : Type} (read : Datum α → Option β) : Datum α → Option (List β)
  | .list items => items.mapM read
  | _ => none

/-- The parts of a structure by their names, or in their order; those missing are none. -/
def parts (names : List String) : Datum α → Option (List (Option (Datum α)))
  | .record fields => some (names.map fun name => field? name fields)
  | .list items =>
    if items.length ≤ names.length then
      some (items.map some ++ List.replicate (names.length - items.length) none)
    else none
  | _ => none

end Datum

section

variable [Scalar α]

def Point.decode? (d : Datum α) : Option (Point α) :=
  match d.parts ["x", "y", "z"] with
  | some [some x, some y, some z] => do return ⟨← x.scalar?, ← y.scalar?, ← z.scalar?⟩
  | _ => none

def Vec.decode? (d : Datum α) : Option (Vec α) :=
  match d.parts ["x", "y", "z"] with
  | some [some x, some y, some z] => do return ⟨← x.scalar?, ← y.scalar?, ← z.scalar?⟩
  | _ => none

/-- A point from a list of exactly three scalars. -/
def Point.decodeTriple? : Datum α → Option (Point α)
  | .list [x, y, z] => do return ⟨← x.scalar?, ← y.scalar?, ← z.scalar?⟩
  | _ => none

/-- A vector from a list of exactly three scalars. -/
def Vec.decodeTriple? : Datum α → Option (Vec α)
  | .list [x, y, z] => do return ⟨← x.scalar?, ← y.scalar?, ← z.scalar?⟩
  | _ => none

def Segment.decode? (d : Datum α) : Option (Segment α) :=
  match d.parts ["start", "end"] with
  | some [some start, some stop] => do return ⟨← Point.decode? start, ← Point.decode? stop⟩
  | _ => none

/-- A frame from its origin and axes, which may be any vectors. -/
def Frame.decode? (d : Datum α) : Option (Frame α) :=
  match d.parts ["origin", "x_axis", "y_axis", "z_axis"] with
  | some [some origin, some x, some y, some z] => do
    return ⟨← Point.decode? origin, ← Vec.decode? x, ← Vec.decode? y, ← Vec.decode? z⟩
  | _ => none

/-- A box from its corners, taken as they are. -/
def Box.decode? (d : Datum α) : Option (Box α) :=
  match d.parts ["min", "max"] with
  | some [some min, some max] => do return ⟨← Point.decode? min, ← Point.decode? max⟩
  | _ => none

def Region.decode? (d : Datum α) : Option (Region α) :=
  match d.parts ["frame", "local"] with
  | some [some frame, some box] => do return ⟨← Frame.decode? frame, ← Box.decode? box⟩
  | _ => none

def Metadata.decode? : Datum α → Option Metadata
  | .record fields => do
    let entries ← fields.mapM fun (key, d) => do return (key, ← d.text?)
    return .ofList entries
  | _ => none

def PointCharge.decode? (d : Datum α) : Option (PointCharge α) :=
  match d.parts ["position", "charge", "decay"] with
  | some [some position, some charge, some decay] => do
    return ⟨← Point.decode? position, ← charge.scalar?, ← decay.scalar?⟩
  | _ => none

def LineCharge.decode? (d : Datum α) : Option (LineCharge α) :=
  match d.parts ["segment", "charge"] with
  | some [some segment, some charge] => do
    return ⟨← Segment.decode? segment, ← charge.scalar?⟩
  | _ => none

def Spin.decode? (d : Datum α) : Option (Spin α) :=
  match d.parts ["frame", "strength", "radius", "decay"] with
  | some [some frame, some strength, some radius, some decay] => do
    return ⟨← Frame.decode? frame, ← strength.scalar?, ← radius.scalar?, ← decay.scalar?⟩
  | _ => none

/-- The segment of a segment force from its only part. -/
def Model.decodeSegment? (d : Datum α) : Option (Segment α) :=
  match d.parts ["segment"] with
  | some [some segment] => Segment.decode? segment
  | _ => none

/-- The vector of a uniform force from its only part. -/
def Model.decodeVector? (d : Datum α) : Option (Vec α) :=
  match d.parts ["vector"] with
  | some [some vector] => Vec.decode? vector
  | _ => none

/-- A source model of a given kind from its parts. -/
def Model.ofKind? (kind : String) (d : Datum α) : Option (Model α) :=
  match kind with
  | "pointCharge" => (PointCharge.decode? d).map .pointCharge
  | "lineCharge" => (LineCharge.decode? d).map .lineCharge
  | "spin" => (Spin.decode? d).map .spin
  | "segmentForce" => (Model.decodeSegment? d).map .segmentForce
  | "uniform" => (Model.decodeVector? d).map .uniform
  | _ => none

/-- A source model from a record with its kind, or from a list that starts with it. -/
def Model.decode? : Datum α → Option (Model α)
  | .record fields =>
    match Datum.field? "kind" fields with
    | some (.text kind) => Model.ofKind? kind (.record fields)
    | _ => none
  | .list (.text kind :: rest) => Model.ofKind? kind (.list rest)
  | _ => none

def Metadata.decodeField? : Option (Datum α) → Option Metadata
  | none => some .empty
  | some d => Metadata.decode? d

def Source.decodeRegion? : Option (Datum α) → Option (Option (Region α))
  | none => some none
  | some .null => some none
  | some d => (Region.decode? d).map some

/-- A source from its model and, if it has them, its region and metadata. -/
def Source.decode? (d : Datum α) : Option (Source α) :=
  match d.parts ["model", "bounds", "metadata"] with
  | some [some model, region, metadata] => do
    return ⟨← Model.decode? model, ← Source.decodeRegion? region,
      ← Metadata.decodeField? metadata⟩
  | _ => none

def Field.decodeRegions? : Option (Datum α) → Option (List (Region α))
  | none => some []
  | some d => d.listOf? Region.decode?

/-- A field from its sources and, if it has them, its regions and metadata. -/
def Field.decode? (d : Datum α) : Option (Field α) :=
  match d.parts ["sources", "bounds", "metadata"] with
  | some [some sources, regions, metadata] => do
    return ⟨← sources.listOf? Source.decode?, ← Field.decodeRegions? regions,
      ← Metadata.decodeField? metadata⟩
  | _ => none

/-- A colour from its channels, taken as they are. -/
def Color.decode? (d : Datum α) : Option (Color α) :=
  match d.parts ["r", "g", "b"] with
  | some [some r, some g, some b] => do return ⟨← r.scalar?, ← g.scalar?, ← b.scalar?⟩
  | _ => none

/-- A polyline from its corners; one that does not say so is open. -/
def Polyline.decode? (d : Datum α) : Option (Polyline α) :=
  match d.parts ["points", "closed"] with
  | some [some points, closed] => do
    let points ← points.listOf? Point.decode?
    let closed ← match closed with
      | none => some false
      | some closed => closed.bool?
    (Polyline.ofPoints points closed).toOption
  | _ => none

/-- A path from a record with its kind as the only name. -/
def Path.decode? : Datum α → Option (Path α)
  | .record [("line", d)] => (Segment.decode? d).map .segment
  | .record [("polyline", d)] => (Polyline.decode? d).map .polyline
  | _ => none

end

namespace Value

variable [Scalar α] {δ : Type} (readDate : Datum α → Option δ)

/-- A value of a given type, other than a list, from its content. -/
def ofContent? (type : String) (content : Option (Datum α)) : Option (Value α δ) :=
  match type, content with
  | "Number", some d => d.scalar?.map .number
  | "Boolean", some d => d.bool?.map .boolean
  | "Point", some d => (Point.decodeTriple? d).map .point
  | "Vector", some d => (Vec.decodeTriple? d).map .vector
  | "Frame", some d => (Frame.decode? d).map .frame
  | "Curve", some d => (Path.decode? d).map .curve
  | "Field", some d => (Field.decode? d).map .field
  | "Color", some d => (Color.decode? d).map .color
  | "Date", some d => (readDate d).map .date
  | "Text", some d => d.text?.map .text
  | "Null", none => some .null
  | "Null", some .null => some .null
  | _, _ => none

mutual

/-- A value from a record of its type and content, or from a list of the two. -/
def decode? : Datum α → Option (Value α δ)
  | .record fields =>
    match Datum.field? "type" fields with
    | some (.text type) =>
      if type = "List" then (decodeContent? fields).map .list
      else ofContent? readDate type (Datum.field? "value" fields)
    | _ => none
  | .list items => decodePair? items
  | _ => none

/-- A value from its type and its content. -/
def decodePair? : List (Datum α) → Option (Value α δ)
  | [.text type, content] =>
    if type = "List" then (decodeItems? content).map .list
    else ofContent? readDate type (some content)
  | _ => none

/-- The items of a list value from the field of a record that holds its content. -/
def decodeContent? : List (String × Datum α) → Option (List (Value α δ))
  | [] => none
  | (key, d) :: rest => if key = "value" then decodeItems? d else decodeContent? rest

/-- The items of a list value from its content. -/
def decodeItems? : Datum α → Option (List (Value α δ))
  | .list items => decodeAll? items
  | _ => none

def decodeAll? : List (Datum α) → Option (List (Value α δ))
  | [] => some []
  | d :: rest => do return (← decode? d) :: (← decodeAll? rest)

end

end Value

end FieldGeometry
