import FieldGeometry.Format.Datum
import FieldGeometry.Value

/-!
# Encoding

Values as data for a host. A structure becomes a record of its parts; a source model names its kind
among its parts; a curve is a record with the kind as its only name; a value is a record of its type
and its content. Parts that say nothing, such as an absent region or empty metadata, are left out.
How dates are written is the host's choice.
-/

namespace FieldGeometry

variable {α : Type}

def Point.encode (p : Point α) : Datum α :=
  .record [("x", .scalar p.x), ("y", .scalar p.y), ("z", .scalar p.z)]

def Vec.encode (v : Vec α) : Datum α :=
  .record [("x", .scalar v.x), ("y", .scalar v.y), ("z", .scalar v.z)]

def Point.encodeTriple (p : Point α) : Datum α :=
  .list [.scalar p.x, .scalar p.y, .scalar p.z]

def Vec.encodeTriple (v : Vec α) : Datum α :=
  .list [.scalar v.x, .scalar v.y, .scalar v.z]

def Segment.encode (s : Segment α) : Datum α :=
  .record [("start", s.start.encode), ("end", s.stop.encode)]

def Frame.encode (f : Frame α) : Datum α :=
  .record [("origin", f.origin.encode), ("x_axis", f.xAxis.encode), ("y_axis", f.yAxis.encode),
    ("z_axis", f.zAxis.encode)]

def Box.encode (b : Box α) : Datum α :=
  .record [("min", b.min.encode), ("max", b.max.encode)]

def Region.encode (r : Region α) : Datum α :=
  .record [("frame", r.frame.encode), ("local", r.box.encode)]

def Metadata.encode (m : Metadata) : Datum α :=
  .record (m.entries.map fun (key, s) => (key, .text s))

/-- The name of a kind of law in the host's format. -/
def Model.Kind.code : Model.Kind → String
  | .pointCharge => "pointCharge"
  | .lineCharge => "lineCharge"
  | .spin => "spin"
  | .segmentForce => "segmentForce"
  | .uniform => "uniform"

/-- A source model as a record of its kind and its parts. -/
def Model.encode (m : Model α) : Datum α :=
  match m with
  | .pointCharge c =>
    .record [("kind", .text Kind.pointCharge.code), ("position", c.position.encode),
      ("charge", .scalar c.charge), ("decay", .scalar c.decay)]
  | .lineCharge c =>
    .record [("kind", .text Kind.lineCharge.code), ("segment", c.segment.encode),
      ("charge", .scalar c.charge)]
  | .spin s =>
    .record [("kind", .text Kind.spin.code), ("frame", s.frame.encode),
      ("strength", .scalar s.strength), ("radius", .scalar s.radius), ("decay", .scalar s.decay)]
  | .segmentForce s =>
    .record [("kind", .text Kind.segmentForce.code), ("segment", s.encode)]
  | .uniform v =>
    .record [("kind", .text Kind.uniform.code), ("vector", v.encode)]

/-- The field of a record for metadata, left out when there are none. -/
def Metadata.field (m : Metadata) : List (String × Datum α) :=
  if m.isEmpty then [] else [("metadata", m.encode)]

/-- A source as a record; an absent region and empty metadata are left out. -/
def Source.encode (s : Source α) : Datum α :=
  let region := match s.region with
    | none => []
    | some r => [("bounds", r.encode)]
  .record (("model", s.model.encode) :: region ++ s.metadata.field)

/-- A field as a record; no regions and empty metadata are left out. -/
def Field.encode (f : Field α) : Datum α :=
  let regions :=
    if f.regions.isEmpty then [] else [("bounds", .list (f.regions.map Region.encode))]
  .record (("sources", .list (f.sources.map Source.encode)) :: regions ++ f.metadata.field)

def Color.encode (c : Color α) : Datum α :=
  .record [("r", .scalar c.r), ("g", .scalar c.g), ("b", .scalar c.b)]

section

variable [Scalar α]

/-- A polyline as a record of its corners and whether it is closed. -/
def Polyline.encode (l : Polyline α) : Datum α :=
  .record [("points", .list (l.points.map Point.encode)), ("closed", .bool l.closed)]

/-- A path as a record with its kind as the only name. -/
def Path.encode : Path α → Datum α
  | .segment s => .record [("line", s.encode)]
  | .polyline l => .record [("polyline", l.encode)]

namespace Value

variable {δ : Type} (writeDate : δ → Datum α)

mutual

/-- A value as a record of its type and its content; no value has no content. -/
def encode : Value α δ → Datum α
  | .number x => .record [("type", .text "Number"), ("value", .scalar x)]
  | .boolean b => .record [("type", .text "Boolean"), ("value", .bool b)]
  | .point p => .record [("type", .text "Point"), ("value", p.encodeTriple)]
  | .vector v => .record [("type", .text "Vector"), ("value", v.encodeTriple)]
  | .frame f => .record [("type", .text "Frame"), ("value", f.encode)]
  | .curve c => .record [("type", .text "Curve"), ("value", c.encode)]
  | .field f => .record [("type", .text "Field"), ("value", f.encode)]
  | .color c => .record [("type", .text "Color"), ("value", c.encode)]
  | .date d => .record [("type", .text "Date"), ("value", writeDate d)]
  | .text s => .record [("type", .text "Text"), ("value", .text s)]
  | .list items => .record [("type", .text "List"), ("value", .list (encodeAll items))]
  | .null => .record [("type", .text "Null")]

def encodeAll : List (Value α δ) → List (Datum α)
  | [] => []
  | v :: rest => encode v :: encodeAll rest

end

end Value

end

end FieldGeometry
