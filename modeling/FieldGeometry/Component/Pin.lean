import FieldGeometry.Component.Failure
import FieldGeometry.Curve.Search
import FieldGeometry.Field.Section

/-!
# Pins

Reading the input pins of a component. A pin may be empty, and a pin with no value, an empty list or
a list of one such value is read as empty. A list of one value is read as that value. Otherwise
nothing is converted silently: a number is never a point. Points, vectors and corners that are not
finite count as missing, and frames are repaired.
-/

namespace FieldGeometry

/-- The value given at a pin, if any. -/
abbrev Pin (α : Type) [Scalar α] (δ : Type) := Option (Value α δ)

namespace Pin

variable {α δ : Type} [Scalar α]

/-- The value inside lists of one value; none inside is none. -/
def content : Value α δ → Option (Value α δ)
  | .null => none
  | .list [] => none
  | .list [v] => content v
  | v => some v

def unwrap (pin : Pin α δ) : Option (Value α δ) :=
  pin.bind content

/-- A number; an empty pin or a number that is not finite gives the fallback. -/
def number (pin : Pin α δ) (fallback : α) : Except Failure α :=
  match unwrap pin with
  | none => .ok fallback
  | some (.number x) => .ok (Scalar.finiteOr x fallback)
  | some v => .error (.mismatch .number v.kind)

/-- The count nearest to a number; negative numbers give zero. -/
def toCount (x : α) : Nat :=
  Scalar.toCount (Scalar.maxNum (Scalar.round x) 0)

/-- A count; an empty pin gives the fallback. -/
def count (pin : Pin α δ) (fallback : Nat) : Except Failure Nat :=
  (number pin (fallback : α)).map toCount

/-- A truth value; an empty pin gives the fallback. -/
def boolean (pin : Pin α δ) (fallback : Bool) : Except Failure Bool :=
  match unwrap pin with
  | none => .ok fallback
  | some (.boolean b) => .ok b
  | some v => .error (.mismatch .boolean v.kind)

def finitePoint? (p : Point α) : Option (Point α) :=
  if p.isFinite then some p else none

/-- A point, if the pin has a finite one. -/
def point (pin : Pin α δ) : Except Failure (Option (Point α)) :=
  match unwrap pin with
  | none => .ok none
  | some (.point p) => .ok (finitePoint? p)
  | some v => .error (.mismatch .point v.kind)

/-- A value that is no list as a point: none when there is no value or no finite point. -/
def leafPoint : Value α δ → Except Failure (Option (Point α))
  | .null => .ok none
  | .point p => .ok (finitePoint? p)
  | v => .error (.mismatch .point v.kind)

/-- All finite points of a value, depth first. -/
def pointsOf (v : Value α δ) : Except Failure (List (Point α)) :=
  (v.leaves.mapM leafPoint).map (·.filterMap id)

def points : Pin α δ → Except Failure (List (Point α))
  | none => .ok []
  | some v => pointsOf v

/-- A vector, if the pin has a finite one. -/
def vector (pin : Pin α δ) : Except Failure (Option (Vec α)) :=
  match unwrap pin with
  | none => .ok none
  | some (.vector v) => .ok (if v.isFinite then some v else none)
  | some v => .error (.mismatch .vector v.kind)

/-- The orthonormal frame nearest to a given one, at the origin of space when its own origin is not
finite. -/
def repair (f : Frame α) : Frame α :=
  .ofAxes (if f.origin.isFinite then f.origin else Point.origin) f.xAxis f.yAxis f.zAxis

/-- A plane, if the pin has one; a finite point stands for the plane through it along the first two
coordinate axes. -/
def frame (pin : Pin α δ) : Except Failure (Option (Frame α)) :=
  match unwrap pin with
  | none => .ok none
  | some (.frame f) => .ok (some (repair f))
  | some (.point p) => .ok ((finitePoint? p).map .worldXY)
  | some v => .error (.mismatch .plane v.kind)

def frames : Pin α δ → Except Failure (List (Frame α))
  | none => .ok []
  | some v => (v.leaves.mapM fun leaf => frame (some leaf)).map (·.filterMap id)

def curve (pin : Pin α δ) : Except Failure (Option (Path α)) :=
  match unwrap pin with
  | none => .ok none
  | some (.curve c) => .ok (some c)
  | some v => .error (.mismatch .curve v.kind)

def field (pin : Pin α δ) : Except Failure (Option (Field α)) :=
  match unwrap pin with
  | none => .ok none
  | some (.field f) => .ok (some f)
  | some v => .error (.mismatch .field v.kind)

/-- A value that is no list as a field: none when there is no value. -/
def leafField : Value α δ → Except Failure (Option (Field α))
  | .null => .ok none
  | .field f => .ok (some f)
  | v => .error (.mismatch .field v.kind)

/-- All fields of a value, depth first. -/
def fieldsOf (v : Value α δ) : Except Failure (List (Field α)) :=
  (v.leaves.mapM leafField).map (·.filterMap id)

def fields : Pin α δ → Except Failure (List (Field α))
  | none => .ok []
  | some v => fieldsOf v

def corners (a b : Value α δ) : Except Failure (Point α × Point α) := do
  let a ← point (some a)
  let b ← point (some b)
  match a, b with
  | some a, some b => return (a, b)
  | _, _ => throw .invalidCorner

/-- A region from a value: two corners, which a frame may come before. -/
def regionOf : Value α δ → Except Failure (Option (Region α))
  | .null => .ok none
  | .list [] => .ok none
  | .list [v] => regionOf v
  | .list [.frame f, a, b] => do
    let (a, b) ← corners a b
    return some (.inFrame (repair f) a b)
  | .list [a, b] => do
    let (a, b) ← corners a b
    return some (.world a b)
  | .list items => .error (.cornerCount items.length)
  | v => .error (.mismatch .region v.kind)

/-- The region in which a source acts, if the pin has one. -/
def region : Pin α δ → Except Failure (Option (Region α))
  | none => .ok none
  | some v => regionOf v

/-- A colour with its channels held between `0` and `1`, if the pin has one. -/
def color (pin : Pin α δ) : Except Failure (Option (Color α)) :=
  match unwrap pin with
  | none => .ok none
  | some (.color c) => .ok (some (.clamped c.r c.g c.b))
  | some v => .error (.mismatch .color v.kind)

/-- A section: a plane, about whose origin the unit square lies, or three points, which the section
just holds. -/
def displaySection (pin : Pin α δ) : Except Failure (Section α) :=
  match pin with
  | some (.list (a :: b :: c :: rest)) => do
    match ← pointsOf (.list (a :: b :: c :: rest)) with
    | a :: b :: c :: _ => return .throughPoints a b c
    | _ => throw .sectionPoints
  | _ => do
    match ← frame pin with
    | some f => return .centred f
    | none => return .standard

/-- The grid on which a section is sampled: one count for both sides, or a list of two. -/
def displayGrid (pin : Pin α δ) : Except Failure Grid :=
  match pin with
  | some (.list (u :: v :: _)) => do
    let u ← count (some u) Grid.standard.uCount
    let v ← count (some v) u
    return .clamped u v
  | _ => do
    let n ← count pin Grid.standard.uCount
    return .clamped n n

/-- How thoroughly a curve is searched, by the number of samples. -/
def searchOptions (pin : Pin α δ) : Except Failure Search.Options := do
  let samples ← count pin 128
  return { sampleCount := samples }

/-- The value at a pin that a component cannot do without. -/
def require {β : Type} (component : Component) (requirement : Requirement)
    (read : Except Failure (Option β)) : Except Failure β := do
  match ← read with
  | some x => return x
  | none => throw (.requires component requirement)

end Pin

end FieldGeometry
