import FieldGeometry.Color
import FieldGeometry.Curve
import FieldGeometry.Field

/-!
# Values

What the pins of components carry: a closed set of kinds, of which lists may nest. A value read as
another kind is refused with the two kinds named. Dates are carried along only, so their type is the
host's.
-/

namespace FieldGeometry

/-- A value at a pin, with dates of a given type. -/
inductive Value (α : Type) [Scalar α] (δ : Type) where
  | number (x : α)
  | boolean (b : Bool)
  | point (p : Point α)
  | vector (v : Vec α)
  /-- A frame, as it was given. -/
  | frame (f : Frame α)
  | curve (c : Path α)
  | field (f : Field α)
  /-- A colour, as it was given. -/
  | color (c : Color α)
  | date (d : δ)
  | text (s : String)
  /-- A list of values of any kind. -/
  | list (items : List (Value α δ))
  | null

namespace Value

inductive Kind where
  | number
  | boolean
  | point
  | vector
  | frame
  | curve
  | field
  | color
  | date
  | text
  | list
  | null
deriving DecidableEq, Repr

/-- The name of a kind, by which hosts know it. -/
def Kind.name : Kind → String
  | .number => "Number"
  | .boolean => "Boolean"
  | .point => "Point"
  | .vector => "Vector"
  | .frame => "Frame"
  | .curve => "Curve"
  | .field => "Field"
  | .color => "Color"
  | .date => "Date"
  | .text => "Text"
  | .list => "List"
  | .null => "Null"

variable {α δ : Type} [Scalar α]

def kind : Value α δ → Kind
  | .number _ => .number
  | .boolean _ => .boolean
  | .point _ => .point
  | .vector _ => .vector
  | .frame _ => .frame
  | .curve _ => .curve
  | .field _ => .field
  | .color _ => .color
  | .date _ => .date
  | .text _ => .text
  | .list _ => .list
  | .null => .null

def points (ps : List (Point α)) : Value α δ :=
  .list (ps.map .point)

def numbers (xs : List α) : Value α δ :=
  .list (xs.map .number)

def frames (fs : List (Frame α)) : Value α δ :=
  .list (fs.map .frame)

/-- A value of one kind where another was expected. -/
structure Mismatch where
  expected : Kind
  found : Kind
deriving DecidableEq, Repr

def Mismatch.message (m : Mismatch) : String :=
  "verwachtte type `" ++ m.expected.name ++ "` maar kreeg `" ++ m.found.name ++ "`"

def expectList : Value α δ → Except Mismatch (List (Value α δ))
  | .list items => .ok items
  | v => .error ⟨.list, v.kind⟩

def expectNumber : Value α δ → Except Mismatch α
  | .number x => .ok x
  | v => .error ⟨.number, v.kind⟩

def expectPoint : Value α δ → Except Mismatch (Point α)
  | .point p => .ok p
  | v => .error ⟨.point, v.kind⟩

def expectFrame : Value α δ → Except Mismatch (Frame α)
  | .frame f => .ok f
  | v => .error ⟨.frame, v.kind⟩

def expectField : Value α δ → Except Mismatch (Field α)
  | .field f => .ok f
  | v => .error ⟨.field, v.kind⟩

mutual

/-- The values that are no lists, depth first and from left to right. -/
def leaves : Value α δ → List (Value α δ)
  | .list items => leavesOf items
  | v => [v]

/-- The values that are no lists in each value of a list in turn. -/
def leavesOf : List (Value α δ) → List (Value α δ)
  | [] => []
  | v :: rest => leaves v ++ leavesOf rest

end

end Value

end FieldGeometry
