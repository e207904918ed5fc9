/-!
# Data of a host

What a host program sends and receives: data that say which kind of literal they are but not yet
what they mean. Whole numbers are kept apart from scalars, because only a literal without a fraction
can be a count.
-/

namespace FieldGeometry

/-- A tree of data, over scalars `α`. -/
inductive Datum (α : Type) where
  | null
  | bool (b : Bool)
  /-- A whole number. -/
  | int (n : Int)
  | scalar (x : α)
  | text (s : String)
  | list (items : List (Datum α))
  /-- Fields under names. -/
  | record (fields : List (String × Datum α))

namespace Datum

variable {α : Type}

/-- The first whole number too large for 64 bits without a sign. -/
def countBound : Int :=
  0x10000000000000000

/-- The first whole number too large for 64 bits with a sign. -/
def indexBound : Int :=
  0x8000000000000000

/-- The datum under a name in a list of fields, if there is one. -/
def field? (name : String) : List (String × Datum α) → Option (Datum α)
  | [] => none
  | (key, d) :: rest => if key = name then some d else field? name rest

/-- The datum under a name, if the datum is a record that has it. -/
def get? (d : Datum α) (name : String) : Option (Datum α) :=
  match d with
  | .record fields => field? name fields
  | _ => none

end Datum

end FieldGeometry
