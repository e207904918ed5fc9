import FieldGeometry.Component
import FieldGeometry.Value

/-!
# Failures

Why a component gives no outputs, as causes, and the wording of each.
-/

namespace FieldGeometry

/-- What a pin is read as. -/
inductive Wanted where
  | number
  | boolean
  | point
  | vector
  | plane
  | curve
  | field
  /-- The region in which a source acts. -/
  | region
  | color
deriving DecidableEq, Repr

def Wanted.noun : Wanted → String
  | .number => "een getal"
  | .boolean => "een booleaanse waarde"
  | .point => "een punt"
  | .vector => "een vector"
  | .plane => "een vlak"
  | .curve => "een curve"
  | .field => "een veld"
  | .region => "een begrenzing"
  | .color => "een kleur"

/-- What a component cannot do without. -/
inductive Requirement where
  | point
  /-- A point and perhaps more. -/
  | atLeastPoint
  | startPoint
  | plane
  | line
  /-- A line and perhaps more. -/
  | atLeastLine
  | curve
  | field
deriving DecidableEq, Repr

def Requirement.noun : Requirement → String
  | .point => "een punt"
  | .atLeastPoint => "minimaal een punt"
  | .startPoint => "een startpunt"
  | .plane => "een vlak"
  | .line => "een lijn"
  | .atLeastLine => "minimaal een lijn"
  | .curve => "een curve"
  | .field => "een veld"

/-- Why a component gives no outputs. -/
inductive Failure where
  /-- A pin holds a value of another kind. -/
  | mismatch (wanted : Wanted) (found : Value.Kind)
  /-- A region is given by a number of values that does not describe one. -/
  | cornerCount (count : Nat)
  /-- A corner of a region is no finite point. -/
  | invalidCorner
  /-- A section is given by fewer than three finite points. -/
  | sectionPoints
  /-- A pin that a component needs is empty. -/
  | requires (component : Component) (requirement : Requirement)
  /-- A component that needs a segment got a polyline. -/
  | polylineForSegment (component : Component)
  /-- A point has no place on the curve. -/
  | unplaceable (component : Component) (index : Nat)
  /-- A named pin of a named component is empty. -/
  | missingInput (component pin : String)
  /-- Anything else, in words. -/
  | other (message : String)
deriving DecidableEq, Repr

def Failure.message : Failure → String
  | .mismatch wanted found => "verwachtte " ++ wanted.noun ++ ", kreeg " ++ found.name
  | .cornerCount count => s!"begrenzing verwacht twee hoekpunten, kreeg {count} waarden"
  | .invalidCorner => "begrenzing bevat een ongeldig hoekpunt"
  | .sectionPoints => "doorsnede vereist drie geldige punten"
  | .requires component requirement => component.title ++ " vereist " ++ requirement.noun
  | .polylineForSegment component =>
    component.title ++ " verwacht een lijnsegment, kreeg een polylijn"
  | .unplaceable component index =>
    component.title ++ s!" kon punt {index} niet op de curve plaatsen"
  | .missingInput component pin => component ++ " vereist invoer '" ++ pin ++ "'"
  | .other message => message

end FieldGeometry
