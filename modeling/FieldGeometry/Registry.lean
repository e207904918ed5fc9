import FieldGeometry.Component
import FieldGeometry.Dictionary
import FieldGeometry.Text.Blank
import FieldGeometry.Text.Lowercase

/-!
# Registries

A registry finds components by identifier or by name. Identifiers are compared without braces and
names without blanks around them, both without regard to case. What was registered last under a key
counts, and an identifier counts before a name. For a key it does not know, a registry suggests the
name nearest to it, by a distance of texts that the host brings along.
-/

namespace FieldGeometry

/-- The form of an identifier under which it is stored. -/
def guidKey (guid : String) : String :=
  let isBrace (c : Char) : Bool := c == '\x7b' || c == '\x7d'
  Text.lower (String.ofList (Text.trimBoth isBrace (Text.trim guid).toList))

/-- The form of a name under which it is stored. -/
def nameKey (name : String) : String :=
  Text.lower (Text.trim name)

/-- Components under identifiers and names. -/
structure Registry where
  byGuid : Dictionary Component
  byName : Dictionary Component

namespace Registry

/-- What goes wrong with a registry. -/
inductive Fault where
  /-- There is no component under a key; the nearest name, if any is near. -/
  | unknown (key : String) (suggestion : Option String)
  | emptyAlias
deriving DecidableEq, Repr

def Fault.message : Fault → String
  | .unknown key none => "geen component geregistreerd voor '" ++ key ++ "'"
  | .unknown key (some name) =>
    "geen component geregistreerd voor '" ++ key ++ "' (bedoelde je '" ++ name ++ "'?)"
  | .emptyAlias => "alias mag niet leeg zijn"

def empty : Registry := ⟨.empty, .empty⟩

def registerGuid (r : Registry) (guid : String) (c : Component) : Registry :=
  { r with byGuid := r.byGuid.insert (guidKey guid) c }

def registerName (r : Registry) (name : String) (c : Component) : Registry :=
  { r with byName := r.byName.insert (nameKey name) c }

def registerNames (r : Registry) (names : List String) (c : Component) : Registry :=
  names.foldl (fun r name => r.registerName name c) r

/-- Puts a component under all its identifiers and names. -/
def register (r : Registry) (c : Component) : Registry :=
  (c.guids.foldl (fun r guid => r.registerGuid guid c) r).registerNames c.names c

def standard : Registry :=
  Component.all.foldl register empty

/-- The component under an identifier, else under a name, else under another name. -/
def resolve (r : Registry) (guid name nickname : Option String) : Option Component :=
  (guid.bind fun guid => r.byGuid.get? (guidKey guid))
    <|> (name.bind fun name => r.byName.get? (nameKey name))
    <|> (nickname.bind fun name => r.byName.get? (nameKey name))

def names (r : Registry) : List String :=
  r.byName.keys

/-- The largest distance at which a name is suggested: a third of its size, and at least three. -/
def reach (name : String) : Nat :=
  max 3 (name.utf8ByteSize / 3)

section Suggestions

variable (distance : String → String → Nat)

/-- The first name comes before the second as a suggestion: it is nearer, or as near and smaller. -/
def nearer (key a b : String) : Bool :=
  let da := distance key a
  let db := distance key b
  decide (da < db) || (da == db && decide (a < b))

/-- The best suggestion for a key among names, if one is within reach. -/
def closest? (key : String) (names : List String) : Option String :=
  (names.filter fun name => distance key name ≤ reach name).foldl
    (fun best name =>
      match best with
      | none => some name
      | some best => some (if nearer distance key name best then name else best))
    none

/-- The component under a key, read as an identifier and as a name. -/
def require (r : Registry) (key : String) : Except Fault Component :=
  match r.resolve (some key) (some key) none with
  | some c => .ok c
  | none => .error (.unknown key (closest? distance (nameKey key) r.names))

/-- Puts the component under a key under a new name as well. Answers whether that was possible, and
the registry afterwards. -/
def registerAlias (r : Registry) (newName target : String) : Except Fault Unit × Registry :=
  if (Text.trim newName).isEmpty then (.error .emptyAlias, r)
  else
    match r.require distance target with
    | .error fault => (.error fault, r)
    | .ok c => (.ok (), r.registerName newName c)

end Suggestions

end Registry

end FieldGeometry
