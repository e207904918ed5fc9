import FieldGeometry.Scalar

/-!
# Vectors

Vectors of three coordinates. A vector carries a direction when its length is finite and above a
tolerance; `unit?` gives that direction, and everything that needs one says what stands in for it
when there is none.
-/

namespace FieldGeometry

/-- A vector of three coordinates. -/
structure Vec (α : Type) where
  x : α
  y : α
  z : α

namespace Vec

variable {α : Type} [Scalar α]

/-- The vector without length, which stands for the lack of a direction. -/
def zero : Vec α := ⟨0, 0, 0⟩

def basisX : Vec α := ⟨1, 0, 0⟩

def basisY : Vec α := ⟨0, 1, 0⟩

def basisZ : Vec α := ⟨0, 0, 1⟩

instance : Add (Vec α) where
  add v w := ⟨v.x + w.x, v.y + w.y, v.z + w.z⟩

instance : Sub (Vec α) where
  sub v w := ⟨v.x - w.x, v.y - w.y, v.z - w.z⟩

instance : Neg (Vec α) where
  neg v := ⟨-v.x, -v.y, -v.z⟩

instance : SMul α (Vec α) where
  smul s v := ⟨v.x * s, v.y * s, v.z * s⟩

instance : HDiv (Vec α) α (Vec α) where
  hDiv v s := ⟨v.x / s, v.y / s, v.z / s⟩

def dot (v w : Vec α) : α :=
  v.x * w.x + v.y * w.y + v.z * w.z

def cross (v w : Vec α) : Vec α :=
  ⟨v.y * w.z - v.z * w.y, v.z * w.x - v.x * w.z, v.x * w.y - v.y * w.x⟩

def lengthSq (v : Vec α) : α :=
  v.dot v

def length (v : Vec α) : α :=
  Scalar.sqrt v.lengthSq

def isFinite (v : Vec α) : Bool :=
  Scalar.isFinite v.x && Scalar.isFinite v.y && Scalar.isFinite v.z

/-- The unit vector along `v`, unless its length is infinite, undefined or at most `eps`. -/
def unitAbove? (eps : α) (v : Vec α) : Option (Vec α) :=
  let len := v.length
  if Scalar.isFinite len && decide (eps < len) then some (v / len) else none

/-- The unit vector along `v`, unless `v` carries no direction. -/
def unit? (v : Vec α) : Option (Vec α) :=
  v.unitAbove? Scalar.tolerance

/-- The unit vector along `v`, or the fallback when `v` carries no direction. -/
def unitOr (v fallback : Vec α) : Vec α :=
  v.unit?.getD fallback

/-- The unit vector along `v`, or the zero vector when `v` carries no direction. -/
def unitOrZero (v : Vec α) : Vec α :=
  v.unitOr zero

/-- The vector carries no direction. -/
def isDegenerate (v : Vec α) : Bool :=
  v.unit?.isNone

/-- The part of `v` perpendicular to the unit vector `axis`. -/
def reject (v axis : Vec α) : Vec α :=
  v - v.dot axis • axis

/-- The vector at the fraction `t` of the way from `v` to `w`. -/
def lerp (v w : Vec α) (t : α) : Vec α :=
  ⟨v.x + (w.x - v.x) * t, v.y + (w.y - v.y) * t, v.z + (w.z - v.z) * t⟩

/-- The vectors differ by at most `eps` in length. -/
def isNear (eps : α) (v w : Vec α) : Bool :=
  decide ((v - w).lengthSq ≤ eps * eps)

/-- A unit vector perpendicular to `v`: its product with the axis along which `v` is shortest,
the earlier axis winning a tie, and the first axis when this product carries no direction. -/
def orthogonal (v : Vec α) : Vec α :=
  let ax := Scalar.abs v.x
  let ay := Scalar.abs v.y
  let az := Scalar.abs v.z
  let candidate : Vec α :=
    if ax ≤ ay ∧ ax ≤ az then ⟨0, -v.z, v.y⟩
    else if ay ≤ ax ∧ ay ≤ az then ⟨-v.z, 0, v.x⟩
    else ⟨-v.y, v.x, 0⟩
  candidate.unitOr basisX

/-- The sum of a list of vectors, from the left. -/
def sum (vs : List (Vec α)) : Vec α :=
  vs.foldl (· + ·) zero

end Vec

end FieldGeometry
