import FieldGeometry.Vec

/-!
# Points

Points of space. A point moves by a vector, and two points differ by one. A box is the set of
points between two corners, axis by axis.
-/

namespace FieldGeometry

/-- A point of three coordinates. -/
structure Point (α : Type) where
  x : α
  y : α
  z : α

namespace Point

variable {α : Type} [Scalar α]

def origin : Point α := ⟨0, 0, 0⟩

instance : HAdd (Point α) (Vec α) (Point α) where
  hAdd p v := ⟨p.x + v.x, p.y + v.y, p.z + v.z⟩

instance : HSub (Point α) (Vec α) (Point α) where
  hSub p v := ⟨p.x - v.x, p.y - v.y, p.z - v.z⟩

instance : HSub (Point α) (Point α) (Vec α) where
  hSub p q := ⟨p.x - q.x, p.y - q.y, p.z - q.z⟩

/-- The vector from the origin to the point. -/
def toVec (p : Point α) : Vec α :=
  ⟨p.x, p.y, p.z⟩

/-- The point that a vector reaches from the origin. -/
def ofVec (v : Vec α) : Point α :=
  ⟨v.x, v.y, v.z⟩

def isFinite (p : Point α) : Bool :=
  Scalar.isFinite p.x && Scalar.isFinite p.y && Scalar.isFinite p.z

/-- The coordinates are equal one by one. -/
def same (p q : Point α) : Bool :=
  Scalar.same p.x q.x && Scalar.same p.y q.y && Scalar.same p.z q.z

/-- The point at the fraction `t` of the way from `p` to `q`. -/
def lerp (p q : Point α) (t : α) : Point α :=
  ⟨p.x + (q.x - p.x) * t, p.y + (q.y - p.y) * t, p.z + (q.z - p.z) * t⟩

def distanceSq (p q : Point α) : α :=
  (p - q).lengthSq

/-- The points are at most `eps` apart. -/
def isNear (eps : α) (p q : Point α) : Bool :=
  decide (p.distanceSq q ≤ eps * eps)

/-- The mean of a list of points, which the empty list does not have. -/
def centroid? (ps : List (Point α)) : Option (Point α) :=
  if ps.isEmpty then none
  else some (ofVec (Vec.sum (ps.map toVec) / (ps.length : α)))

end Point

/-- The points between two corners, axis by axis. -/
structure Box (α : Type) where
  /-- The corner with the least coordinates. -/
  min : Point α
  /-- The corner with the greatest coordinates. -/
  max : Point α

namespace Box

variable {α : Type} [Scalar α]

/-- The box that two opposite corners span, whatever their order. -/
def spanning (a b : Point α) : Box α where
  min := ⟨Scalar.minNum a.x b.x, Scalar.minNum a.y b.y, Scalar.minNum a.z b.z⟩
  max := ⟨Scalar.maxNum a.x b.x, Scalar.maxNum a.y b.y, Scalar.maxNum a.z b.z⟩

/-- The point lies in the box once each face is moved outwards by `eps`. -/
def contains (box : Box α) (eps : α) (p : Point α) : Bool :=
  decide (box.min.x - eps ≤ p.x ∧ p.x ≤ box.max.x + eps ∧
    box.min.y - eps ≤ p.y ∧ p.y ≤ box.max.y + eps ∧
    box.min.z - eps ≤ p.z ∧ p.z ≤ box.max.z + eps)

end Box

end FieldGeometry
