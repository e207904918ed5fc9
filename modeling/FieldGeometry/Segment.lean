import FieldGeometry.Point

/-!
# Segments

Straight segments from a start to an end, and the point of a segment nearest to a given one.
-/

namespace FieldGeometry

structure Segment (α : Type) where
  start : Point α
  stop : Point α

namespace Segment

variable {α : Type} [Scalar α]

def direction (s : Segment α) : Vec α :=
  s.stop - s.start

def length (s : Segment α) : α :=
  s.direction.length

/-- The point at the fraction `t` of the segment. -/
def pointAt (s : Segment α) (t : α) : Point α :=
  s.start.lerp s.stop t

/-- The squared length, `2⁻⁵²`, up to which a segment counts as its start. -/
def negligibleSq : α :=
  Scalar.ratio 1 4503599627370496

/-- The fraction of the segment at which it comes nearest to a point. -/
def nearestFraction (s : Segment α) (p : Point α) : α :=
  Scalar.clamp ((p - s.start).dot s.direction / s.direction.lengthSq) 0 1

/-- The point of the segment nearest to `p`. -/
def nearest (s : Segment α) (p : Point α) : Point α :=
  if s.direction.lengthSq ≤ negligibleSq then s.start else s.pointAt (s.nearestFraction p)

end Segment

end FieldGeometry
