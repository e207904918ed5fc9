import FieldGeometry.Segment

/-!
# Curves

A curve gives a point for a parameter between `0` and `1`, where it has one, and may declare the
interval that its own parameters run through. Segments, polylines and functions are curves. A
polyline is parameterised by arc length.
-/

namespace FieldGeometry

/-- A partial function from parameters to points. -/
structure Curve (α : Type) where
  /-- The point at a parameter between `0` and `1`, if the curve has one there. -/
  pointAt : α → Option (Point α)
  /-- The interval that the curve's own parameters run through. -/
  domain : α × α

namespace Curve

variable {α : Type} [Scalar α]

/-- A function as a curve; points that are not finite are none. -/
def ofFunction (f : α → Option (Point α)) (domain : α × α) : Curve α where
  pointAt t := (f t).filter Point.isFinite
  domain := domain

def ofSegment (s : Segment α) : Curve α :=
  ofFunction (fun t => some (s.pointAt t)) (0, 1)

end Curve

/-- A chain of segments through at least two finite points, which may return to its first. -/
structure Polyline (α : Type) [Scalar α] where
  points : List (Point α)
  /-- A last segment leads back to the first corner. -/
  closed : Bool
  finite : points.all Point.isFinite = true
  two_le : 2 ≤ points.length

namespace Polyline

/-- Why a list of points is no polyline. -/
inductive Defect where
  /-- Fewer than two points are left. -/
  | tooFewPoints (count : Nat)
  /-- The point at a position is the first that is not finite. -/
  | notFinite (index : Nat)
deriving DecidableEq, Repr

def Defect.message : Defect → String
  | .tooFewPoints count => s!"polyline requires at least 2 points, got {count}"
  | .notFinite index => s!"polyline point {index} is not finite"

variable {α : Type} [Scalar α]

/-- Drops the last of more than two points when it repeats the first. -/
def dropClosing (ps : List (Point α)) : List (Point α) :=
  match ps.head?, ps.getLast? with
  | some first, some last => if 2 < ps.length && first.same last then ps.dropLast else ps
  | _, _ => ps

/-- The corners of the polyline through a list of points: a closed one does not repeat its first
corner at the end. -/
def corners (ps : List (Point α)) (closed : Bool) : List (Point α) :=
  if closed then dropClosing ps else ps

theorem corners_subset (ps : List (Point α)) (closed : Bool) :
    ∀ p ∈ corners ps closed, p ∈ ps := by
  intro p hp
  unfold corners dropClosing at hp
  split at hp
  · split at hp
    · split at hp
      · exact (List.dropLast_sublist ps).subset hp
      · exact hp
    · exact hp
  · exact hp

/-- The polyline through a list of points, or what is wrong with them. -/
def ofPoints (ps : List (Point α)) (closed : Bool) : Except Defect (Polyline α) :=
  if finite : ps.all Point.isFinite = true then
    if two_le : 2 ≤ (corners ps closed).length then
      have kept : (corners ps closed).all Point.isFinite = true := by
        rw [List.all_eq_true] at finite ⊢
        exact fun p hp => finite p (corners_subset ps closed p hp)
      .ok ⟨corners ps closed, closed, kept, two_le⟩
    else .error (.tooFewPoints (corners ps closed).length)
  else .error (.notFinite (ps.findIdx fun p => !p.isFinite))

/-- The segment from the last corner back to the first, when the polyline is closed. -/
def closing (l : Polyline α) : List (Segment α) :=
  match l.closed, l.points.getLast?, l.points.head? with
  | true, some last, some first => [⟨last, first⟩]
  | _, _, _ => []

/-- The segments in order, the closing one last. -/
def segments (l : Polyline α) : List (Segment α) :=
  List.zipWith Segment.mk l.points l.points.tail ++ l.closing

def length (l : Polyline α) : α :=
  Scalar.sum (l.segments.map Segment.length)

/-- The point at a distance along a chain of segments; beyond the end, where the chain ends. -/
def walk : List (Segment α) → α → Option (Point α) → Option (Point α)
  | [], _, reached => reached
  | s :: rest, remaining, _ =>
    if remaining ≤ s.length ∧ 0 < s.length then some (s.pointAt (remaining / s.length))
    else walk rest (remaining - s.length) (some s.stop)

/-- The point at a fraction of the length. -/
def pointAt (l : Polyline α) (t : α) : Option (Point α) :=
  if !Scalar.isFinite t then none
  else if decide (l.length ≤ 0) || !Scalar.isFinite l.length then l.points.head?
  else walk l.segments (Scalar.clamp t 0 1 * l.length) none

end Polyline

/-- The curves that a value can hold. -/
inductive Path (α : Type) [Scalar α] where
  | segment (s : Segment α)
  | polyline (l : Polyline α)

namespace Path

variable {α : Type} [Scalar α]

def toCurve : Path α → Curve α
  | .segment s => .ofSegment s
  | .polyline l => ⟨l.pointAt, (0, 1)⟩

end Path

end FieldGeometry
