import FieldGeometry.Field

/-!
# Sections

A section is a rectangle in the plane of a frame. Sampled on a grid, it gives the points at which a
field is displayed: row after row, the second coordinate running fastest.
-/

namespace FieldGeometry

/-- The numbers of points along the two sides of a section. -/
structure Grid where
  uCount : Nat
  vCount : Nat
deriving DecidableEq, Repr

namespace Grid

/-- The most points along one side. -/
def maxCount : Nat := 1024

/-- Holds a count between 1 and the most points along one side. -/
def clampCount (n : Nat) : Nat :=
  min (max n 1) maxCount

/-- The grid with given counts, each held between 1 and the most points along one side. -/
def clamped (u v : Nat) : Grid :=
  ⟨clampCount u, clampCount v⟩

/-- Ten points along each side. -/
def standard : Grid :=
  clamped 10 10

end Grid

/-- A rectangle in the plane of a frame. -/
structure Section (α : Type) where
  frame : Frame α
  /-- The interval of the first coordinate. -/
  u : α × α
  /-- The interval of the second coordinate. -/
  v : α × α

namespace Section

variable {α : Type} [Scalar α]

/-- The unit square about the origin of a frame. -/
def centred (frame : Frame α) : Section α :=
  ⟨frame, (-Scalar.half, Scalar.half), (-Scalar.half, Scalar.half)⟩

/-- The unit square about the origin of space. -/
def standard : Section α :=
  centred .world

/-- The smallest interval that holds the numbers of a list; where there are none, the interval from
infinity down to its negative. -/
def extent (xs : List α) : α × α :=
  match xs.filter fun x => !Scalar.isNaN x with
  | [] => (1 / 0, -(1 / 0))
  | x :: rest => (rest.foldl Scalar.minNum x, rest.foldl Scalar.maxNum x)

/-- The rectangle in the plane of three points that just holds them. -/
def throughPoints (a b c : Point α) : Section α :=
  let frame := Frame.throughPoints a b c
  let coordinates := [a, b, c].map frame.coordinates
  ⟨frame, extent (coordinates.map (·.x)), extent (coordinates.map (·.y))⟩

/-- The fraction of a side at which a point of a grid lies; a single point lies at its start. -/
def fraction (index count : Nat) : α :=
  if count ≤ 1 then 0 else (index : α) / ((count : α) - 1)

def pointAt (s : Section α) (grid : Grid) (i j : Nat) : Point α :=
  s.frame.pointAt
    (s.u.1 + (s.u.2 - s.u.1) * fraction i grid.uCount)
    (s.v.1 + (s.v.2 - s.v.1) * fraction j grid.vCount) 0

/-- All points of a grid, the second index running fastest. -/
def points (s : Section α) (grid : Grid) : List (Point α) :=
  (List.range grid.uCount).flatMap fun i =>
    (List.range grid.vCount).map fun j => s.pointAt grid i j

end Section

namespace Field

variable {α : Type} [Scalar α]

/-- The values of a field at all points of a grid. -/
def onGrid (f : Field α) (s : Section α) (grid : Grid) : List (Evaluation α) :=
  (s.points grid).map f.evaluate

end Field

end FieldGeometry
