import FieldGeometry.Curve

/-!
# Searching a curve

The point of a curve nearest to a given one, found by sampling: first at equal steps over the whole
curve, then in windows about the best sample so far, each half as wide as the one before. A sample
replaces the best only when it is strictly nearer, so the first of several equally near samples
wins. The search may miss the nearest point of a curve that bends between its samples.
-/

namespace FieldGeometry

/-- A place on a curve, found for a point. -/
structure Placement (α : Type) where
  /-- The parameter between `0` and `1`. -/
  t : α
  point : Point α
  /-- The square of the distance between that point and the one it was found for. -/
  distanceSq : α

namespace Placement

variable {α : Type} [Scalar α]

/-- The distance between the place and the point it was found for. -/
def distance (q : Placement α) : α :=
  Scalar.sqrt q.distanceSq

/-- The parameter rescaled to an interval. -/
def parameterIn (q : Placement α) (domain : α × α) : α :=
  domain.1 + q.t * (domain.2 - domain.1)

end Placement

namespace Search

variable {α : Type} [Scalar α]

/-- How thoroughly a curve is searched. -/
structure Options where
  /-- The number of samples over the whole curve; fewer than eight count as eight. -/
  sampleCount : Nat := 128
  /-- The number of windows searched afterwards. -/
  rounds : Nat := 4

def Options.coarseCount (options : Options) : Nat :=
  max options.sampleCount 8

/-- Equally spaced parameters from `0` to `1`. -/
def coarse (n : Nat) : List α :=
  (List.range n).map fun (i : Nat) => (i : α) / ((n - 1 : Nat) : α)

/-- The parameters of the window about a centre: eleven, equally spaced, held within `0` and `1`. -/
def window (centre radius : α) : List α :=
  let lo := Scalar.maxNum (centre - radius) 0
  let hi := Scalar.minNum (centre + radius) 1
  (List.range 11).map fun (j : Nat) => lo + (hi - lo) * (j : α) / ((10 : Nat) : α)

/-- The place at a parameter, if the curve has a point there at a finite distance. -/
def place? (curve : Curve α) (query : Point α) (t : α) : Option (Placement α) :=
  match curve.pointAt t with
  | none => none
  | some p =>
    let distanceSq := p.distanceSq query
    if Scalar.isFinite distanceSq then some ⟨t, p, distanceSq⟩ else none

/-- The place at a parameter if it is strictly nearer than the best so far, else the best. -/
def closer (curve : Curve α) (query : Point α) (best : Placement α) (t : α) : Placement α :=
  match place? curve query t with
  | none => best
  | some found => if found.distanceSq < best.distanceSq then found else best

/-- Takes a parameter into account, when there may be no place yet. -/
def consider (curve : Curve α) (query : Point α) (best : Option (Placement α)) (t : α) :
    Option (Placement α) :=
  match best with
  | none => place? curve query t
  | some best => some (closer curve query best t)

/-- Searches one window after another, each half as wide as the one before. -/
def refine (curve : Curve α) (query : Point α) : Nat → α → Placement α → Placement α
  | 0, _, best => best
  | rounds + 1, radius, best =>
    refine curve query rounds (radius * Scalar.half)
      ((window best.t radius).foldl (closer curve query) best)

end Search

namespace Curve

variable {α : Type} [Scalar α]

/-- The place on a curve nearest to a point, as far as the search finds it. -/
def nearest? (curve : Curve α) (query : Point α) (options : Search.Options) :
    Option (Placement α) :=
  let n := options.coarseCount
  ((Search.coarse n).foldl (Search.consider curve query) none).map
    (Search.refine curve query options.rounds (1 / (n : α)))

/-- The places on a curve nearest to each point of a list. -/
def pull (curve : Curve α) (ps : List (Point α)) (options : Search.Options) :
    List (Option (Placement α)) :=
  ps.map fun p => curve.nearest? p options

/-- The order of positions along a curve, in which a point without a position comes last. -/
def positionLe : Option α → Option α → Bool
  | some s, some t => Scalar.precedes s t
  | some _, none => true
  | none, some _ => false
  | none, none => true

/-- The indices of the points in the order in which the curve passes them. Points at the same
parameter keep their order, and those the search cannot place come last in theirs. -/
def sortAlong (curve : Curve α) (ps : List (Point α)) (options : Search.Options) : List Nat :=
  let keyed := (curve.pull ps options).map (·.map Placement.t) |>.zipIdx
  (keyed.mergeSort fun a b => positionLe a.1 b.1).map (·.2)

end Curve

end FieldGeometry
