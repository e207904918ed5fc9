import FieldGeometry.Field

/-!
# Streamlines

A streamline follows a direction from point to point in steps of equal parameter. A step samples the
direction once or several times, as the order of the integrator says, and moves along a mean of the
samples. The line ends after the steps it was given, where there is no direction, or where a step
would not move.
-/

namespace FieldGeometry

namespace Streamline

/-- How a step is made from samples of the direction. -/
inductive Order where
  /-- Along the direction at the start. -/
  | euler
  /-- Along the mean of the directions at the start and half a step on. -/
  | midpoint
  /-- Along the plain mean of three directions, each sampled half a step along the one before. -/
  | threeSample
  /-- Along the classical weighted mean of four directions. -/
  | rungeKutta4
deriving DecidableEq, Repr

namespace Order

/-- The order with a number; numbers below the first and above the last count as these. -/
def ofIndex (n : Int) : Order :=
  if n ≤ 1 then .euler
  else if n = 2 then .midpoint
  else if n = 3 then .threeSample
  else .rungeKutta4

def index : Order → Nat
  | .euler => 1
  | .midpoint => 2
  | .threeSample => 3
  | .rungeKutta4 => 4

end Order

variable {α : Type} [Scalar α]

/-- How a streamline is integrated. -/
structure Options (α : Type) where
  steps : Nat
  /-- The parameter of one step. -/
  stepSize : α
  order : Order

/-- Twenty-five classical steps of one half. -/
def Options.standard : Options α :=
  ⟨25, Scalar.half, .rungeKutta4⟩

/-- The parameter of a step, the standard one in place of what is not finite. -/
def Options.stride (options : Options α) : α :=
  Scalar.finiteOr options.stepSize Scalar.half

def minSpeed : α :=
  Scalar.ratio 1 10

def maxSpeed : α :=
  ((5 : Nat) : α)

/-- The mean direction of a step of size `h` from `p`, where the direction there is `k₁`. A sample
without direction repeats the one before. -/
def slope (direction : Point α → Option (Vec α)) (h : α) (p : Point α) (k₁ : Vec α) :
    Order → Vec α
  | .euler => k₁
  | .midpoint =>
    let k₂ := (direction (p + (h * Scalar.half) • k₁)).getD k₁
    (Scalar.half : α) • (k₁ + k₂)
  | .threeSample =>
    let k₂ := (direction (p + (h * Scalar.half) • k₁)).getD k₁
    let k₃ := (direction (p + (h * Scalar.half) • k₂)).getD k₂
    (k₁ + k₂ + k₃) / ((3 : Nat) : α)
  | .rungeKutta4 =>
    let k₂ := (direction (p + (h * Scalar.half) • k₁)).getD k₁
    let k₃ := (direction (p + (h * Scalar.half) • k₂)).getD k₂
    let k₄ := (direction (p + h • k₃)).getD k₃
    (k₁ + (Scalar.two : α) • k₂ + (Scalar.two : α) • k₃ + k₄) / ((6 : Nat) : α)

/-- The point that a step reaches, if there is a direction at its start. -/
def advance? (direction : Point α → Option (Vec α)) (h : α) (order : Order) (p : Point α) :
    Option (Point α) :=
  (direction p).map fun k₁ => p + h • slope direction h p k₁ order

/-- Two points are so close that a step between them does not count. -/
def stalls (p q : Point α) : Bool :=
  decide (q.distanceSq p < (softening * softening : α))

/-- The point after `p` on a streamline, if the line goes on. -/
def step? (direction : Point α → Option (Vec α)) (h : α) (order : Order) (p : Point α) :
    Option (Point α) :=
  match advance? direction h order p with
  | none => none
  | some q => if stalls p q then none else some q

/-- The points after `p` that repeated steps reach, at most so many. -/
def follow (step? : Point α → Option (Point α)) : Nat → Point α → List (Point α)
  | 0, _ => []
  | n + 1, p =>
    match step? p with
    | none => []
    | some q => q :: follow step? n q

/-- The streamline of a direction from a seed, which is its first point. -/
def trace (direction : Point α → Option (Vec α)) (seed : Point α) (options : Options α) :
    List (Point α) :=
  seed :: follow (step? direction options.stride options.order) options.steps seed

end Streamline

namespace Field

variable {α : Type} [Scalar α]

/-- The direction of a field at a point, with the magnitude as speed, held between the least and the
greatest; none where the field is negligible. -/
def directionAt? (f : Field α) (p : Point α) : Option (Vec α) :=
  let e := f.evaluate p
  if Scalar.isNaN e.magnitude || decide (e.magnitude ≤ softening) then none
  else some (Scalar.clampFinite e.magnitude Streamline.minSpeed Streamline.maxSpeed • e.direction)

def streamline (f : Field α) (seed : Point α) (options : Streamline.Options α) : List (Point α) :=
  Streamline.trace f.directionAt? seed options

end Field

end FieldGeometry
