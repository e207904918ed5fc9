/-!
# Scalars

The arithmetic that the geometry is written over. A definition over `Scalar α` runs with machine
numbers, where `α` has rounding, infinities and a value that is not a number, and is reasoned about
with the real numbers, where it has none of them. No law ties the operations together except that
`precedes` is a total order, which sorting needs.

The second half holds the guards that keep what is not a number out of a computation: the lesser
and greater of two numbers, clamping into an interval, and a fallback for what is not finite.
-/

namespace FieldGeometry

/-- The operations the geometry computes with. -/
class Scalar (α : Type) extends
    Zero α, One α, NatCast α, Add α, Sub α, Mul α, Div α, Neg α, LT α, LE α where
  decLt : DecidableLT α
  decLe : DecidableLE α
  abs : α → α
  sqrt : α → α
  /-- The length of the vector in the plane with two coordinates, which may be finite where the
  squares of the coordinates are not. -/
  hypot : α → α → α
  /-- The sine of an angle in radians. -/
  sin : α → α
  /-- The cosine of an angle in radians. -/
  cos : α → α
  /-- The angle in `(-π, π]` of the point whose ordinate comes first and abscissa second. -/
  atan2 : α → α → α
  pow : α → α → α
  /-- The nearest whole number, a half going away from zero. -/
  round : α → α
  /-- Neither infinite nor undefined. -/
  isFinite : α → Bool
  /-- The result of an undefined operation. -/
  isNaN : α → Bool
  /-- The whole part as a count, held within 64 bits; nothing below zero counts. -/
  toCount : α → Nat
  /-- The whole part as an index, held within 64 bits and a sign. -/
  toIndex : α → Int
  /-- A total order on all scalars, the undefined ones included. -/
  precedes : α → α → Bool
  precedes_trans : ∀ a b c, precedes a b = true → precedes b c = true → precedes a c = true
  precedes_total : ∀ a b, (precedes a b || precedes b a) = true

namespace Scalar

attribute [reducible, instance] Scalar.decLt Scalar.decLe

-- A type that has operations of its own keeps them: these are found only where nothing else is.
attribute [instance (low)] Scalar.toZero Scalar.toOne Scalar.toNatCast Scalar.toAdd Scalar.toSub
  Scalar.toMul Scalar.toDiv Scalar.toNeg Scalar.toLT Scalar.toLE

variable {α : Type} [Scalar α]

/-- The scalar nearest to a fraction of whole numbers. -/
def ratio (m n : Nat) : α :=
  (m : α) / (n : α)

def half : α :=
  ratio 1 2

def two : α :=
  ((2 : Nat) : α)

def ofInt : Int → α
  | .ofNat n => (n : α)
  | .negSucc n => -((n + 1 : Nat) : α)

/-- Equality by comparison: an undefined scalar equals nothing, and both zeros are equal. -/
def same (a b : α) : Bool :=
  decide (a ≤ b) && decide (b ≤ a)

/-- The lesser of two scalars; an undefined one gives way to the other. -/
def minNum (a b : α) : α :=
  if isNaN a then b else if b < a then b else a

/-- The greater of two scalars; an undefined one gives way to the other. -/
def maxNum (a b : α) : α :=
  if isNaN a then b else if a < b then b else a

/-- The nearest scalar of the interval from `lo` to `hi`; an undefined scalar stays undefined. -/
def clamp (x lo hi : α) : α :=
  let raised := if x < lo then lo else x
  if hi < raised then hi else raised

/-- The scalar itself when it is finite, else the fallback. -/
def finiteOr (x fallback : α) : α :=
  if isFinite x then x else fallback

/-- The nearest scalar of the interval from `lo` to `hi`; an undefined scalar becomes `lo`. -/
def clampFinite (x lo hi : α) : α :=
  if isNaN x then lo else minNum (maxNum x lo) hi

/-- The resolution of lengths, `10⁻⁹`: at or below it a vector carries no direction. -/
def tolerance : α :=
  ratio 1 1000000000

/-- The threshold below which an off-diagonal entry of a tensor counts as zero, `10⁻¹⁰`. -/
def eigenTolerance : α :=
  ratio 1 10000000000

/-- The tolerance for coarse comparisons, `10⁻⁶`. -/
def looseTolerance : α :=
  ratio 1 1000000

/-- The sum of a list, from the left. -/
def sum (xs : List α) : α :=
  xs.foldl (· + ·) 0

end Scalar

end FieldGeometry
