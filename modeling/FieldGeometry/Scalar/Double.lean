import FieldGeometry.Scalar

/-!
# Double precision

The 64-bit binary numbers as scalars. Their total order compares the bit patterns: it agrees with
the usual order where that is defined and puts the negative zero below the positive one.
-/

namespace FieldGeometry

namespace Double

/-- The place of a number in the total order: the bit pattern, turned around for the negative
ones. -/
def rank (x : Float) : Int :=
  let bits := x.toBits.toNat
  if bits < 0x8000000000000000 then (bits : Int) else 0x7FFFFFFFFFFFFFFF - (bits : Int)

/-- The square root of the sum of two squares, which may overflow or vanish. -/
def rootOfSquares (x y : Float) : Float :=
  Float.sqrt (x * x + y * y)

/-- The length of a vector in the plane. Where the squares of its coordinates would overflow or
vanish, the root is taken of a multiple by a power of two; an infinite coordinate counts before an
undefined one. -/
def hypot (x y : Float) : Float :=
  let a := x.abs
  let b := y.abs
  let greater := if a < b then b else a
  if x.isInf || y.isInf then 1.0 / 0.0
  else if greater > 1e150 then
    rootOfSquares (a * 2.409919865102884e-181) (b * 2.409919865102884e-181) * 4.149515568880993e180
  else if greater < 1e-130 then
    rootOfSquares (a * 4.149515568880993e180) (b * 4.149515568880993e180) * 2.409919865102884e-181
  else rootOfSquares a b

end Double

instance : Scalar Float where
  zero := 0.0
  one := 1.0
  natCast := Float.ofNat
  decLt := inferInstance
  decLe := inferInstance
  abs := Float.abs
  sqrt := Float.sqrt
  hypot := Double.hypot
  sin := Float.sin
  cos := Float.cos
  atan2 := Float.atan2
  pow := Float.pow
  round := Float.round
  isFinite := Float.isFinite
  isNaN := Float.isNaN
  toCount x := x.toUInt64.toNat
  toIndex x := x.toInt64.toInt
  precedes a b := decide (Double.rank a ≤ Double.rank b)
  precedes_trans a b c hab hbc := by
    simp only [decide_eq_true_eq] at *
    exact Int.le_trans hab hbc
  precedes_total a b := by
    simp only [Bool.or_eq_true, decide_eq_true_eq]
    exact Int.le_total _ _

end FieldGeometry
