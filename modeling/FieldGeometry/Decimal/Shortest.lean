/-!
# Shortest decimals

The decimal notation of a binary number with the fewest digits that still read back as it. A double
stands for all reals that round to it, an interval about its value. For one digit, two, and so on,
the two neighbours of the value on the grid of that many digits are tried against the interval: the
first grid with a hit decides, and of two hits the nearer one, the larger at a tie. All comparisons
are made with whole numbers.
-/

namespace FieldGeometry

namespace Decimal

/-- A positive fraction. -/
structure Fraction where
  num : Nat
  den : Nat

namespace Fraction

def ofBinary (m : Nat) (q : Int) : Fraction :=
  ⟨m <<< q.toNat, 1 <<< (-q).toNat⟩

def ofDecimal (m : Nat) (g : Int) : Fraction :=
  ⟨m * Nat.pow 10 g.toNat, Nat.pow 10 (-g).toNat⟩

def le (a b : Fraction) : Bool :=
  decide (a.num * b.den ≤ b.num * a.den)

def lt (a b : Fraction) : Bool :=
  decide (a.num * b.den < b.num * a.den)

/-- How often a power of ten goes into the fraction. -/
def countOf (a : Fraction) (g : Int) : Nat :=
  a.num * Nat.pow 10 (-g).toNat / (a.den * Nat.pow 10 g.toNat)

end Fraction

/-- The reals that round to a double: from `low` to `high`, the ends included or not. -/
structure Interval where
  value : Fraction
  /-- The least of the reals, or the bound below them. -/
  low : Fraction
  /-- The greatest of the reals, or the bound above them. -/
  high : Fraction
  /-- The ends belong to the interval. -/
  closed : Bool

namespace Interval

/-- The interval of the positive double with mantissa `m` and exponent `q`; the double below the
first of a binade is only half as far away. -/
def ofDouble (m : Nat) (q : Int) (startsBinade : Bool) : Interval where
  value := .ofBinary (4 * m) (q - 2)
  low := .ofBinary (4 * m - (if startsBinade then 1 else 2)) (q - 2)
  high := .ofBinary (4 * m + 2) (q - 2)
  closed := m % 2 == 0

def holds (i : Interval) (x : Fraction) : Bool :=
  if i.closed then i.low.le x && x.le i.high else i.low.lt x && x.lt i.high

end Interval

/-- The exponent of the leading digit, from an estimate that is off by one at most. -/
def leadingExponent (value : Fraction) (estimate : Int) : Int :=
  if (Fraction.ofDecimal 1 (estimate + 1)).le value then estimate + 1
  else if (Fraction.ofDecimal 1 estimate).le value then estimate
  else estimate - 1

/-- The neighbour of the value on the grid of multiples of `10 ^ g` that lies in the interval, if
one does, and the nearer one if both do. -/
def neighbour? (i : Interval) (g : Int) : Option Nat :=
  let below := i.value.countOf g
  let holdsBelow := i.holds (.ofDecimal below g)
  let holdsAbove := i.holds (.ofDecimal (below + 1) g)
  let nearerBelow := (Fraction.mk (2 * i.value.num) i.value.den).lt (.ofDecimal (2 * below + 1) g)
  match holdsBelow, holdsAbove with
  | true, true => some (if nearerBelow then below else below + 1)
  | true, false => some below
  | false, true => some (below + 1)
  | false, false => none

/-- Tries grids of more and more digits, as many as `tries` allows. -/
def search (i : Interval) : Nat → Int → Nat × Int
  | 0, g => (i.value.countOf g, g)
  | tries + 1, g =>
    match neighbour? i g with
    | some digits => (digits, g)
    | none => search i tries (g - 1)

/-- The leading bit of a mantissa, which the bit pattern leaves out. -/
def leadingBit : Nat :=
  0x10000000000000

/-- The mantissa and the binary exponent of a finite double. -/
def binaryParts (bits : Nat) : Nat × Int :=
  let fraction : Nat := bits % leadingBit
  let exponent : Nat := bits / leadingBit % 0x800
  if exponent = 0 then (fraction, -1074) else (fraction + leadingBit, (exponent : Int) - 1075)

/-- The shortest decimal `digits · 10 ^ g` for the magnitude of a finite double, not zero, given by
its bit pattern. -/
def shortest (bits : Nat) : Nat × Int :=
  let (m, q) := binaryParts bits
  let i := Interval.ofDouble m q (m == leadingBit && decide (-1074 < q))
  let estimate := ((m.log2 : Int) + q) * 1233 / 4096
  search i 17 (leadingExponent i.value estimate)

/-- Scientific notation: one digit, a point and the other digits if there are any, and always the
exponent. Zeros at the end are dropped. -/
def scientific (digits : Nat) (g : Int) : String :=
  let all := (Nat.repr digits).toList
  let exponent := g + (all.length : Int) - 1
  let kept := (all.reverse.dropWhile (· == '0')).reverse
  let mantissa := match kept with
    | [] => ['0']
    | [d] => [d]
    | d :: rest => d :: '.' :: rest
  String.ofList mantissa ++ "e" ++ toString exponent

/-- The text of a finite double in scientific notation; zero has no sign. -/
def ofDouble (x : Float) : String :=
  if x == 0 then "0e0"
  else
    let (digits, g) := shortest x.toBits.toNat
    (if x < 0 then "-" else "") ++ scientific digits g

end Decimal

end FieldGeometry
