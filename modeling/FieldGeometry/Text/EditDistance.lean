/-!
# Edit distance

The least number of characters that must be put in, taken out or replaced to turn one text into
another, computed row by row: the row of a prefix of one text holds its distances to all prefixes of
the other.
-/

namespace FieldGeometry

namespace Text

/-- The rest of the row of a prefix that ends in `c`, from the row before it. The distance to the
last prefix handled is `left` in the new row and `corner` in the old one. -/
def nextRow (c : Char) : List Char → List Nat → Nat → Nat → List Nat
  | d :: ds, above :: row, corner, left =>
    let here := min (min (left + 1) (above + 1)) (if c = d then corner else corner + 1)
    here :: nextRow c ds row above here
  | _, _, _, _ => []

/-- The distance of texts, given the row of what was read of the first one and how much that is;
the row lacks its first entry, which is that amount. -/
def distanceFrom (target : List Char) : List Char → Nat → List Nat → Nat
  | [], count, row => row.getLast?.getD count
  | c :: rest, count, row =>
    distanceFrom target rest (count + 1) (nextRow c target row count (count + 1))

def editDistance (s t : String) : Nat :=
  distanceFrom t.toList s.toList 0 ((List.range t.toList.length).map (· + 1))

end Text

end FieldGeometry
