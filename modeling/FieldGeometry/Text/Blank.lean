/-!
# Blanks

The characters with the Unicode property of white space, and texts without blanks at their ends.
-/

namespace FieldGeometry

namespace Text

/-- The character has the property of white space. -/
def isBlank (c : Char) : Bool :=
  let n := c.toNat
  (9 ≤ n && n ≤ 13) || n == 0x20 || n == 0x85 || n == 0xA0 || n == 0x1680 ||
    (0x2000 ≤ n && n ≤ 0x200A) || n == 0x2028 || n == 0x2029 || n == 0x202F || n == 0x205F ||
    n == 0x3000

/-- A list of characters without those at both ends that have a property. -/
def trimBoth (drop : Char → Bool) (cs : List Char) : List Char :=
  ((cs.dropWhile drop).reverse.dropWhile drop).reverse

def trim (s : String) : String :=
  String.ofList (trimBoth isBlank s.toList)

end Text

end FieldGeometry
