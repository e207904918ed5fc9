import FieldGeometry.Text.CaseTable

/-!
# Lowercase

The full lowercase form of a text. Each character is mapped on its own, except that a capital sigma
at the end of a word becomes a final sigma.
-/

namespace FieldGeometry

namespace Text

/-- The lowercase form of a character on its own. Only the dotted capital I has one of two
characters. -/
def lowerChar (c : Char) : List Char :=
  let n := c.toNat
  if n < 0x80 then
    if 0x41 ≤ n && n ≤ 0x5A then [Char.ofNat (n + 0x20)] else [c]
  else if n = 0x130 then ['i', Char.ofNat 0x307]
  else
    match caseRuns.find? fun r => r.holds n with
    | some r => [Char.ofNat ((n : Int) + r.shift).toNat]
    | none => [c]

/-- The first character that casing does not pass over has a case. -/
def meetsCased (cs : List Char) : Bool :=
  match cs.dropWhile (inRanges ignorableRanges) with
  | [] => false
  | c :: _ => inRanges casedRanges c

def capitalSigma : Char := Char.ofNat 0x3A3

/-- The lowercase form of a capital sigma between the characters before it, the nearest first, and
those after it. -/
def lowerSigma (before after : List Char) : Char :=
  if meetsCased before && !meetsCased after then Char.ofNat 0x3C2 else Char.ofNat 0x3C3

/-- The lowercase form of the characters that follow others, of which the nearest comes first. -/
def lowerAfter (before : List Char) : List Char → List Char
  | [] => []
  | c :: rest =>
    (if c = capitalSigma then [lowerSigma before rest] else lowerChar c) ++
      lowerAfter (c :: before) rest

def lower (s : String) : String :=
  String.ofList (lowerAfter [] s.toList)

end Text

end FieldGeometry
