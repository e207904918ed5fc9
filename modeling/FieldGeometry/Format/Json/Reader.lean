import FieldGeometry.Format.Datum

/-!
# Reading JSON

Data from JSON text. A number literal without point and exponent that fits 64 bits, with or without
a sign, is a whole number; any other number literal is the nearest double. A record whose only name
is `$f` and whose text is `nan`, `inf` or `-inf` is that scalar. Of two fields of a record with the
same name the later one counts.

Each reader takes what is left of the text and gives what it read with the rest, or nothing where
the text has another form. The readers of nested data are bounded by the length of the text.
-/

namespace FieldGeometry

namespace Json

/-- The characters that may stand between two tokens. -/
def isBlank (c : Char) : Bool :=
  c == ' ' || c == '\t' || c == '\n' || c == '\r'

def skipBlanks (cs : List Char) : List Char :=
  cs.dropWhile isBlank

/-- The value of a hexadecimal digit. -/
def hexValue? (c : Char) : Option Nat :=
  if '0' ≤ c ∧ c ≤ '9' then some (c.toNat - 48)
  else if 'a' ≤ c ∧ c ≤ 'f' then some (c.toNat - 87)
  else if 'A' ≤ c ∧ c ≤ 'F' then some (c.toNat - 55)
  else none

def readUnit : List Char → Option (Nat × List Char)
  | a :: b :: c :: d :: rest => do
    let a ← hexValue? a
    let b ← hexValue? b
    let c ← hexValue? c
    let d ← hexValue? d
    return (((a * 16 + b) * 16 + c) * 16 + d, rest)
  | _ => none

/-- The character of an escaped code unit, whose second half follows when it is a high surrogate. -/
def readEscapedUnit (cs : List Char) : Option (Char × List Char) := do
  let (unit, rest) ← readUnit cs
  if 0xD800 ≤ unit ∧ unit < 0xDC00 then
    match rest with
    | '\\' :: 'u' :: rest =>
      let (low, rest) ← readUnit rest
      if 0xDC00 ≤ low ∧ low < 0xE000 then
        return (Char.ofNat (0x10000 + (unit - 0xD800) * 0x400 + (low - 0xDC00)), rest)
      else none
    | _ => none
  else if 0xDC00 ≤ unit ∧ unit < 0xE000 then none
  else return (Char.ofNat unit, rest)

/-- The character that an escape other than a code unit stands for. -/
def unescape? : Char → Option Char
  | '"' => some '"'
  | '\\' => some '\\'
  | '/' => some '/'
  | 'b' => some '\x08'
  | 'f' => some '\x0c'
  | 'n' => some '\n'
  | 'r' => some '\r'
  | 't' => some '\t'
  | _ => none

/-- The text up to the closing quote; `read` holds what was read so far, last character first. -/
def readQuoted : Nat → List Char → List Char → Option (String × List Char)
  | 0, _, _ => none
  | _ + 1, _, [] => none
  | fuel + 1, read, c :: rest =>
    if c = '"' then some (String.ofList read.reverse, rest)
    else if c = '\\' then
      match rest with
      | [] => none
      | e :: rest =>
        if e = 'u' then
          match readEscapedUnit rest with
          | none => none
          | some (c, rest) => readQuoted fuel (c :: read) rest
        else
          match unescape? e with
          | none => none
          | some c => readQuoted fuel (c :: read) rest
    else if c.toNat < 32 then none
    else readQuoted fuel (c :: read) rest

/-- The digits in front of a text. -/
def spanDigits (cs : List Char) : List Char × List Char :=
  cs.span Char.isDigit

def digitsValue (ds : List Char) : Nat :=
  ds.foldl (fun n d => n * 10 + (d.toNat - 48)) 0

/-- The double nearest to `m · 10 ^ e`; far beyond the doubles, it is infinite or zero. -/
def nearestDouble (m : Nat) (e : Int) : Float :=
  let size := ((Nat.repr m).length : Int) + e
  if m = 0 then 0.0
  else if 400 < size then 1.0 / 0.0
  else if size < -400 then 0.0
  else if 0 ≤ e then Float.ofScientific m false e.toNat
  else Float.ofScientific m true (-e).toNat

/-- The exponent of a number literal, if it has one. -/
def readExponent (cs : List Char) : Option (Option Int × List Char) :=
  match cs with
  | c :: rest =>
    if c = 'e' ∨ c = 'E' then
      let (negative, rest) := match rest with
        | '-' :: rest => (true, rest)
        | '+' :: rest => (false, rest)
        | rest => (false, rest)
      let (ds, rest) := spanDigits rest
      if ds.isEmpty then none
      else
        let e : Int := digitsValue ds
        some (some (if negative then -e else e), rest)
    else some (none, cs)
  | [] => some (none, [])

/-- The digits after the point of a number literal, if it has one. -/
def readFraction (cs : List Char) : Option (Option (List Char) × List Char) :=
  match cs with
  | '.' :: rest =>
    let (ds, rest) := spanDigits rest
    if ds.isEmpty then none else some (some ds, rest)
  | cs => some (none, cs)

/-- A whole number that fits 64 bits stays one; any other becomes a scalar. -/
def wholeNumber (negative : Bool) (n : Nat) : Datum Float :=
  if negative then
    if (n : Int) ≤ Datum.indexBound then .int (-(n : Int)) else .scalar (-(nearestDouble n 0))
  else if (n : Int) < Datum.countBound then .int n
  else .scalar (nearestDouble n 0)

/-- A number literal, less its sign. -/
def readMagnitude (negative : Bool) (cs : List Char) : Option (Datum Float × List Char) := do
  let (whole, rest) := spanDigits cs
  if whole.isEmpty || (whole.head? == some '0' && decide (1 < whole.length)) then none
  else
    let (fraction, rest) ← readFraction rest
    let (exponent, rest) ← readExponent rest
    match fraction, exponent with
    | none, none => return (wholeNumber negative (digitsValue whole), rest)
    | _, _ =>
      let decimals := fraction.getD []
      let x := nearestDouble (digitsValue (whole ++ decimals))
        (exponent.getD 0 - (decimals.length : Int))
      return (.scalar (if negative then -x else x), rest)

/-- A word with a meaning of its own. -/
def readWord (cs : List Char) : Option (Datum Float × List Char) :=
  match cs with
  | 'n' :: 'u' :: 'l' :: 'l' :: rest => some (.null, rest)
  | 't' :: 'r' :: 'u' :: 'e' :: rest => some (.bool true, rest)
  | 'f' :: 'a' :: 'l' :: 's' :: 'e' :: rest => some (.bool false, rest)
  | _ => none

/-- The scalar that a record with the single name `$f` stands for, else the record. -/
def ofFields (fields : List (String × Datum Float)) : Datum Float :=
  match fields with
  | [("$f", .text "nan")] => .scalar (0.0 / 0.0)
  | [("$f", .text "inf")] => .scalar (1.0 / 0.0)
  | [("$f", .text "-inf")] => .scalar (-1.0 / 0.0)
  | fields => .record fields

mutual

def readDatum : Nat → List Char → Option (Datum Float × List Char)
  | 0, _ => none
  | fuel + 1, cs =>
    match skipBlanks cs with
    | '"' :: rest => (readQuoted (rest.length + 1) [] rest).map fun (s, rest) => (.text s, rest)
    | '[' :: rest =>
      match skipBlanks rest with
      | ']' :: rest => some (.list [], rest)
      | rest => (readItems fuel [] rest).map fun (items, rest) => (.list items, rest)
    | '\x7b' :: rest =>
      match skipBlanks rest with
      | '\x7d' :: rest => some (.record [], rest)
      | rest => (readFields fuel [] rest).map fun (fields, rest) => (ofFields fields, rest)
    | '-' :: rest => readMagnitude true rest
    | c :: rest => if c.isDigit then readMagnitude false (c :: rest) else readWord (c :: rest)
    | [] => none

/-- The items of a list up to its closing bracket; `read` holds those read so far, last first. -/
def readItems : Nat → List (Datum Float) → List Char → Option (List (Datum Float) × List Char)
  | 0, _, _ => none
  | fuel + 1, read, cs =>
    match readDatum fuel cs with
    | none => none
    | some (d, rest) =>
      match skipBlanks rest with
      | ',' :: rest => readItems fuel (d :: read) rest
      | ']' :: rest => some ((d :: read).reverse, rest)
      | _ => none

/-- The fields of a record up to its closing brace; `read` holds those read so far, last first. -/
def readFields : Nat → List (String × Datum Float) → List Char →
    Option (List (String × Datum Float) × List Char)
  | 0, _, _ => none
  | fuel + 1, read, cs =>
    match skipBlanks cs with
    | '"' :: rest =>
      match readQuoted (rest.length + 1) [] rest with
      | none => none
      | some (key, rest) =>
        match skipBlanks rest with
        | ':' :: rest =>
          match readDatum fuel rest with
          | none => none
          | some (d, rest) =>
            let read := (key, d) :: read.filter (·.1 != key)
            match skipBlanks rest with
            | ',' :: rest => readFields fuel read rest
            | '\x7d' :: rest => some (read.reverse, rest)
            | _ => none
        | _ => none
    | _ => none

end

/-- The datum that a whole text writes. -/
def read? (text : String) : Option (Datum Float) :=
  let cs := text.toList
  match readDatum (cs.length + 1) cs with
  | some (d, rest) => if (skipBlanks rest).isEmpty then some d else none
  | none => none

end Json

end FieldGeometry
