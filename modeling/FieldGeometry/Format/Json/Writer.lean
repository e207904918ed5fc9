import FieldGeometry.Decimal.Shortest
import FieldGeometry.Format.Datum

/-!
# Writing JSON

Data as JSON text without spaces. A scalar is always written with an exponent, so that it cannot be
taken for a whole number, and one that is not finite as a record with the single name `$f`.
-/

namespace FieldGeometry

namespace Json

def hexDigit (n : Nat) : Char :=
  if n < 10 then Char.ofNat (48 + n) else Char.ofNat (87 + n)

/-- A character inside a quoted text: quotes, backslashes and control characters are escaped. -/
def escape (c : Char) : List Char :=
  if c = '"' then ['\\', '"']
  else if c = '\\' then ['\\', '\\']
  else if c.toNat < 32 then
    ['\\', 'u', '0', '0', hexDigit (c.toNat / 16), hexDigit (c.toNat % 16)]
  else [c]

def quote (s : String) : String :=
  "\"" ++ String.ofList (s.toList.flatMap escape) ++ "\""

/-- A scalar, by its shortest decimal. -/
def writeScalar (x : Float) : String :=
  if x.isNaN then "\x7b\"$f\":\"nan\"\x7d"
  else if x.isInf then
    if x < 0 then "\x7b\"$f\":\"-inf\"\x7d" else "\x7b\"$f\":\"inf\"\x7d"
  else Decimal.ofDouble x

mutual

def write : Datum Float → String
  | .null => "null"
  | .bool b => if b then "true" else "false"
  | .int n => toString n
  | .scalar x => writeScalar x
  | .text s => quote s
  | .list items => "[" ++ ",".intercalate (writeItems items) ++ "]"
  | .record fields => "\x7b" ++ ",".intercalate (writeFields fields) ++ "\x7d"

def writeItems : List (Datum Float) → List String
  | [] => []
  | d :: rest => write d :: writeItems rest

def writeFields : List (String × Datum Float) → List String
  | [] => []
  | (key, d) :: rest => (quote key ++ ":" ++ write d) :: writeFields rest

end

end Json

end FieldGeometry
