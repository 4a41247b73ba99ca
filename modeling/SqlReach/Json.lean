import SqlReach.Text.Hexadecimal

/-!
# JSON values

A JSON value keeps the members of an object in the order in which they were
written, and it keeps whole numbers apart from numbers that are written with a
fraction or an exponent.  Values are written in two ways: on one line without
spaces, and on many lines with two spaces for each level.
-/

namespace SqlReach

inductive Json where
  | null
  | bool (value : Bool)
  | integer (value : Int)
  /-- The number `mantissa * 10 ^ exponent`, or its opposite if it is negative,
  written with a fraction or an exponent.  Zero has a sign as well. -/
  | decimal (negative : Bool) (mantissa : Nat) (exponent : Int)
  | string (value : String)
  | array (items : List Json)
  | object (members : List (String × Json))

namespace Json

open SqlReach.Text

/-- The escape of a sixteen-bit unit. -/
def unitEscape (unit : Nat) : String :=
  "\\u" ++ hexadecimal 4 unit

/-- A character beyond the sixteen-bit range is written as a pair of units. -/
def codeEscape (code : Nat) : String :=
  if code < 0x10000 then unitEscape code
  else
    unitEscape (0xD800 + (code - 0x10000) / 0x400) ++
      unitEscape (0xDC00 + (code - 0x10000) % 0x400)

/-- A character inside a string; `plain` says which characters stand for themselves. -/
def escapeChar (plain : Char → Bool) (char : Char) : String :=
  if char == '"' then "\\\""
  else if char == '\\' then "\\\\"
  else if char == '\n' then "\\n"
  else if char == '\r' then "\\r"
  else if char == '\t' then "\\t"
  else if char == '\x08' then "\\b"
  else if char == '\x0c' then "\\f"
  else if plain char then char.toString
  else codeEscape char.toNat

def quote (plain : Char → Bool) (text : String) : String :=
  "\"" ++ String.join (text.toList.map (escapeChar plain)) ++ "\""

/-- Strings on one line escape the control characters only. -/
def plainUnicode (char : Char) : Bool :=
  0x20 ≤ char.toNat

/-- Strings on many lines are written in printable ASCII. -/
def plainAscii (char : Char) : Bool :=
  0x20 ≤ char.toNat && char.toNat ≤ 0x7E

/-- The digits of a positive number without zeros at the end, and the place of the
point: the number is `0.digits` times ten to the power of that place. -/
def significantDigits (mantissa : Nat) (exponent : Int) : List Char × Int :=
  let digits := Nat.toDigits 10 mantissa
  ((digits.reverse.dropWhile (· == '0')).reverse, digits.length + exponent)

/-- An exponent is written with its sign. -/
def exponentText (exponent : Int) : String :=
  if 0 ≤ exponent then "+" ++ toString exponent else toString exponent

/-- Numbers with at most sixteen digits before the point, or with few zeros behind
it, are written in positional notation, with a digit on either side of the point;
all others are written with an exponent. -/
def positiveText (mantissa : Nat) (exponent : Int) : String :=
  let (digits, point) := significantDigits mantissa exponent
  let places := point.natAbs
  let zeros := fun count => List.replicate count '0'
  String.ofList <|
    if 0 < point ∧ point ≤ 16 then
      if digits.length ≤ places then digits ++ zeros (places - digits.length) ++ ['.', '0']
      else digits.take places ++ '.' :: digits.drop places
    else if -5 < point ∧ point ≤ 0 then '0' :: '.' :: zeros places ++ digits
    else
      let fraction := if digits.length ≤ 1 then [] else '.' :: digits.drop 1
      digits.take 1 ++ fraction ++ 'e' :: (exponentText (point - 1)).toList

/-- A number with a fraction. -/
def decimalText (negative : Bool) (mantissa : Nat) (exponent : Int) : String :=
  (if negative then "-" else "") ++
    if mantissa = 0 then "0.0" else positiveText mantissa exponent

def boolText (value : Bool) : String :=
  if value then "true" else "false"

mutual

/-- The value on one line, without spaces. -/
def compact : Json → String
  | null => "null"
  | bool value => boolText value
  | integer value => toString value
  | decimal negative mantissa exponent => decimalText negative mantissa exponent
  | string value => quote plainUnicode value
  | array items => "[" ++ ",".intercalate (compactItems items) ++ "]"
  | object members => "\x7b" ++ ",".intercalate (compactMembers members) ++ "\x7d"

def compactItems : List Json → List String
  | [] => []
  | item :: items => compact item :: compactItems items

def compactMembers : List (String × Json) → List String
  | [] => []
  | (key, value) :: members =>
      (quote plainUnicode key ++ ":" ++ compact value) :: compactMembers members

end

mutual

/-- How deeply values nest in a value, itself included. -/
def height : Json → Nat
  | array items => heightItems items + 1
  | object members => heightMembers members + 1
  | _ => 1

def heightItems : List Json → Nat
  | [] => 0
  | item :: items => max (height item) (heightItems items)

def heightMembers : List (String × Json) → Nat
  | [] => 0
  | (_, value) :: members => max (height value) (heightMembers members)

end

/-- The break before something that stands at a given column. -/
def newline (column : Nat) : String :=
  "\n" ++ String.ofList (List.replicate column ' ')

mutual

/-- The value on many lines, when the line it begins on is indented to `column`. -/
def prettyAt (column : Nat) : Json → String
  | null => "null"
  | bool value => boolText value
  | integer value => toString value
  | decimal negative mantissa exponent => decimalText negative mantissa exponent
  | string value => quote plainAscii value
  | array [] => "[]"
  | array (item :: items) =>
      "[" ++ newline (column + 2) ++ prettyAt (column + 2) item ++
        prettyItems (column + 2) items ++ newline column ++ "]"
  | object [] => "\x7b\x7d"
  | object ((key, value) :: members) =>
      "\x7b" ++ newline (column + 2) ++ quote plainAscii key ++ ": " ++
        prettyAt (column + 2) value ++ prettyMembers (column + 2) members ++
        newline column ++ "\x7d"

/-- The items after the first, each behind a comma and a line break. -/
def prettyItems (column : Nat) : List Json → String
  | [] => ""
  | item :: items => "," ++ newline column ++ prettyAt column item ++ prettyItems column items

def prettyMembers (column : Nat) : List (String × Json) → String
  | [] => ""
  | (key, value) :: members =>
      "," ++ newline column ++ quote plainAscii key ++ ": " ++ prettyAt column value ++
        prettyMembers column members

end

def pretty (value : Json) : String :=
  prettyAt 0 value

end Json

end SqlReach
