import SqlReach.Json

/-!
# Reading JSON

The reader follows the grammar of JSON: insignificant blanks around values,
strings with escapes, and numbers that keep what they say exactly.  A surrogate
escape has to be one half of a pair.  Values nest, so the reader carries a bound
on the number of steps; the length of the text is enough for any text.
-/

namespace SqlReach.Json

open SqlReach.Text

/-- The blanks that may stand between the parts of a JSON text. -/
def isInsignificant (char : Char) : Bool :=
  char == ' ' || char == '\n' || char == '\r' || char == '\t'

def skipBlanks (text : List Char) : List Char :=
  text.dropWhile isInsignificant

/-- What a letter behind a backslash stands for. -/
def simpleEscape? (letter : Char) : Option Char :=
  match letter with
  | '"' => some '"'
  | '\\' => some '\\'
  | '/' => some '/'
  | 'b' => some '\x08'
  | 'f' => some '\x0c'
  | 'n' => some '\n'
  | 'r' => some '\r'
  | 't' => some '\t'
  | _ => none

/-- The character that two units of a surrogate pair stand for. -/
def pairChar (high low : Nat) : Char :=
  Char.ofNat (0x10000 + (high - 0xD800) * 0x400 + (low - 0xDC00))

def isHighUnit (unit : Nat) : Bool :=
  0xD800 ≤ unit && unit ≤ 0xDBFF

def isLowUnit (unit : Nat) : Bool :=
  0xDC00 ≤ unit && unit ≤ 0xDFFF

/-- Reads a string behind its opening quote; `done` holds its characters so far,
the latest first. -/
def stringBody? : List Char → List Char → Option (String × List Char)
  | [], _ => none
  | '"' :: rest, done => some (String.ofList done.reverse, rest)
  | '\\' :: 'u' :: a :: b :: c :: d :: rest, done =>
      match ofHexadecimal? [a, b, c, d] with
      | none => none
      | some unit =>
          if isLowUnit unit then none
          else if isHighUnit unit then
            match rest with
            | '\\' :: 'u' :: e :: f :: g :: h :: rest =>
                match ofHexadecimal? [e, f, g, h] with
                | none => none
                | some low =>
                    if isLowUnit low then stringBody? rest (pairChar unit low :: done) else none
            | _ => none
          else stringBody? rest (Char.ofNat unit :: done)
  | '\\' :: letter :: rest, done =>
      match simpleEscape? letter with
      | none => none
      | some char => stringBody? rest (char :: done)
  | char :: rest, done => if char.toNat < 0x20 then none else stringBody? rest (char :: done)

def digitsValue (digits : List Char) : Nat :=
  digits.foldl (fun value digit => 10 * value + (digit.toNat - '0'.toNat)) 0

/-- A run of at least one digit. -/
def digits? (text : List Char) : Option (List Char × List Char) :=
  match text.takeWhile Char.isDigit with
  | [] => none
  | digits => some (digits, text.dropWhile Char.isDigit)

/-- The digits before the point: a single zero, or a run that begins with another digit. -/
def wholeDigits? : List Char → Option (List Char × List Char)
  | '0' :: rest => some (['0'], rest)
  | text => digits? text

/-- The digits of a fraction, none if there is no point. -/
def fraction? : List Char → Option (List Char × List Char)
  | '.' :: rest => digits? rest
  | text => some ([], text)

def exponentDigits? : List Char → Option (Int × List Char)
  | '+' :: rest => (digits? rest).map fun (digits, rest) => ((digitsValue digits : Int), rest)
  | '-' :: rest => (digits? rest).map fun (digits, rest) => (-(digitsValue digits : Int), rest)
  | text => (digits? text).map fun (digits, rest) => ((digitsValue digits : Int), rest)

/-- The exponent of a number, if it is written. -/
def exponent? : List Char → Option (Option Int × List Char)
  | 'e' :: rest => (exponentDigits? rest).map fun (value, rest) => (some value, rest)
  | 'E' :: rest => (exponentDigits? rest).map fun (value, rest) => (some value, rest)
  | text => some (none, text)

/-- Reads a number behind its sign. -/
def unsigned? (negative : Bool) (text : List Char) : Option (Json × List Char) := do
  let (whole, text) ← wholeDigits? text
  let (places, text) ← fraction? text
  let (exponent, text) ← exponent? text
  let mantissa := digitsValue (whole ++ places)
  match places, exponent with
  | [], none => some (integer (if negative then -(mantissa : Int) else mantissa), text)
  | _, _ => some (decimal negative mantissa (exponent.getD 0 - places.length), text)

def number? : List Char → Option (Json × List Char)
  | '-' :: text => unsigned? true text
  | text => unsigned? false text

/-- What follows a literal word. -/
def keyword? (word : String) (value : Json) (text : List Char) : Option (Json × List Char) :=
  if word.toList.isPrefixOf text then some (value, text.drop word.length) else none

/-- A member's key and the text behind the colon. -/
def key? (text : List Char) : Option (String × List Char) :=
  match skipBlanks text with
  | '"' :: rest =>
      match stringBody? rest [] with
      | some (key, rest) =>
          match skipBlanks rest with
          | ':' :: rest => some (key, rest)
          | _ => none
      | none => none
  | _ => none

mutual

def value? : Nat → List Char → Option (Json × List Char)
  | 0, _ => none
  | fuel + 1, text =>
      match skipBlanks text with
      | '"' :: rest => (stringBody? rest []).map fun (content, rest) => (string content, rest)
      | '[' :: rest =>
          match skipBlanks rest with
          | ']' :: rest => some (array [], rest)
          | rest => items? fuel rest []
      | '\x7b' :: rest =>
          match skipBlanks rest with
          | '\x7d' :: rest => some (object [], rest)
          | rest => members? fuel rest []
      | 'n' :: rest => keyword? "null" null ('n' :: rest)
      | 't' :: rest => keyword? "true" (bool true) ('t' :: rest)
      | 'f' :: rest => keyword? "false" (bool false) ('f' :: rest)
      | text => number? text

/-- Reads the items of an array; `done` holds the earlier ones, the latest first. -/
def items? : Nat → List Char → List Json → Option (Json × List Char)
  | 0, _, _ => none
  | fuel + 1, text, done =>
      match value? fuel text with
      | none => none
      | some (item, rest) =>
          match skipBlanks rest with
          | ',' :: rest => items? fuel rest (item :: done)
          | ']' :: rest => some (array (item :: done).reverse, rest)
          | _ => none

def members? : Nat → List Char → List (String × Json) → Option (Json × List Char)
  | 0, _, _ => none
  | fuel + 1, text, done =>
      match key? text with
      | none => none
      | some (key, rest) =>
          match value? fuel rest with
          | none => none
          | some (value, rest) =>
              match skipBlanks rest with
              | ',' :: rest => members? fuel rest ((key, value) :: done)
              | '\x7d' :: rest => some (object ((key, value) :: done).reverse, rest)
              | _ => none

end

/-- The value that a text denotes, if the text is one JSON value. -/
def parse? (text : String) : Option Json :=
  let chars := text.toList
  match value? (chars.length + 1) chars with
  | some (value, rest) => if (skipBlanks rest).isEmpty then some value else none
  | none => none

def member? (key : String) : Json → Option Json
  | object members => members.lookup key
  | _ => none

end SqlReach.Json
