import SqlReach.Json
import SqlReach.Json.Binary64
import SqlReach.Shape.Issue
import SqlReach.Text.Integer

/-!
# Texts, truth values and numbers

The checks of single values.  Truth values and integers are also taken from
texts that spell them, and from numbers that equal them.
-/

namespace SqlReach.Shape

def checkString : Json → Checked String
  | .string text => .ok text
  | _ => refuse .notString

def checkSource : Json → Checked (Option String)
  | .null => .ok none
  | value => (checkString value).map some

def falseWords : List String := ["0", "off", "f", "false", "n", "no"]

def trueWords : List String := ["1", "on", "t", "true", "y", "yes"]

/-- What a number with a fraction is worth as an integer. -/
inductive Whole where
  | integer (value : Int)
  | fractional
  | infinite

def wholeNumber (negative : Bool) (mantissa : Nat) (exponent : Int) : Whole :=
  match Binary64.ofDecimal? mantissa exponent with
  | none => .infinite
  | some number =>
      match number.integer? with
      | none => .fractional
      | some value => .integer (if negative then -(value : Int) else value)

/-- The integers from `-integerLimit` up to, but without, `integerLimit` fill a
machine word. -/
def integerLimit : Nat := 0x8000000000000000

/-- Integers beyond a machine word are no candidates for a truth value. -/
def booleanOfInteger (number : Int) : Checked Bool :=
  if number = 0 then .ok false
  else if number = 1 then .ok true
  else if -(integerLimit : Int) ≤ number ∧ number < integerLimit then refuse .unreadableBoolean
  else refuse .notBoolean

def checkBoolean : Json → Checked Bool
  | .bool value => .ok value
  | .integer number => booleanOfInteger number
  | .decimal negative mantissa exponent =>
      match wholeNumber negative mantissa exponent with
      | .integer number =>
          if number.natAbs < integerLimit then booleanOfInteger number else refuse .notBoolean
      | _ => refuse .notBoolean
  | .string text =>
      let word := String.ofList (text.toList.map Char.toLower)
      if word ∈ falseWords then .ok false
      else if word ∈ trueWords then .ok true
      else refuse .unreadableBoolean
  | _ => refuse .notBoolean

def isNonzeroDigit (char : Char) : Bool :=
  '1' ≤ char && char ≤ '9'

/-- The text of a number behind its first zero, without further zeros and the
underscores among them; `last` is the character in front.  One character is kept
where nothing else would be left before the point or the end. -/
def afterZeros? (last : Char) : List Char → Option (List Char)
  | [] => some [last]
  | char :: rest =>
      if char == '0' || char == '_' then afterZeros? char rest
      else if isNonzeroDigit char || char == '-' then some (char :: rest)
      else if char == '.' then some (last :: char :: rest)
      else none

/-- The text of a number without zeros at its front, if it begins like a number.
A minus sign counts as a beginning, also behind zeros. -/
def withoutZeros? : List Char → Option (List Char)
  | [] => none
  | char :: rest =>
      if char == '0' then afterZeros? char rest
      else if isNonzeroDigit char || char == '-' then some (char :: rest)
      else none

/-- The same for a text that may begin with a sign. -/
def withoutPlusAndZeros? : List Char → Option (List Char)
  | '+' :: '-' :: _ => none
  | '+' :: rest => withoutZeros? rest
  | '-' :: rest => (withoutZeros? rest).map ('-' :: ·)
  | text => withoutZeros? text

/-- Drops a fraction of one or more zeros. -/
def withoutFraction (text : List Char) : List Char :=
  match text.dropWhile (· ≠ '.') with
  | _ :: '0' :: places =>
      if places.all (· == '0') then text.takeWhile (· ≠ '.') else text
  | _ => text

/-- Drops the underscores, if each of them stands alone and inside the text. -/
def withoutUnderscores (text : List Char) : List Char :=
  let groups := text.splitOn '_'
  if groups.all (· ≠ []) then groups.flatten else text

/-- The value of a decimal number without superfluous zeros. -/
def naturalValue? (digits : List Char) : Option Nat :=
  if digits = ['0'] then some 0
  else if digits.head?.any isNonzeroDigit && digits.all Char.isDigit &&
      digits.length ≤ Text.digitLimit then
    some (digits.foldl (fun value digit => 10 * value + (digit.toNat - '0'.toNat)) 0)
  else none

def integerValue? : List Char → Option Int
  | '-' :: digits => (naturalValue? digits).map fun value => -(value : Int)
  | digits => (naturalValue? digits).map fun value => (value : Int)

/-- Reads an integer.  Blanks around it, a plus sign, zeros at its front, a
fraction of zeros and underscores between digits are dropped first. -/
def integerOfText? (text : List Char) : Option Int := do
  let text ← withoutPlusAndZeros? (Text.trim Text.isNumberBlank text)
  integerValue? (withoutUnderscores (withoutFraction text))

/-- Whether a text begins with a number that has too many digits, before anything
is dropped from it. -/
def isOversized (text : List Char) : Bool :=
  let digits := match text with
    | '-' :: digits => digits
    | digits => digits
  digits.head?.any isNonzeroDigit && Text.digitLimit < (digits.takeWhile Char.isDigit).length

def checkInteger : Json → Checked Int
  | .integer number => .ok number
  | .bool value => .ok (if value then 1 else 0)
  | .decimal negative mantissa exponent =>
      match wholeNumber negative mantissa exponent with
      | .infinite => refuse .notFinite
      | .fractional => refuse .fractionalInteger
      | .integer number =>
          if number.natAbs < integerLimit then .ok number else refuse .oversizedInteger
  | .string text =>
      if isOversized text.toList then refuse .oversizedInteger
      else
        match integerOfText? text.toList with
        | none => refuse .unreadableInteger
        | some number => .ok number
  | _ => refuse .notInteger

end SqlReach.Shape
