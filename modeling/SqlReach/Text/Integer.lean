import SqlReach.Text.Blank
import SqlReach.Text.Digit

/-!
# Integers in texts

An integer is written with the decimal digits of any script.  Blanks may
surround it, a sign may stand in front of it, and single underscores may divide
its digits.
-/

namespace SqlReach.Text

/-- The blanks that may surround the text of a number. -/
def isNumberBlank (char : Char) : Bool :=
  isBlank char && !(0x1C ≤ char.toNat && char.toNat ≤ 0x1F)

/-- Texts with more digits are not read as numbers. -/
def digitLimit : Nat := 4300

/-- The number that a run of digits denotes, underscores aside. -/
def natural? (text : List Char) : Option Nat := do
  let groups := text.splitOn '_'
  let digits ← groups.flatten.mapM digitValue?
  if groups.all (· ≠ []) && digits.length ≤ digitLimit then
    some (digits.foldl (10 * · + ·) 0)
  else none

def integer? (text : String) : Option Int :=
  match trim isNumberBlank text.toList with
  | '-' :: digits => (natural? digits).map fun value => -(value : Int)
  | '+' :: digits => (natural? digits).map fun value => (value : Int)
  | digits => (natural? digits).map fun value => (value : Int)

end SqlReach.Text
