/-!
# Hexadecimal numbers

Escapes write the code of a character in hexadecimal, padded to a fixed width.
-/

namespace SqlReach.Text

/-- The lower-case hexadecimal digits of a number, padded with zeros to `width`. -/
def hexadecimal (width number : Nat) : String :=
  let digits := Nat.toDigits 16 number
  String.ofList (List.replicate (width - digits.length) '0' ++ digits)

def hexDigit? (char : Char) : Option Nat :=
  if '0' ≤ char ∧ char ≤ '9' then some (char.toNat - '0'.toNat)
  else if 'a' ≤ char ∧ char ≤ 'f' then some (char.toNat - 'a'.toNat + 10)
  else if 'A' ≤ char ∧ char ≤ 'F' then some (char.toNat - 'A'.toNat + 10)
  else none

/-- The number that a text of hexadecimal digits denotes. -/
def ofHexadecimal? (digits : List Char) : Option Nat :=
  digits.foldlM (fun value char => (hexDigit? char).map (16 * value + ·)) 0

end SqlReach.Text
