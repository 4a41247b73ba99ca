import SqlReach.Text.Hexadecimal
import SqlReach.Text.Printable

/-!
# Quoted text

Messages quote a value between single quotes, or between double quotes when it
holds a single quote and no double quote.  The enclosing quote, the backslash
and every character that cannot be printed are written as escapes, so that a
quoted value always stays on one line.
-/

namespace SqlReach.Text

def numericEscape (code : Nat) : String :=
  if code ≤ 0xFF then "\\x" ++ hexadecimal 2 code
  else if code ≤ 0xFFFF then "\\u" ++ hexadecimal 4 code
  else "\\U" ++ hexadecimal 8 code

def quoteChar (mark char : Char) : String :=
  if char == mark || char == '\\' then String.ofList ['\\', char]
  else if char == '\n' then "\\n"
  else if char == '\r' then "\\r"
  else if char == '\t' then "\\t"
  else if isPrintable char then char.toString
  else numericEscape char.toNat

/-- The quote that encloses a text. -/
def quoteMark (text : List Char) : Char :=
  if text.contains '\'' && !text.contains '"' then '"' else '\''

def quoted (text : String) : String :=
  let mark := quoteMark text.toList
  mark.toString ++ String.join (text.toList.map (quoteChar mark)) ++ mark.toString

end SqlReach.Text
