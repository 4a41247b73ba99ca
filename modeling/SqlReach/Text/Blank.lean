/-!
# Blank characters

Trimming and the gaps between words use one set of blank characters: the
separators of Unicode together with the control characters that end or divide
lines.  It is larger than the set of `Char.isWhitespace`.
-/

namespace SqlReach.Text

def isBlank (char : Char) : Bool :=
  let code := char.toNat
  (0x09 ≤ code && code ≤ 0x0D) || (0x1C ≤ code && code ≤ 0x20) || code == 0x85 ||
    code == 0xA0 || code == 0x1680 || (0x2000 ≤ code && code ≤ 0x200A) || code == 0x2028 ||
    code == 0x2029 || code == 0x202F || code == 0x205F || code == 0x3000

/-- Drops the characters that satisfy `drop` at the end of a text. -/
def trimRight (drop : Char → Bool) (text : List Char) : List Char :=
  (text.reverse.dropWhile drop).reverse

/-- Drops the characters that satisfy `drop` at both ends of a text. -/
def trim (drop : Char → Bool) (text : List Char) : List Char :=
  trimRight drop (text.dropWhile drop)

end SqlReach.Text
