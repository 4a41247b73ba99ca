import SqlReach.Text.Blank

/-!
# Lines of a program

A line matters to the call graph in three ways: it can open a paragraph, it can
call one, and it can hold an embedded SQL statement.  The recognisers work on
the characters of a trimmed line and look no further than that line.
-/

namespace SqlReach.Line

open SqlReach.Text

/-- A byte order mark survives the trimming of blanks, so it is trimmed on its
own, once, between two rounds of blanks. -/
def trimmed (line : List Char) : List Char :=
  trim isBlank (trim (· == '\uFEFF') (trim isBlank line))

def isNameChar (char : Char) : Bool :=
  char.isAlphanum || char == '_' || char == '-'

/-- The longest name at the front of a text. -/
def leadingName (text : List Char) : List Char :=
  text.takeWhile isNameChar

/-- The label of a line that opens a paragraph: three digits, a hyphen and a
name.  Whatever follows the label is ignored. -/
def header? : List Char → Option String
  | first :: second :: third :: '-' :: rest =>
      if first.isDigit && second.isDigit && third.isDigit && leadingName rest ≠ [] then
        some (String.ofList (first :: second :: third :: '-' :: leadingName rest))
      else none
  | _ => none

/-- What follows `word` at the front of a text, where `same` compares a
character of the word with one of the text. -/
def afterWord? (same : Char → Char → Bool) : List Char → List Char → Option (List Char)
  | [], text => some text
  | _ :: _, [] => none
  | letter :: word, char :: text => if same letter char then afterWord? same word text else none

/-- What follows one or more blanks at the front of a text. -/
def afterGap? : List Char → Option (List Char)
  | [] => none
  | char :: text => if isBlank char then some (text.dropWhile isBlank) else none

def callKeyword : List Char := "PERFORM".toList

/-- The paragraph called at the very front of a text. -/
def leadingCall? (text : List Char) : Option String :=
  match (afterWord? (· == ·) callKeyword text).bind afterGap? with
  | none => none
  | some rest => if leadingName rest = [] then none else some (String.ofList (leadingName rest))

/-- The first call in a text, at whatever position it stands. -/
def firstCall? : List Char → Option String
  | [] => none
  | char :: text => leadingCall? (char :: text) <|> firstCall? text

/-- The paragraph that a line calls.  The line has to begin with the keyword,
although the call that counts may stand further right. -/
def callTarget? (text : List Char) : Option String :=
  if callKeyword.isPrefixOf text then firstCall? text else none

/-- Letters are compared without case, and the long s is a form of the letter s. -/
def sameLetter (letter char : Char) : Bool :=
  char.toUpper == letter || (letter == 'S' && char == '\u017F')

def leadsWithSql (text : List Char) : Bool :=
  match (afterWord? sameLetter "EXEC".toList text).bind afterGap? with
  | none => false
  | some rest => (afterWord? sameLetter "SQL".toList rest).isSome

def mentionsSql : List Char → Bool
  | [] => false
  | char :: text => leadsWithSql (char :: text) || mentionsSql text

end SqlReach.Line
