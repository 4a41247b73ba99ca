import SqlReach.Format
import SqlReach.Text.Digit
import SqlReach.Text.Quoted

/-!
# The arguments of the command

The command takes two words, the start paragraph and the file, and two options:
one asks for help, the other chooses the format of the report.  Both words are
optional, and both are taken from the first run of adjacent words; whatever is
left over is reported after everything else.  Behind a double hyphen there are
only words.
-/

namespace SqlReach.Arguments

def usage : String :=
  "performscan <startFunction> <filePath> [--format \x7btext,json,mermaid\x7d]"

/-- What was asked for. -/
inductive Request where
  | help
  /-- There is no format if a double hyphen was given in its place. -/
  | analysis (start file : Option String) (format : Option Format)
deriving DecidableEq

/-- Why a list of arguments is refused. -/
inductive Refusal where
  /-- An abbreviation that fits both long options. -/
  | ambiguous (argument : String)
  /-- A format option without a format. -/
  | missingFormat
  | unknownFormat (value : String)
  /-- A help option with a value. -/
  | ignoredValue (value : String)
  | unrecognized (arguments : List String)
deriving DecidableEq

def Refusal.message : Refusal → String
  | ambiguous argument => "ambiguous option: " ++ argument ++ " could match --help, --format"
  | missingFormat => "argument --format: expected one argument"
  | unknownFormat value =>
      "argument --format: invalid choice: " ++ Text.quoted value ++
        " (choose from 'json', 'mermaid', 'text')"
  | ignoredValue value => "argument -h/--help: ignored explicit argument " ++ Text.quoted value
  | unrecognized arguments => "unrecognized arguments: " ++ " ".intercalate arguments

/-- A single argument, as it is read before its neighbours are looked at. -/
inductive Reading where
  | word (text : String)
  /-- The double hyphen behind which there are only words. -/
  | divider
  /-- A help option, with the value that it should not have. -/
  | help (value : Option String)
  | format (value : Option String)
  | unknown (text : String)
deriving DecidableEq

/-- What stands behind the letter `h` in the same argument, apart from further
letters of that kind. -/
def afterLetters? (letters : List Char) : Option String :=
  match letters.dropWhile (· == 'h') with
  | [] => none
  | value => some (String.ofList value)

/-- The value of a help option with one hyphen.  An equals sign right behind its
letter is dropped, and asks for a value even if there is none. -/
def helpValue? : List Char → Option String
  | ['='] => some ""
  | '=' :: letters => afterLetters? letters
  | letters => afterLetters? letters

/-- Whether an argument is a negative number, which makes it a word.  A line feed
at its very end does not count. -/
def isNegativeNumber (argument : List Char) : Bool :=
  let number := if argument.getLast? = some '\n' then argument.dropLast else argument
  match number with
  | '-' :: digits =>
      match digits.dropWhile Text.isScriptDigit with
      | [] => digits ≠ []
      | '.' :: places => places ≠ [] && places.all Text.isScriptDigit
      | _ => false
  | _ => false

/-- An argument that names no option, although it begins with a hyphen. -/
def unnamed (argument : List Char) : Reading :=
  if isNegativeNumber argument || argument.contains ' ' then .word (String.ofList argument)
  else .unknown (String.ofList argument)

/-- The part of an argument before the first equals sign, and the part behind it. -/
def nameAndValue (argument : List Char) : List Char × Option (List Char) :=
  match argument.dropWhile (· ≠ '=') with
  | [] => (argument, none)
  | _ :: value => (argument.takeWhile (· ≠ '='), some value)

/-- Reads an argument that begins with two hyphens.  Both long options can be
abbreviated; only an abbreviation that fits both is refused at once. -/
def readLong (argument : List Char) : Except Refusal Reading :=
  let (name, value) := nameAndValue argument
  let value := value.map String.ofList
  match name.isPrefixOf "--help".toList, name.isPrefixOf "--format".toList with
  | true, true => .error (.ambiguous (String.ofList argument))
  | true, false => .ok (.help value)
  | false, true => .ok (.format value)
  | false, false => .ok (unnamed argument)

def readArgument (argument : String) : Except Refusal Reading :=
  match argument.toList with
  | ['-', '-'] => .ok .divider
  | '-' :: '-' :: rest => readLong ('-' :: '-' :: rest)
  | '-' :: 'h' :: letters => .ok (.help (helpValue? letters))
  | '-' :: char :: rest => .ok (unnamed ('-' :: char :: rest))
  | _ => .ok (.word argument)

/-- Reads the arguments one by one; behind a divider there are only words. -/
def readAll : List String → Except Refusal (List Reading)
  | [] => .ok []
  | argument :: arguments => do
      match ← readArgument argument with
      | .divider => return .divider :: arguments.map .word
      | reading => return reading :: (← readAll arguments)

/-- How far the two words have been read. -/
inductive Stage where
  /-- No word yet. -/
  | first
  /-- The next word is the second one, if nothing but a divider comes between. -/
  | second
  /-- Further words are left over.  A divider right behind the second word is not. -/
  | done (afterSecond : Bool)
deriving DecidableEq

structure State where
  stage : Stage := .first
  start : Option String := none
  file : Option String := none
  format : Option Format
  /-- The arguments left over, the latest first. -/
  leftover : List String := []

namespace State

/-- An option ends the run of words, once it has begun. -/
def interrupt (state : State) : State :=
  match state.stage with
  | .first => state
  | _ => { state with stage := .done false }

def leave (state : State) (argument : String) : State :=
  { state with leftover := argument :: state.leftover }

/-- Takes a word.  A double hyphen in the place of the second word counts as a
missing word. -/
def takeWord (state : State) (word : String) : State :=
  match state.stage with
  | .first => { state with stage := .second, start := some word }
  | .second => { state with stage := .done true, file := if word = "--" then none else some word }
  | .done _ => { state with stage := .done false }.leave word

def takeDivider (state : State) : State :=
  match state.stage with
  | .first => state
  | .second => state
  | .done true => { state with stage := .done false }
  | .done false => state.leave "--"

def finish (state : State) : Except Refusal Request :=
  if state.leftover = [] then .ok (.analysis state.start state.file state.format)
  else .error (.unrecognized state.leftover.reverse)

end State

/-- Takes the value of a format option.  A double hyphen is not looked up, and
leaves no format. -/
def takeFormat (state : State) (value : String) : Except Refusal State :=
  if value = "--" then .ok { state.interrupt with format := none }
  else
    match Format.ofName? value with
    | some format => .ok { state.interrupt with format := some format }
    | none => .error (.unknownFormat value)

/-- Goes through the readings from left to right.  A format is checked, and help
is given, as soon as it is reached. -/
def consume (state : State) : List Reading → Except Refusal Request
  | [] => state.finish
  | .word text :: rest => consume (state.takeWord text) rest
  | .divider :: rest => consume state.takeDivider rest
  | .help none :: _ => .ok .help
  | .help (some value) :: _ => .error (.ignoredValue value)
  | .unknown text :: rest => consume (state.interrupt.leave text) rest
  | .format (some value) :: rest =>
      match takeFormat state value with
      | .error refusal => .error refusal
      | .ok state => consume state rest
  | .format none :: .word value :: rest =>
      match takeFormat state value with
      | .error refusal => .error refusal
      | .ok state => consume state rest
  | .format none :: _ => .error .missingFormat

/-- Reads a list of arguments; `format` is the format if none is chosen. -/
def parse (format : Format) (arguments : List String) : Except Refusal Request :=
  match readAll arguments with
  | .error refusal => .error refusal
  | .ok readings => consume { format := some format } readings

/-- The text that the command prints when it refuses its arguments. -/
def refusalText (refusal : Refusal) : String :=
  "usage: " ++ usage ++ "\nperformscan: error: " ++ refusal.message ++ "\n"

end SqlReach.Arguments
