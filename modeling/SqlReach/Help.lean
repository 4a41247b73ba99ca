import SqlReach.Arguments
import SqlReach.Environment
import SqlReach.Text.Integer

/-!
# The help page

The help page describes the command and its arguments.  It is laid out for the
width of the terminal: texts are filled word by word, and the descriptions of
the arguments stand in a column of their own, which moves to the left when the
terminal is narrow.
-/

namespace SqlReach.Help

/-- Fills lines with words.  A word goes to the next line if it does not fit the
width; `line` is the line begun. -/
def fillFrom (width : Nat) (line : String) : List String → List String
  | [] => [line]
  | word :: words =>
      if line.length + 1 + word.length ≤ width then fillFrom width (line ++ " " ++ word) words
      else line :: fillFrom width word words

def fill (width : Nat) : List String → List String
  | [] => []
  | word :: words => fillFrom width word words

def spaces (count : Nat) : String :=
  String.ofList (List.replicate count ' ')

/-- The layout of a page of a given width. -/
structure Layout where
  width : Nat

namespace Layout

/-- Two columns of the terminal stay free. -/
def ofColumns (columns : Nat) : Layout :=
  ⟨columns - 2⟩

/-- No text is filled to a smaller width. -/
def leastWidth : Nat := 11

def textWidth (layout : Layout) : Nat :=
  max layout.width leastWidth

/-- Where the descriptions begin. -/
def column (layout : Layout) : Nat :=
  min 24 (max (layout.width - 20) 4)

def columnWidth (layout : Layout) : Nat :=
  max (layout.width - layout.column) leastWidth

end Layout

/-- An argument of the command and its description, word by word. -/
structure Topic where
  label : String
  description : List String

/-- The lines about an argument.  A label that reaches into the column of the
descriptions has a line of its own. -/
def Topic.lines (layout : Layout) (topic : Topic) : List String :=
  let room := layout.column - 4
  let description := fill layout.columnWidth topic.description
  let indented := description.map (spaces layout.column ++ ·)
  if topic.label.length ≤ room then
    let gap := spaces (room - topic.label.length + 2)
    ("  " ++ topic.label ++ gap ++ description.headD "") :: indented.drop 1
  else ("  " ++ topic.label) :: indented

def purpose : List String :=
  ["Builds", "the", "PERFORM", "call", "tree", "of", "a", "COBOL", "program", "from", "a",
    "start", "paragraph", "and", "fails", "if", "any", "reachable", "paragraph", "uses", "EXEC",
    "SQL."]

def words : List Topic := [
  ⟨"start_function", ["Paragraph", "to", "start", "from,", "e.g.", "000-MAIN."]⟩,
  ⟨"file_path", ["COBOL", "source", "file", "to", "analyze."]⟩]

/-- The options; `format` is the format if none is chosen. -/
def options (format : Format) : List Topic := [
  ⟨"-h, --help", ["show", "this", "help", "message", "and", "exit"]⟩,
  ⟨"--format \x7bjson,mermaid,text\x7d",
    ["Report", "format", "(default:", format.name ++ ")."]⟩]

def page (layout : Layout) (format : Format) : String :=
  let usage := ["usage: " ++ Arguments.usage, ""]
  let about := fill layout.textWidth purpose ++ [""]
  let taken := "positional arguments:" :: words.flatMap (Topic.lines layout) ++ [""]
  let chosen := "options:" :: (options format).flatMap (Topic.lines layout)
  String.join ((usage ++ about ++ taken ++ chosen).map (· ++ "\n"))

def defaultColumns : Nat := 80

/-- The number of columns of the terminal, as far as the environment knows it. -/
def columns (environment : Environment) : Nat :=
  match (environment.get? "COLUMNS").bind Text.integer? with
  | some number => if 0 < number then number.toNat else defaultColumns
  | none => defaultColumns

end SqlReach.Help
