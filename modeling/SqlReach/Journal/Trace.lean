import SqlReach.Analysis
import SqlReach.Journal

/-!
# What is recorded

The events of an analysis, in the order in which they happen: the file that is
read, every header of the program, a summary of the scan, a warning when the
start is not defined, every paragraph met again in the call tree, and the
verdict.
-/

namespace SqlReach.Trace

def configured : Event :=
  ⟨.debug, .setup, "Logging configured."⟩

/-- The environment file has a statement at a given line that cannot be read. -/
def unreadStatement (line : Nat) : Event :=
  ⟨.warning, .settings,
    "python-dotenv could not parse statement starting at line " ++ toString line⟩

def reading (path : AbsolutePath) : Event :=
  ⟨.info, .reading, "Reading COBOL source: " ++ path.text⟩

def header (name : String) : Event :=
  ⟨.debug, .scanning, "Paragraph header: " ++ name⟩

def scanned (graph : CallGraph) : Event :=
  ⟨.info, .scanning,
    "Scanned " ++ toString graph.sections.length ++ " paragraphs (" ++ toString graph.sqlCount ++
      " using EXEC SQL)."⟩

def startUndefined (start : String) : Event :=
  ⟨.warning, .judging, "Start paragraph '" ++ start ++ "' is not defined in the source."⟩

def truncated (name : String) : Event :=
  ⟨.debug, .expanding, "'" ++ name ++ "' already visited, truncating."⟩

def verdict (start : String) (usesSql : Bool) : Event :=
  ⟨.info, .judging,
    "Call tree from '" ++ start ++ "': EXEC SQL " ++ (if usesSql then "found" else "not found") ++
      "."⟩

def unreadable (origin : Origin) (path : AbsolutePath) : Event :=
  ⟨.critical, origin, "Could not read '" ++ path.text ++ "'."⟩

/-- A message with a traceback on lines of its own behind it, if there is one. -/
def traced (message traceback : String) : String :=
  if traceback = "" then message
  else if message.toList.getLast? = some '\n' then message ++ traceback
  else message ++ "\n" ++ traceback

def failed (origin : Origin) (path : AbsolutePath) (reason traceback : String) : Event :=
  ⟨.critical, origin,
    traced ("Analysis of '" ++ path.text ++ "' failed: " ++ reason) traceback⟩

/-- The events of an analysis, once the text is read. -/
def ofSurvey (survey : Survey) : List Event :=
  let graph := survey.scanner.graph
  survey.scanner.headers.reverse.map header ++ [scanned graph] ++
    (if survey.start ∈ graph.names then [] else [startUndefined survey.start]) ++
    survey.expansion.truncated.map truncated ++
    [verdict survey.start survey.expansion.tree.containsSql]

end SqlReach.Trace
