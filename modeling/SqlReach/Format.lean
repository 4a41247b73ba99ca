/-!
# Report formats

A report is written as a text listing, as JSON or as a flowchart.
-/

namespace SqlReach

/-- The kinds of report. -/
inductive Format where
  | text
  | json
  | mermaid
deriving DecidableEq

namespace Format

def name : Format → String
  | text => "text"
  | json => "json"
  | mermaid => "mermaid"

def ofName? (name : String) : Option Format :=
  if name = "text" then some text
  else if name = "json" then some json
  else if name = "mermaid" then some mermaid
  else none

end Format

end SqlReach
