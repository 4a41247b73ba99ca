import SqlReach.Analysis
import SqlReach.Json

/-!
# Programs as JSON

Paragraphs, call graphs, call trees and analyses as JSON values.  The members of
each stand in a fixed order.
-/

namespace SqlReach

def Paragraph.toJson (paragraph : Paragraph) : Json :=
  .object [("name", .string paragraph.name), ("calls", .array (paragraph.calls.map .string)),
    ("uses_sql", .bool paragraph.usesSql)]

def CallGraph.toJson (graph : CallGraph) : Json :=
  .object [("sections", .object (graph.sections.map fun entry => (entry.1, entry.2.toJson)))]

mutual

/-- The call tree as a JSON value. -/
def CallTree.toJson : CallTree → Json
  | .node name usesSql children =>
      .object [("name", .string name), ("uses_sql", .bool usesSql),
        ("children", .array (CallTree.toJsonAll children))]

def CallTree.toJsonAll : List CallTree → List Json
  | [] => []
  | tree :: trees => tree.toJson :: CallTree.toJsonAll trees

end

def sourceJson : Option String → Json
  | some source => .string source
  | none => .null

/-- The members of an analysis that stand before its tree. -/
def Analysis.verdictMembers (analysis : Analysis) : List (String × Json) :=
  [("start", .string analysis.start), ("source", sourceJson analysis.source),
    ("sections", .integer analysis.sections), ("uses_sql", .bool analysis.usesSql)]

/-- The analysis as a JSON value. -/
def Analysis.toJson (analysis : Analysis) : Json :=
  .object (analysis.verdictMembers ++ [("tree", analysis.tree.toJson)])

end SqlReach
