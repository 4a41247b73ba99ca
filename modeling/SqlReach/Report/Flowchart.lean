import SqlReach.Analysis

/-!
# The flowchart report

The flowchart draws the tree as a graph in the notation of Mermaid: every name
is drawn once, however often it occurs, and every pair of caller and callee is
joined once.  The names that use SQL are put into a class of their own.
-/

namespace SqlReach

structure Flowchart where
  /-- The names to draw; the position of a name is its number. -/
  names : List String
  edges : List (String × String)
  /-- The names to mark. -/
  flagged : List String

namespace Flowchart

def edge? (visit : CallTree.Visit) : Option (String × String) :=
  visit.parent.map fun parent => (parent.name, visit.tree.name)

/-- The flowchart of a tree lists names and edges in the order in which the walk
over the tree first meets them. -/
def ofTree (tree : CallTree) : Flowchart :=
  let visits := tree.walk
  { names := (visits.map (·.tree.name)).eraseDups
    edges := (visits.filterMap edge?).eraseDups
    flagged := (visits.filter (·.tree.usesSql)).map (·.tree.name) }

def nodeId (chart : Flowchart) (name : String) : String :=
  "n" ++ toString (chart.names.idxOf name)

def edgeLine (chart : Flowchart) (edge : String × String) : String :=
  "    " ++ chart.nodeId edge.1 ++ " --> " ++ chart.nodeId edge.2 ++ ";"

def nodeLine (chart : Flowchart) (name : String) : String :=
  "    " ++ chart.nodeId name ++ "([" ++ name ++ "]);"

/-- The numbers of the marked names, in the order of the names. -/
def flaggedIds (chart : Flowchart) : List String :=
  (chart.names.filter (· ∈ chart.flagged)).map chart.nodeId

def classLines (chart : Flowchart) : List String :=
  if chart.flaggedIds.isEmpty then []
  else
    ["    classDef sql fill:#f96,stroke:#900;",
      "    class " ++ ",".intercalate chart.flaggedIds ++ " sql;"]

def lines (chart : Flowchart) : List String :=
  "graph TD;" :: chart.edges.map chart.edgeLine ++ chart.names.map chart.nodeLine ++
    chart.classLines

end Flowchart

def Report.flowchart (analysis : Analysis) : String :=
  "\n".intercalate (Flowchart.ofTree analysis.tree).lines

end SqlReach
