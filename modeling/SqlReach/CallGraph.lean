import SqlReach.Register

/-!
# Call graphs

A call graph holds the paragraphs of one program under their names, in the
order in which the names first occurred.  Looking up a name that the program
does not define gives a paragraph without calls and without SQL, so the
look-ups are total.
-/

namespace SqlReach

structure Paragraph where
  name : String
  calls : List String := []
  usesSql : Bool := false
deriving DecidableEq

structure CallGraph where
  sections : List (String × Paragraph) := []
deriving DecidableEq

namespace CallGraph

def names (graph : CallGraph) : List String :=
  graph.sections.map (·.1)

def find? (graph : CallGraph) (name : String) : Option Paragraph :=
  graph.sections.lookup name

def callsOf (graph : CallGraph) (name : String) : List String :=
  match graph.find? name with
  | some paragraph => paragraph.calls
  | none => []

def usesSql (graph : CallGraph) (name : String) : Bool :=
  match graph.find? name with
  | some paragraph => paragraph.usesSql
  | none => false

def put (graph : CallGraph) (name : String) (paragraph : Paragraph) : CallGraph :=
  ⟨Register.put name paragraph graph.sections⟩

/-- How many paragraphs hold an SQL statement. -/
def sqlCount (graph : CallGraph) : Nat :=
  graph.sections.countP (·.2.usesSql)

/-- `graph.Reaches start target` says that a chain of calls leads from `start`
to `target`; every name reaches itself. -/
inductive Reaches (graph : CallGraph) (start : String) : String → Prop
  | refl : Reaches graph start start
  | step {caller callee : String} (reached : Reaches graph start caller)
      (called : callee ∈ graph.callsOf caller) : Reaches graph start callee

/-- The plainest program text with a given paragraph: its label, one line for
each call and one for SQL. -/
def paragraphLines (name : String) (paragraph : Paragraph) : List String :=
  (name ++ ".") :: paragraph.calls.map ("    PERFORM " ++ ·) ++
    (if paragraph.usesSql then ["    EXEC SQL"] else [])

/-- The plainest program text with a given call graph. -/
def toSource (graph : CallGraph) : String :=
  "\n".intercalate (graph.sections.flatMap fun entry => paragraphLines entry.1 entry.2)

end CallGraph

end SqlReach
