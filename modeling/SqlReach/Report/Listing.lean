import SqlReach.Analysis

/-!
# The text report

The text report lists the call tree from the root down, one node a line, two
spaces for each level, with a mark behind the paragraphs that use SQL.
-/

namespace SqlReach.Report

def spaces (count : Nat) : String :=
  String.ofList (List.replicate count ' ')

def sqlMark : String := " (Uses EXEC SQL)"

/-- The line of a row; a negative indentation is none at all. -/
def listingLine (indent : Int) (row : Row) : String :=
  spaces (indent + 2 * row.depth).toNat ++ "- " ++ row.name ++ (if row.usesSql then sqlMark else "")

def listing (tree : CallTree) (indent : Int) : List String :=
  tree.rows.map (listingLine indent)

/-- Why a tree cannot be listed at an indentation. -/
inductive Unlistable where
  /-- The indentation of a line does not fit a machine word. -/
  | outOfRange
  /-- A line is too long to be held in memory. -/
  | outOfMemory

def Unlistable.message : Unlistable → String
  | outOfRange => "cannot fit 'int' into an index-sized integer"
  | outOfMemory => ""

/-- One more than the largest signed machine word. -/
def wordLimit : Int := 0x8000000000000000

/-- A line of so many characters cannot be held. -/
def lineLimit : Int := 0x10000000000

/-- What is wrong with the indentation of a single line, if anything is. -/
def unlistable? (indent : Int) : Option Unlistable :=
  if indent < -wordLimit ∨ wordLimit ≤ indent then some .outOfRange
  else if lineLimit ≤ indent then some .outOfMemory
  else none

/-- The listing, if all of its lines can be indented as asked. -/
def listing? (tree : CallTree) (indent : Int) : Except Unlistable (List String) :=
  match tree.rows.findSome? fun row => unlistable? (indent + 2 * row.depth) with
  | some cause => .error cause
  | none => .ok (listing tree indent)

def text (analysis : Analysis) : String :=
  "\n".intercalate ("PERFORM Call Tree:" :: listing analysis.tree 0)

end SqlReach.Report
