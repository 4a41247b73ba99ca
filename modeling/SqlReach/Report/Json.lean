import SqlReach.Json.Data
import SqlReach.Report.Listing

/-!
# The JSON report

The JSON report is the analysis as an indented JSON object.  The writer keeps
what it still has to write in a list, so it can write trees of any depth.  An
integer with more digits than the machine writes is refused.
-/

namespace SqlReach

namespace Report

/-- What is still to be written: a text as it is, or a tree that begins in the
given column, behind `lead` and before `ending`. -/
inductive Piece where
  | text (content : String)
  | subtree (lead : String) (tree : CallTree) (column : Nat) (ending : String)

def Piece.weight : Piece → Nat
  | text _ => 1
  | subtree _ tree _ _ => 2 * tree.size

def Piece.weightAll : List Piece → Nat
  | [] => 0
  | piece :: pieces => piece.weight + weightAll pieces

theorem Piece.weightAll_append (left right : List Piece) :
    weightAll (left ++ right) = weightAll left + weightAll right := by
  induction left with
  | nil => simp [weightAll]
  | cons piece pieces ih => simp [weightAll, ih, Nat.add_assoc]

def nodeHead (column : Nat) (tree : CallTree) : String :=
  let inner := spaces (column + 2)
  "\x7b\n" ++ inner ++ "\"name\": " ++ Json.quote Json.plainAscii tree.name ++ ",\n" ++
    inner ++ "\"uses_sql\": " ++ Json.boolText tree.usesSql ++ ",\n" ++ inner ++ "\"children\": ["

/-- The children of a node, each on lines of its own. -/
def childPieces (column : Nat) : List CallTree → List Piece
  | [] => []
  | [child] => [.subtree (spaces column) child column "\n"]
  | child :: children => .subtree (spaces column) child column ",\n" :: childPieces column children

theorem weightAll_childPieces (column : Nat) (children : List CallTree) :
    Piece.weightAll (childPieces column children) = 2 * CallTree.sizeAll children := by
  induction children with
  | nil => rfl
  | cons child children ih =>
      cases children with
      | nil => simp [childPieces, Piece.weightAll, Piece.weight, CallTree.sizeAll]
      | cons next rest =>
          simp only [childPieces, Piece.weightAll, Piece.weight, CallTree.sizeAll] at ih ⊢
          omega

/-- Writes the pieces behind what has been written. -/
def write (pieces : List Piece) (written : String) : String :=
  match pieces with
  | [] => written
  | .text content :: rest => write rest (written ++ content)
  | .subtree lead tree column ending :: rest =>
      match _hchildren : tree.children with
      | [] =>
          write rest
            (written ++ lead ++ nodeHead column tree ++ "]\n" ++ spaces column ++ "\x7d" ++ ending)
      | child :: children =>
          write
            (childPieces (column + 4) (child :: children) ++
              .text (spaces (column + 2) ++ "]\n" ++ spaces column ++ "\x7d" ++ ending) :: rest)
            (written ++ lead ++ nodeHead column tree ++ "\n")
termination_by Piece.weightAll pieces
decreasing_by
  · simp only [Piece.weightAll, Piece.weight]
    omega
  · simp only [Piece.weightAll, Piece.weight, CallTree.size_eq]
    omega
  · simp only [Piece.weightAll_append, Piece.weightAll, weightAll_childPieces, Piece.weight,
      CallTree.size_eq, _hchildren]
    omega

def memberLine (member : String × Json) : String :=
  "  " ++ Json.quote Json.plainAscii member.1 ++ ": " ++ member.2.prettyAt 2 ++ ","

def json (analysis : Analysis) : String :=
  "\n".intercalate
    ("\x7b" :: analysis.verdictMembers.map memberLine ++
      ["  \"tree\": " ++ write [.subtree "" analysis.tree 2 ""] "", "\x7d"])

/-- Why there is no report: an integer has more than `limit` digits. -/
inductive Unwritable where
  | tooManyDigits (limit : Nat)

def Unwritable.message : Unwritable → String
  | tooManyDigits limit =>
      "Exceeds the limit (" ++ toString limit ++ " digits) for integer string conversion; " ++
        "use sys.set_int_max_str_digits() to increase the limit"

/-- The report on a machine that writes integers of any length, or integers of at most
`limit` digits.  The number of sections is the only integer in a report. -/
def json? (limit : Option Nat) (analysis : Analysis) : Except Unwritable String :=
  match limit with
  | none => .ok (json analysis)
  | some limit =>
      if Nat.pow 10 limit ≤ analysis.sections.natAbs then .error (.tooManyDigits limit)
      else .ok (json analysis)

end Report

end SqlReach
