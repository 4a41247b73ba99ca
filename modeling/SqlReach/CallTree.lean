/-!
# Call trees

A call tree shows which paragraph calls which, from a start paragraph down.
Trees can be as deep as a program has paragraphs, so whatever runs over them
keeps its pending work in a list; the recursive definitions stand beside the
loops as the description of what the loops compute.
-/

namespace SqlReach

inductive CallTree where
  | node (name : String) (usesSql : Bool) (children : List CallTree)

/-- One line of a tree's listing from the root down: how deep a node stands, its
name and its flag. -/
structure Row where
  depth : Nat
  name : String
  usesSql : Bool
deriving DecidableEq

namespace CallTree

def name : CallTree → String
  | node name _ _ => name

def usesSql : CallTree → Bool
  | node _ usesSql _ => usesSql

def children : CallTree → List CallTree
  | node _ _ children => children

def leaf (name : String) (usesSql : Bool) : CallTree :=
  node name usesSql []

mutual

/-- The number of nodes. -/
def size : CallTree → Nat
  | node _ _ children => 1 + sizeAll children

def sizeAll : List CallTree → Nat
  | [] => 0
  | tree :: trees => tree.size + sizeAll trees

end

theorem sizeAll_append (left right : List CallTree) :
    sizeAll (left ++ right) = sizeAll left + sizeAll right := by
  induction left with
  | nil => simp [sizeAll]
  | cons tree trees ih => simp [sizeAll, ih, Nat.add_assoc]

theorem sizeAll_reverse (trees : List CallTree) :
    sizeAll trees.reverse = sizeAll trees := by
  induction trees with
  | nil => rfl
  | cons tree trees ih =>
      simp only [List.reverse_cons, sizeAll_append, sizeAll, ih]
      omega

theorem size_eq (tree : CallTree) : tree.size = 1 + sizeAll tree.children := by
  cases tree with
  | node name usesSql children => rfl

mutual

/-- The rows of a tree whose root stands at a given depth, a node before its
children and the children from left to right. -/
def rowsFrom (depth : Nat) : CallTree → List Row
  | node name usesSql children => ⟨depth, name, usesSql⟩ :: rowsFromAll (depth + 1) children

def rowsFromAll (depth : Nat) : List CallTree → List Row
  | [] => []
  | tree :: trees => rowsFrom depth tree ++ rowsFromAll depth trees

end

/-- A node as the walk meets it. -/
structure Visit where
  parent : Option CallTree
  tree : CallTree
  depth : Nat

namespace Visit

def row (visit : Visit) : Row where
  depth := visit.depth
  name := visit.tree.name
  usesSql := visit.tree.usesSql

def descend (visit : Visit) : List Visit :=
  visit.tree.children.map fun child => ⟨some visit.tree, child, visit.depth + 1⟩

theorem sizeAll_descend (visit : Visit) :
    sizeAll (visit.descend.map (·.tree)) + 1 = visit.tree.size := by
  have trees : visit.descend.map (·.tree) = visit.tree.children := by
    simp [descend, Function.comp_def]
  rw [trees, size_eq, Nat.add_comm]

end Visit

/-- Visits the pending nodes and all that is below them, a node before its
children; `done` holds the earlier visits, the latest first. -/
def walkFrom (pending done : List Visit) : List Visit :=
  match pending with
  | [] => done.reverse
  | visit :: rest => walkFrom (visit.descend ++ rest) (visit :: done)
termination_by sizeAll (pending.map (·.tree))
decreasing_by
  have := visit.sizeAll_descend
  simp only [List.map_append, List.map_cons, sizeAll_append, sizeAll]
  omega

/-- Every node of the tree, a node before its children and the children from
left to right. -/
def walk (tree : CallTree) : List Visit :=
  walkFrom [⟨none, tree, 0⟩] []

/-- The rows of the tree, in the order of the walk. -/
def rows (tree : CallTree) : List Row :=
  tree.walk.map (·.row)

/-- Puts a row in front of the trees that follow it: the deeper ones at the
front become its children. -/
def plant (row : Row) (planted : List (Nat × CallTree)) : List (Nat × CallTree) :=
  (row.depth, node row.name row.usesSql ((planted.takeWhile (row.depth < ·.1)).map (·.2))) ::
    planted.dropWhile (row.depth < ·.1)

/-- The tree with the given rows. -/
def ofRows? (rows : List Row) : Option CallTree :=
  ((rows.foldr plant []).head?).map (·.2)

/-- Whether a pending tree holds a node that uses SQL. -/
def containsSqlIn (pending : List CallTree) : Bool :=
  match pending with
  | [] => false
  | tree :: rest =>
      if tree.usesSql then true else containsSqlIn (tree.children.reverse ++ rest)
termination_by sizeAll pending
decreasing_by
  rw [sizeAll_append, sizeAll_reverse, sizeAll, size_eq]
  omega

def containsSql (tree : CallTree) : Bool :=
  containsSqlIn [tree]

end CallTree

end SqlReach
