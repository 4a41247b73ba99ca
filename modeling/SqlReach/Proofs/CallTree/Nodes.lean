import SqlReach.CallTree

/-!
# The nodes of a call tree

The nodes of a tree, a node before its children, are the view of a tree through
which statements about what occurs in it are made.  The search for SQL keeps a
list of pending trees, takes them in an order of its own and stops early; here
it is shown to answer whether some node carries the flag.
-/

namespace SqlReach.CallTree

mutual

/-- Every node of a tree together with what is below it, a node before its children. -/
def nodes : CallTree → List CallTree
  | node name usesSql children => node name usesSql children :: nodesAll children

def nodesAll : List CallTree → List CallTree
  | [] => []
  | tree :: trees => nodes tree ++ nodesAll trees

end

theorem nodes_eq (tree : CallTree) : tree.nodes = tree :: nodesAll tree.children := by
  cases tree with
  | node name usesSql children => rfl

/-- The names that occur in a tree, in the order of its nodes. -/
def names (tree : CallTree) : List String :=
  tree.nodes.map name

def namesAll (trees : List CallTree) : List String :=
  (nodesAll trees).map name

@[simp]
theorem names_node (name : String) (usesSql : Bool) (children : List CallTree) :
    (node name usesSql children).names = name :: namesAll children := rfl

@[simp]
theorem namesAll_nil : namesAll [] = [] := rfl

@[simp]
theorem namesAll_cons (tree : CallTree) (trees : List CallTree) :
    namesAll (tree :: trees) = tree.names ++ namesAll trees := by
  simp [namesAll, names, nodesAll]

theorem mem_nodesAll {trees : List CallTree} {found : CallTree} :
    found ∈ nodesAll trees ↔ ∃ tree ∈ trees, found ∈ tree.nodes := by
  induction trees with
  | nil => simp [nodesAll]
  | cons tree trees ih => simp [nodesAll, ih]

/-- Somewhere in the tree a node named `callee` stands under one named `caller`. -/
def HasEdge (tree : CallTree) (caller callee : String) : Prop :=
  ∃ above ∈ tree.nodes, above.name = caller ∧ callee ∈ above.children.map name

def HasEdgeAll (trees : List CallTree) (caller callee : String) : Prop :=
  ∃ above ∈ nodesAll trees, above.name = caller ∧ callee ∈ above.children.map name

theorem hasEdge_node (name : String) (usesSql : Bool) (children : List CallTree)
    (caller callee : String) :
    (node name usesSql children).HasEdge caller callee ↔
      name = caller ∧ callee ∈ children.map CallTree.name ∨ HasEdgeAll children caller callee := by
  simp only [HasEdge, HasEdgeAll, nodes, List.mem_cons, exists_eq_or_imp]
  rfl

theorem not_hasEdgeAll_nil (caller callee : String) : ¬ HasEdgeAll [] caller callee := by
  simp [HasEdgeAll, nodesAll]

theorem hasEdgeAll_cons (tree : CallTree) (trees : List CallTree) (caller callee : String) :
    HasEdgeAll (tree :: trees) caller callee ↔
      tree.HasEdge caller callee ∨ HasEdgeAll trees caller callee := by
  simp only [HasEdgeAll, HasEdge, nodesAll, List.mem_append, or_and_right, exists_or]

/-- The order in which pending trees are taken does not matter for what is found. -/
theorem mem_nodesAll_reverse_append {children rest : List CallTree} {found : CallTree} :
    found ∈ nodesAll (children.reverse ++ rest) ↔
      found ∈ nodesAll children ∨ found ∈ nodesAll rest := by
  simp only [mem_nodesAll, List.mem_append, List.mem_reverse, or_and_right, exists_or]

theorem containsSqlIn_iff (pending : List CallTree) :
    containsSqlIn pending = true ↔ ∃ found ∈ nodesAll pending, found.usesSql = true := by
  fun_induction containsSqlIn pending with
  | case1 => simp [nodesAll]
  | case2 tree rest hsql =>
      simp only [true_iff]
      exact ⟨tree, by simp [nodesAll, nodes_eq], hsql⟩
  | case3 tree rest hclean ih =>
      rw [ih]
      simp only [mem_nodesAll_reverse_append, nodesAll, nodes_eq, List.cons_append,
        List.mem_cons, List.mem_append]
      constructor
      · rintro ⟨found, hfound, hsql⟩
        exact ⟨found, Or.inr hfound, hsql⟩
      · rintro ⟨found, rfl | hfound, hsql⟩
        · exact absurd hsql hclean
        · exact ⟨found, hfound, hsql⟩

theorem containsSql_iff (tree : CallTree) :
    tree.containsSql = true ↔ ∃ found ∈ tree.nodes, found.usesSql = true := by
  rw [containsSql, containsSqlIn_iff]
  simp [nodesAll]

end SqlReach.CallTree
