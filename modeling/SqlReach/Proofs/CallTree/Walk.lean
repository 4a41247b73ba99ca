import SqlReach.Proofs.CallTree.Nodes

/-!
# The walk over a call tree

The walk keeps the visits that are still to be made in a list.  Beside it stands
the recursion that visits a node, then its children from left to right, each with
the node it stands under and its depth.  This module proves that the two make the
same visits in the same order, whatever else is pending, and says which nodes and
which pairs of nodes are met.
-/

namespace SqlReach.CallTree

mutual

/-- The visits to a tree that stands under `parent` at a given depth. -/
def visitsFrom (parent : Option CallTree) (depth : Nat) : CallTree → List Visit
  | node name usesSql children =>
      ⟨parent, node name usesSql children, depth⟩ ::
        visitsFromAll (node name usesSql children) (depth + 1) children

def visitsFromAll (parent : CallTree) (depth : Nat) : List CallTree → List Visit
  | [] => []
  | tree :: trees => visitsFrom (some parent) depth tree ++ visitsFromAll parent depth trees

end

/-- All visits that come of a pending one. -/
def Visit.visits (visit : Visit) : List Visit :=
  visitsFrom visit.parent visit.depth visit.tree

theorem visitsFromAll_eq_flatMap (parent : CallTree) (depth : Nat) (trees : List CallTree) :
    visitsFromAll parent depth trees =
      (trees.map fun child => (⟨some parent, child, depth⟩ : Visit)).flatMap Visit.visits := by
  induction trees with
  | nil => rfl
  | cons tree trees ih => rw [visitsFromAll, List.map_cons, List.flatMap_cons, ← ih, Visit.visits]

/-- One step of the walk: a visit, and then those below it. -/
theorem Visit.visits_eq (visit : Visit) :
    visit.visits = visit :: visit.descend.flatMap Visit.visits := by
  obtain ⟨parent, tree, depth⟩ := visit
  cases tree with
  | node name usesSql children =>
      rw [Visit.visits, visitsFrom, visitsFromAll_eq_flatMap]
      rfl

theorem walkFrom_eq (pending done : List Visit) :
    walkFrom pending done = done.reverse ++ pending.flatMap Visit.visits := by
  fun_induction walkFrom pending done with
  | case1 done => simp
  | case2 done visit rest ih =>
      rw [ih, List.flatMap_append, List.flatMap_cons, Visit.visits_eq visit]
      simp

theorem walk_eq_visitsFrom (tree : CallTree) : tree.walk = visitsFrom none 0 tree := by
  rw [walk, walkFrom_eq]
  simp [Visit.visits]

/-! ## What the walk meets -/

mutual

theorem map_tree_visitsFrom (parent : Option CallTree) (depth : Nat) (tree : CallTree) :
    (visitsFrom parent depth tree).map (·.tree) = tree.nodes := by
  cases tree with
  | node name usesSql children =>
      rw [visitsFrom, List.map_cons, map_tree_visitsFromAll, nodes]

theorem map_tree_visitsFromAll (parent : CallTree) (depth : Nat) (trees : List CallTree) :
    (visitsFromAll parent depth trees).map (·.tree) = nodesAll trees := by
  cases trees with
  | nil => rfl
  | cons tree trees =>
      rw [visitsFromAll, List.map_append, map_tree_visitsFrom, map_tree_visitsFromAll, nodesAll]

end

theorem map_tree_walk (tree : CallTree) : tree.walk.map (·.tree) = tree.nodes := by
  rw [walk_eq_visitsFrom, map_tree_visitsFrom]

mutual

/-- A node is met under another one if it stands there, and at the top under what
the whole tree stands under. -/
theorem exists_visitsFrom_iff (parent : Option CallTree) (depth : Nat) (tree : CallTree)
    (above below : CallTree) :
    (∃ visit ∈ visitsFrom parent depth tree, visit.parent = some above ∧ visit.tree = below) ↔
      parent = some above ∧ tree = below ∨ above ∈ tree.nodes ∧ below ∈ above.children := by
  cases tree with
  | node name usesSql children =>
      simp only [visitsFrom, List.mem_cons, exists_eq_or_imp, nodes]
      rw [exists_visitsFromAll_iff]
      constructor
      · rintro (htop | ⟨rfl, hbelow⟩ | hdeeper)
        · exact Or.inl htop
        · exact Or.inr ⟨Or.inl rfl, hbelow⟩
        · exact Or.inr ⟨Or.inr hdeeper.1, hdeeper.2⟩
      · rintro (htop | ⟨rfl | habove, hbelow⟩)
        · exact Or.inl htop
        · exact Or.inr (Or.inl ⟨rfl, hbelow⟩)
        · exact Or.inr (Or.inr ⟨habove, hbelow⟩)

theorem exists_visitsFromAll_iff (parent : CallTree) (depth : Nat) (trees : List CallTree)
    (above below : CallTree) :
    (∃ visit ∈ visitsFromAll parent depth trees,
        visit.parent = some above ∧ visit.tree = below) ↔
      parent = above ∧ below ∈ trees ∨ above ∈ nodesAll trees ∧ below ∈ above.children := by
  cases trees with
  | nil => simp [visitsFromAll, nodesAll]
  | cons tree trees =>
      have hfirst := exists_visitsFrom_iff (some parent) depth tree above below
      have hrest := exists_visitsFromAll_iff parent depth trees above below
      simp only [visitsFromAll, nodesAll, List.mem_append, List.mem_cons, or_and_right, exists_or,
        hfirst, hrest, Option.some.injEq]
      grind

end

theorem exists_walk_iff (tree above below : CallTree) :
    (∃ visit ∈ tree.walk, visit.parent = some above ∧ visit.tree = below) ↔
      above ∈ tree.nodes ∧ below ∈ above.children := by
  rw [walk_eq_visitsFrom, exists_visitsFrom_iff]
  simp

end SqlReach.CallTree
