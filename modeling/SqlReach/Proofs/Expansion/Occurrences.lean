import Mathlib.Algebra.BigOperators.Group.Finset.Basic
import SqlReach.Proofs.Expansion.Coverage

/-!
# Where a name is unfolded

Whether a node has children is decided while the tree is being built, by what was
visited up to then.  Read in the order of its nodes the finished tree shows the same
decisions: a name that did not count as visited is unfolded where it occurs first, and
every other node is a leaf.  Since each name is unfolded at most once, the size of the
tree is known from the calls of the names in it.
-/

namespace SqlReach

namespace CallTree

mutual

theorem length_nodes (tree : CallTree) : tree.nodes.length = tree.size := by
  cases tree with
  | node name usesSql children =>
      rw [nodes, List.length_cons, length_nodesAll, size, Nat.add_comm]

theorem length_nodesAll (trees : List CallTree) : (nodesAll trees).length = sizeAll trees := by
  cases trees with
  | nil => rfl
  | cons tree trees =>
      rw [nodesAll, List.length_append, length_nodes, length_nodesAll, sizeAll]

end

/-- What a node shows of its paragraph.  It is a leaf if its name was met before, and
otherwise its children are named after the calls of the paragraph. -/
structure Unfolds (graph : CallGraph) (met : List String) (found : CallTree) : Prop where
  leaf_of_mem : found.name ∈ met → found.children = []
  unfolded_of_not_mem : found.name ∉ met →
    found.children.map name = graph.callsOf found.name

theorem Unfolds.congr {graph : CallGraph} {met other : List String} {found : CallTree}
    (hunfolds : Unfolds graph met found) (hsame : ∀ name, name ∈ met ↔ name ∈ other) :
    Unfolds graph other found where
  leaf_of_mem hmem := hunfolds.leaf_of_mem ((hsame _).mpr hmem)
  unfolded_of_not_mem hnew := hunfolds.unfolded_of_not_mem fun hmem => hnew ((hsame _).mp hmem)

/-- Taken in order, the nodes unfold every name that was neither visited before nor
met among the nodes in front. -/
def UnfoldInOrder (graph : CallGraph) (visited : List String) (nodes : List CallTree) : Prop :=
  ∀ before found rest, nodes = before ++ found :: rest →
    Unfolds graph (visited ++ before.map name) found

variable {graph : CallGraph} {visited between : List String} {left right : List CallTree}

theorem unfoldInOrder_nil : UnfoldInOrder graph visited [] := by
  intro before found rest hnodes
  cases before <;> cases hnodes

theorem unfoldInOrder_singleton {found : CallTree} (hunfolds : Unfolds graph visited found) :
    UnfoldInOrder graph visited [found] := by
  intro before other rest hnodes
  cases before with
  | nil =>
      cases hnodes
      simpa using hunfolds
  | cons first before =>
      have hempty := (List.cons.inj hnodes).2
      cases before <;> cases hempty

/-- What the nodes on the left have met counts as visited on the right. -/
theorem UnfoldInOrder.append (hleft : UnfoldInOrder graph visited left)
    (hright : UnfoldInOrder graph between right)
    (hbetween : ∀ name, name ∈ between ↔ name ∈ visited ∨ name ∈ left.map CallTree.name) :
    UnfoldInOrder graph visited (left ++ right) := by
  have hlater : ∀ before found rest, right = before ++ found :: rest →
      Unfolds graph (visited ++ (left ++ before).map name) found := by
    intro before found rest hnodes
    apply (hright before found rest hnodes).congr
    intro known
    simp only [List.mem_append, List.map_append, hbetween, or_assoc]
  intro before found rest hnodes
  -- The node stands on the right, possibly as the first one there, or on the left.
  rcases List.append_eq_append_iff.mp hnodes with ⟨gap, rfl, htail⟩ | ⟨gap, hgap, htail⟩
  · exact hlater gap found rest htail
  · cases gap with
    | nil =>
        rw [List.append_nil] at hgap
        have hfound := hlater [] found rest htail.symm
        rwa [List.append_nil, hgap] at hfound
    | cons first gap =>
        obtain rfl := (List.cons.inj htail).1
        exact hleft before found gap hgap

end CallTree

open CallTree

variable {graph : CallGraph}

mutual

theorem Expands.unfoldInOrder {visited after : List String} {name : String} {tree : CallTree}
    (hexpands : Expands graph visited name tree after) :
    UnfoldInOrder graph visited tree.nodes := by
  cases hexpands with
  | truncate hvisited =>
      apply unfoldInOrder_singleton
      exact ⟨fun _ => rfl, fun hnew => absurd hvisited hnew⟩
  | unfold hnew hchildren =>
      have hroot : Unfolds graph visited (.node name (graph.usesSql name) _) :=
        ⟨fun hvisited => absurd hvisited hnew, fun _ => hchildren.map_name⟩
      apply (unfoldInOrder_singleton hroot).append hchildren.unfoldInOrder
      intro known
      rw [List.mem_cons, List.map_singleton, List.mem_singleton, or_comm]
      rfl

theorem ExpandsAll.unfoldInOrder {visited names after : List String} {trees : List CallTree}
    (hexpands : ExpandsAll graph visited names trees after) :
    UnfoldInOrder graph visited (nodesAll trees) := by
  cases hexpands with
  | nil => exact unfoldInOrder_nil
  | cons hfirst hrest =>
      apply hfirst.unfoldInOrder.append hrest.unfoldInOrder
      intro known
      exact hfirst.mem_after_iff_mem_names

end

/-! ## The size of the tree -/

/-- How many calls the paragraphs with the given names hold together. -/
def CallGraph.callCount (graph : CallGraph) (names : Finset String) : Nat :=
  ∑ name ∈ names, (graph.callsOf name).length

/-- The names that are visited in one step are not visited in the next one. -/
theorem CallGraph.callCount_sdiff (graph : CallGraph) {visited between after : List String}
    (hfirst : visited ⊆ between) (hrest : between ⊆ after) :
    graph.callCount (after.toFinset \ visited.toFinset) =
      graph.callCount (between.toFinset \ visited.toFinset) +
        graph.callCount (after.toFinset \ between.toFinset) := by
  have hunion : after.toFinset \ visited.toFinset =
      (between.toFinset \ visited.toFinset) ∪ (after.toFinset \ between.toFinset) := by
    rw [Finset.union_comm, Finset.sdiff_union_sdiff_cancel]
    · intro known hknown
      exact List.mem_toFinset.mpr (hrest (List.mem_toFinset.mp hknown))
    · intro known hknown
      exact List.mem_toFinset.mpr (hfirst (List.mem_toFinset.mp hknown))
  have hdisjoint : Disjoint (between.toFinset \ visited.toFinset)
      (after.toFinset \ between.toFinset) :=
    Finset.disjoint_sdiff.mono_left Finset.sdiff_subset
  rw [hunion, callCount, Finset.sum_union hdisjoint]
  rfl

theorem CallGraph.callCount_cons (graph : CallGraph) {name : String} {visited : List String}
    (hnew : name ∉ visited) :
    graph.callCount ((name :: visited).toFinset \ visited.toFinset) =
      (graph.callsOf name).length := by
  have hadded : (name :: visited).toFinset \ visited.toFinset = {name} := by
    ext known
    simp only [Finset.mem_sdiff, List.mem_toFinset, List.mem_cons, Finset.mem_singleton]
    grind
  rw [hadded, callCount, Finset.sum_singleton]

mutual

/-- Every node but the root stands for a call of a name that is newly visited. -/
theorem Expands.size_eq {visited after : List String} {name : String} {tree : CallTree}
    (hexpands : Expands graph visited name tree after) :
    tree.size = 1 + graph.callCount (after.toFinset \ visited.toFinset) := by
  cases hexpands with
  | truncate hvisited => simp [leaf, size, sizeAll, CallGraph.callCount]
  | unfold hnew hchildren =>
      rw [size, hchildren.sizeAll_eq,
        graph.callCount_sdiff (List.subset_cons_self name visited) hchildren.visited_subset,
        graph.callCount_cons hnew]

theorem ExpandsAll.sizeAll_eq {visited names after : List String} {trees : List CallTree}
    (hexpands : ExpandsAll graph visited names trees after) :
    sizeAll trees = names.length + graph.callCount (after.toFinset \ visited.toFinset) := by
  cases hexpands with
  | nil => simp [sizeAll, CallGraph.callCount]
  | cons hfirst hrest =>
      rw [sizeAll, hfirst.size_eq, hrest.sizeAll_eq, List.length_cons,
        graph.callCount_sdiff hfirst.visited_subset hrest.visited_subset]
      omega

end

theorem Expands.toFinset_sdiff_eq {visited after : List String} {name : String} {tree : CallTree}
    (hexpands : Expands graph visited name tree after) :
    after.toFinset \ visited.toFinset = tree.names.toFinset \ visited.toFinset := by
  ext known
  simp only [Finset.mem_sdiff, List.mem_toFinset, hexpands.mem_after_iff_mem_names]
  exact ⟨fun ⟨hknown, hnew⟩ => ⟨hknown.resolve_left hnew, hnew⟩,
    fun ⟨hknown, hnew⟩ => ⟨Or.inr hknown, hnew⟩⟩

/-- Every node carries the flag of its paragraph.  A name that was not visited before is
unfolded where it occurs first: its children there are its calls, one by one.  Wherever
it occurs again, and wherever a name occurs that was visited before, there is a leaf.
So besides the root there is a node for every call of every new name in the tree. -/
theorem expand_unfolds_first_occurrences (graph : CallGraph) (start : String)
    (visited : List String) :
    let tree := (expand graph start visited).tree
    (∀ before found rest, tree.nodes = before ++ found :: rest →
      found.usesSql = graph.usesSql found.name ∧
      (found.name ∉ visited → found.name ∉ before.map CallTree.name →
        found.children.map CallTree.name = graph.callsOf found.name) ∧
      (found.name ∈ before.map CallTree.name → found.children = []) ∧
      (found.name ∈ visited → found.children = [])) ∧
    tree.nodes.length =
      1 + ∑ name ∈ tree.names.toFinset \ visited.toFinset, (graph.callsOf name).length := by
  intro tree
  have hexpands := Expansion.expands_expand graph start visited
  constructor
  · intro before found rest hnodes
    have hfound : found ∈ tree.nodes := by
      rw [hnodes]
      exact List.mem_append_right before List.mem_cons_self
    have hunfolds := hexpands.unfoldInOrder before found rest hnodes
    refine ⟨hexpands.usesSql_eq hfound, ?_, ?_, ?_⟩
    · intro hnew hfirst
      apply hunfolds.unfolded_of_not_mem
      exact fun hmet => (List.mem_append.mp hmet).elim hnew hfirst
    · exact fun hmet => hunfolds.leaf_of_mem (List.mem_append_right visited hmet)
    · exact fun hvisited => hunfolds.leaf_of_mem (List.mem_append_left _ hvisited)
  · calc
      tree.nodes.length = tree.size := length_nodes tree
      _ = 1 + graph.callCount
            ((expand graph start visited).visited.toFinset \ visited.toFinset) :=
        hexpands.size_eq
      _ = 1 + graph.callCount (tree.names.toFinset \ visited.toFinset) := by
        rw [hexpands.toFinset_sdiff_eq]

end SqlReach
