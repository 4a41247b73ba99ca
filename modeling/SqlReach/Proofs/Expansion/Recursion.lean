import SqlReach.Expansion
import SqlReach.Proofs.CallTree.Nodes

/-!
# The expansion as a recursion

The expansion runs a loop over an explicit stack.  Beside it stands the
recursive reading of the same work: `Expands` builds the children of a paragraph
one after the other, and each of them starts from the names that the one before
it left visited.  This module proves that every paragraph has exactly one
recursive expansion, on cyclic graphs as well, and that the loop computes it.  The
names that the loop notes as met again are those that occur again among the names of
the finished tree, in the same order.
-/

namespace SqlReach

variable {graph : CallGraph}

mutual

/-- An expansion never forgets a visited name. -/
theorem Expands.visited_subset {visited after : List String} {name : String} {tree : CallTree}
    (hexpands : Expands graph visited name tree after) : visited ⊆ after := by
  cases hexpands with
  | truncate hvisited => exact List.Subset.refl visited
  | unfold hnew hchildren =>
      intro known hknown
      exact hchildren.visited_subset (List.mem_cons_of_mem name hknown)

theorem ExpandsAll.visited_subset {visited names after : List String} {trees : List CallTree}
    (hexpands : ExpandsAll graph visited names trees after) : visited ⊆ after := by
  cases hexpands with
  | nil => exact List.Subset.refl visited
  | cons hfirst hrest => exact List.Subset.trans hfirst.visited_subset hrest.visited_subset

end

open CallTree

mutual

/-- The names left visited are those visited before and those in the tree. -/
theorem Expands.mem_after_iff_mem_names {visited after : List String} {name : String}
    {tree : CallTree} (hexpands : Expands graph visited name tree after) {target : String} :
    target ∈ after ↔ target ∈ visited ∨ target ∈ tree.names := by
  cases hexpands with
  | truncate hvisited =>
      rw [leaf, names_node, namesAll_nil, List.mem_singleton]
      exact (or_iff_left_of_imp fun hname => hname ▸ hvisited).symm
  | unfold hnew hchildren =>
      rw [hchildren.mem_after_iff_mem_namesAll, names_node, List.mem_cons, List.mem_cons, or_assoc,
        or_left_comm]

theorem ExpandsAll.mem_after_iff_mem_namesAll {visited names after : List String}
    {trees : List CallTree} (hexpands : ExpandsAll graph visited names trees after)
    {target : String} : target ∈ after ↔ target ∈ visited ∨ target ∈ namesAll trees := by
  cases hexpands with
  | nil => simp
  | cons hfirst hrest =>
      rw [hrest.mem_after_iff_mem_namesAll, hfirst.mem_after_iff_mem_names, namesAll_cons,
        List.mem_append, or_assoc]

end

/-! ## Names that occur again -/

/-- The names that occur again in a list, given the names met before it. -/
def repeats (met : List String) : List String → List String
  | [] => []
  | name :: names => if name ∈ met then name :: repeats met names else repeats (name :: met) names

theorem repeats_congr {met other : List String} (hsame : ∀ name, name ∈ met ↔ name ∈ other)
    (names : List String) : repeats met names = repeats other names := by
  induction names generalizing met other with
  | nil => rfl
  | cons name names ih =>
      have hcons : ∀ known, known ∈ name :: met ↔ known ∈ name :: other := by
        intro known
        rw [List.mem_cons, List.mem_cons, hsame]
      rw [repeats, repeats, ih hsame, ih hcons]
      simp only [hsame]

theorem repeats_append {met between left : List String}
    (hbetween : ∀ name, name ∈ between ↔ name ∈ met ∨ name ∈ left) (right : List String) :
    repeats met (left ++ right) = repeats met left ++ repeats between right := by
  induction left generalizing met with
  | nil =>
      apply repeats_congr
      simpa using fun name => (hbetween name).symm
  | cons name left ih =>
      rw [List.cons_append, repeats, repeats]
      split
      · rename_i hmet
        rw [List.cons_append, ih]
        intro known
        rw [hbetween, List.mem_cons, ← or_assoc]
        exact or_congr_left (or_iff_left_of_imp fun hname => hname ▸ hmet)
      · apply ih
        intro known
        rw [hbetween, List.mem_cons, List.mem_cons, or_assoc, or_left_comm]

namespace Expansion

/-! ## Every paragraph has a recursive expansion -/

theorem dormantWork_anti {visited after : List String} (hsubset : visited ⊆ after)
    (sections : List (String × Paragraph)) :
    dormantWork after sections ≤ dormantWork visited sections := by
  induction sections with
  | nil => exact Nat.le_refl _
  | cons entry rest ih =>
      obtain ⟨name, paragraph⟩ := entry
      simp only [dormantWork]
      by_cases hvisited : name ∈ visited
      · rw [if_pos hvisited, if_pos (hsubset hvisited)]
        omega
      · rw [if_neg hvisited]
        split <;> omega

/-- If paragraphs can be expanded while less than `bound` calls are dormant, so
can lists of paragraphs: the calls that are dormant become fewer from one
paragraph of the list to the next. -/
theorem exists_expandsAll_of_bound {bound : Nat}
    (hexpand : ∀ visited name, dormantWork visited graph.sections < bound →
      ∃ tree after, Expands graph visited name tree after)
    (names visited : List String) (hbound : dormantWork visited graph.sections < bound) :
    ∃ trees after, ExpandsAll graph visited names trees after := by
  induction names generalizing visited with
  | nil => exact ⟨[], visited, .nil⟩
  | cons name names ih =>
      obtain ⟨tree, between, hfirst⟩ := hexpand visited name hbound
      have hbetween : dormantWork between graph.sections < bound :=
        Nat.lt_of_le_of_lt (dormantWork_anti hfirst.visited_subset graph.sections) hbound
      obtain ⟨trees, after, hrest⟩ := ih between hbetween
      exact ⟨tree :: trees, after, .cons hfirst hrest⟩

/-- The recursion ends on every graph: a paragraph with calls is unfolded once,
and its calls are no longer dormant then. -/
theorem exists_expands (graph : CallGraph) (visited : List String) (name : String) :
    ∃ tree after, Expands graph visited name tree after := by
  induction hwork : dormantWork visited graph.sections using Nat.strongRecOn
    generalizing visited name with
  | _ work ih =>
      by_cases hvisited : name ∈ visited
      · exact ⟨_, visited, .truncate hvisited⟩
      have hchildren : ∃ children after,
          ExpandsAll graph (name :: visited) (graph.callsOf name) children after := by
        cases hcalls : graph.callsOf name with
        | nil => exact ⟨[], name :: visited, .nil⟩
        | cons call calls =>
            have hless : dormantWork (name :: visited) graph.sections < work := by
              have hvisit := dormantWork_visit graph hvisited
              rw [hcalls, List.length_cons] at hvisit
              omega
            exact exists_expandsAll_of_bound
              (fun visited name hless => ih _ hless visited name rfl) _ _ hless
      obtain ⟨children, after, hchildren⟩ := hchildren
      exact ⟨_, after, .unfold hvisited hchildren⟩

/-! ## The loop, one step at a time -/

theorem run_of_step_done {state : State} {expansion : Expansion}
    (hstep : step graph state = .done expansion) : run graph state = expansion := by
  rw [run]
  split
  · rename_i finished hfinished
    rw [hstep] at hfinished
    cases hfinished
    rfl
  · rename_i next hnext
    rw [hstep] at hnext
    cases hnext

theorem run_of_step_more {state next : State}
    (hstep : step graph state = .more next) : run graph state = run graph next := by
  rw [run]
  split
  · rename_i finished hfinished
    rw [hstep] at hfinished
    cases hfinished
  · rename_i successor hsuccessor
    rw [hstep] at hsuccessor
    cases hsuccessor
    rfl

section Steps

variable {name call : String} {unread : List String} {built : List CallTree}
variable {below : List Frame} {visited truncated : List String}

/-- A name that was visited becomes a leaf. -/
theorem run_truncate (hvisited : call ∈ visited) :
    run graph ⟨⟨name, call :: unread, built⟩, below, visited, truncated⟩ =
      run graph ⟨⟨name, unread, .leaf call (graph.usesSql call) :: built⟩, below, visited,
        call :: truncated⟩ := by
  apply run_of_step_more
  simp [step, Frame.add, hvisited]

/-- A new name is marked as visited and put on the stack. -/
theorem run_enter (hnew : call ∉ visited) :
    run graph ⟨⟨name, call :: unread, built⟩, below, visited, truncated⟩ =
      run graph ⟨⟨call, graph.callsOf call, []⟩, ⟨name, unread, built⟩ :: below,
        call :: visited, truncated⟩ := by
  apply run_of_step_more
  simp [step, enter, hnew]

/-- A paragraph whose calls are read becomes a child of the one below it. -/
theorem run_close {parent : String} {remaining : List String} {siblings : List CallTree} :
    run graph ⟨⟨name, [], built⟩, ⟨parent, remaining, siblings⟩ :: below, visited, truncated⟩ =
      run graph ⟨⟨parent, remaining, .node name (graph.usesSql name) built.reverse :: siblings⟩,
        below, visited, truncated⟩ :=
  run_of_step_more rfl

theorem run_finish :
    run graph ⟨⟨name, [], built⟩, [], visited, truncated⟩ =
      ⟨.node name (graph.usesSql name) built.reverse, visited, truncated.reverse⟩ :=
  run_of_step_done rfl

end Steps

/-! ## The loop follows the recursion -/

mutual

/-- When the next call of the top paragraph has a recursive expansion, the loop
comes to the state in which that tree has been added, whatever the stack is. -/
theorem run_of_expands {visited after : List String} {call : String} {tree : CallTree}
    (hexpands : Expands graph visited call tree after) (name : String) (unread : List String)
    (built : List CallTree) (below : List Frame) (truncated : List String) :
    run graph ⟨⟨name, call :: unread, built⟩, below, visited, truncated⟩ =
      run graph ⟨⟨name, unread, tree :: built⟩, below, after,
        (repeats visited tree.names).reverse ++ truncated⟩ := by
  cases hexpands with
  | truncate hvisited =>
      rw [run_truncate hvisited, leaf, names_node, namesAll_nil, repeats, if_pos hvisited]
      rfl
  | unfold hnew hchildren =>
      rw [run_enter hnew, run_of_expandsAll hchildren, run_close, names_node, repeats,
        if_neg hnew]
      simp

/-- The same for all unread calls of the top paragraph. -/
theorem run_of_expandsAll {visited names after : List String} {trees : List CallTree}
    (hexpands : ExpandsAll graph visited names trees after) (name : String)
    (built : List CallTree) (below : List Frame) (truncated : List String) :
    run graph ⟨⟨name, names, built⟩, below, visited, truncated⟩ =
      run graph ⟨⟨name, [], trees.reverse ++ built⟩, below, after,
        (repeats visited (namesAll trees)).reverse ++ truncated⟩ := by
  cases hexpands with
  | nil => rfl
  | cons hfirst hrest =>
      rw [run_of_expands hfirst, run_of_expandsAll hrest, namesAll_cons,
        repeats_append fun _ => hfirst.mem_after_iff_mem_names]
      simp

end

/-- All that comes out of the loop. -/
theorem expand_eq_of_expands {visited after : List String} {start : String} {tree : CallTree}
    (hexpands : Expands graph visited start tree after) :
    expand graph start visited = ⟨tree, after, repeats visited tree.names⟩ := by
  cases hexpands with
  | truncate hvisited => simp [expand, hvisited, leaf, repeats]
  | unfold hnew hchildren =>
      have hexpand : expand graph start visited =
          run graph ⟨⟨start, graph.callsOf start, []⟩, [], start :: visited, []⟩ := by
        simp only [expand, hnew, if_false, initial, enter]
      rw [hexpand, run_of_expandsAll hchildren, run_finish, names_node, repeats, if_neg hnew]
      simp

theorem expand_of_expands {visited after : List String} {start : String} {tree : CallTree}
    (hexpands : Expands graph visited start tree after) :
    (expand graph start visited).tree = tree ∧ (expand graph start visited).visited = after := by
  rw [expand_eq_of_expands hexpands]
  exact ⟨rfl, rfl⟩

/-- What the loop returns has a recursive derivation. -/
theorem expands_expand (graph : CallGraph) (start : String) (visited : List String) :
    Expands graph visited start (expand graph start visited).tree
      (expand graph start visited).visited := by
  obtain ⟨tree, after, hexpands⟩ := exists_expands graph visited start
  obtain ⟨htree, hafter⟩ := expand_of_expands hexpands
  rw [htree, hafter]
  exact hexpands

/-- The names that are met again are those that occur again in the tree. -/
theorem truncated_expand (graph : CallGraph) (start : String) (visited : List String) :
    (expand graph start visited).truncated =
      repeats visited (expand graph start visited).tree.names := by
  have hexpand := expand_eq_of_expands (expands_expand graph start visited)
  exact congrArg Expansion.truncated hexpand

/-- The loop and the recursion agree on every graph, every start and every
record of visited names: a tree and a record come out of the recursion if and
only if they come out of the loop. -/
theorem expands_iff_expand (graph : CallGraph) (start : String) (visited after : List String)
    (tree : CallTree) :
    Expands graph visited start tree after ↔
      (expand graph start visited).tree = tree ∧
        (expand graph start visited).visited = after := by
  constructor
  · exact expand_of_expands
  · rintro ⟨rfl, rfl⟩
    exact expands_expand graph start visited

end Expansion

end SqlReach
