import SqlReach.Proofs.Expansion.Coverage

/-!
# Expansion around names visited before

Whoever asks for an expansion can say which names count as visited.  Such a name is
never unfolded, though it still stands in the tree wherever it is called.  So the
expansion is a search of the call graph around these names: this module describes
what it visits, what stands in its tree and what its verdict means by the paths of
calls on which none of them lies.
-/

namespace SqlReach

namespace CallGraph

variable {graph : CallGraph}

/-- A path of calls from `start` to `target` on which no name is avoided, neither end
excepted. -/
structure IsPathAround (graph : CallGraph) (avoided : List String) (start target : String)
    (path : List String) : Prop where
  chain : graph.IsCallChain path
  head_eq : path.head? = some start
  last_eq : path.getLast? = some target
  avoids : ∀ name ∈ path, name ∉ avoided

theorem reachesAvoiding_iff_exists_path {avoided : List String} {start target : String} :
    graph.ReachesAvoiding avoided start target ↔
      ∃ path, graph.IsPathAround avoided start target path := by
  constructor
  · intro hreaches
    obtain ⟨path, hchain, hhead, hlast, havoids⟩ := hreaches.exists_path
    exact ⟨path, hchain, hhead, hlast, havoids⟩
  · rintro ⟨path, hpath⟩
    exact hpath.chain.reachesAvoiding hpath.head_eq hpath.last_eq hpath.avoids

/-- The start, or a name that is called at the end of a path around the avoided ones. -/
def IsCalledAround (graph : CallGraph) (avoided : List String) (start target : String) : Prop :=
  target = start ∨
    ∃ caller path, graph.IsPathAround avoided start caller path ∧ target ∈ graph.callsOf caller

end CallGraph

variable {graph : CallGraph}

theorem Expands.mem_after_iff_exists_path {visited after : List String} {start : String}
    {tree : CallTree} (hexpands : Expands graph visited start tree after) {target : String} :
    target ∈ after ↔
      target ∈ visited ∨ ∃ path, graph.IsPathAround visited start target path := by
  rw [hexpands.mem_after_iff, CallGraph.reachesAvoiding_iff_exists_path]

/-- The callers in the tree are the names that are newly visited, and these are the
ends of the paths. -/
theorem Expands.mem_names_iff_isCalledAround {visited after : List String} {start : String}
    {tree : CallTree} (hexpands : Expands graph visited start tree after) {target : String} :
    target ∈ tree.names ↔ graph.IsCalledAround visited start target := by
  rw [hexpands.mem_names_iff, CallGraph.IsCalledAround]
  apply or_congr_right
  constructor
  · rintro ⟨caller, hcaller, hnew, hcalled⟩
    rcases hexpands.mem_after_iff_exists_path.mp hcaller with hknown | ⟨path, hpath⟩
    · exact absurd hknown hnew
    · exact ⟨caller, path, hpath, hcalled⟩
  · rintro ⟨caller, path, hpath, hcalled⟩
    refine ⟨caller, hexpands.mem_after_iff_exists_path.mpr (Or.inr ⟨path, hpath⟩), ?_, hcalled⟩
    exact hpath.avoids caller (List.mem_of_getLast? hpath.last_eq)

/-- From a start that is new, an expansion visits exactly the ends of the paths around
the names visited before, besides those names themselves.  Its tree holds the start and
whatever is called at such an end, and its verdict is positive if and only if one of
these names uses SQL.  From a start that was visited nothing is visited, and the tree
is a single leaf. -/
theorem expand_covers_paths_around (graph : CallGraph) (start : String)
    (visited : List String) :
    (start ∉ visited →
      (∀ name, name ∈ (expand graph start visited).visited ↔
        name ∈ visited ∨ ∃ path, graph.IsPathAround visited start name path) ∧
      (∀ name, name ∈ (expand graph start visited).tree.names ↔
        graph.IsCalledAround visited start name) ∧
      ((expand graph start visited).tree.containsSql = true ↔
        ∃ name, graph.IsCalledAround visited start name ∧ graph.usesSql name = true)) ∧
    (start ∈ visited →
      (expand graph start visited).visited = visited ∧
        (expand graph start visited).tree = .leaf start (graph.usesSql start)) := by
  have hexpands := Expansion.expands_expand graph start visited
  constructor
  · intro _
    refine ⟨fun name => hexpands.mem_after_iff_exists_path,
      fun name => hexpands.mem_names_iff_isCalledAround, ?_⟩
    rw [hexpands.containsSql_iff]
    simp only [hexpands.mem_names_iff_isCalledAround]
  · intro hvisited
    rw [expand, if_pos hvisited]
    exact ⟨rfl, rfl⟩

end SqlReach
