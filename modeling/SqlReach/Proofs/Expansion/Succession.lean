import SqlReach.Proofs.Analysis.Arrangement
import SqlReach.Proofs.Expansion.Occurrences

/-!
# Expansions that share their visited names

Several paragraphs can be expanded one after the other with one record of visited
names, so that each of them finds visited what the ones before it left.  What stands in
a single tree depends on its place in the row.  This module shows what does not: the
trees are the children of one expansion, from a paragraph that calls all the starts, and
whatever is covered by all of them together is the same in every order.
-/

namespace SqlReach

/-- What comes of expanding several paragraphs: their trees, and the names visited in
the end. -/
structure Succession where
  trees : List CallTree
  visited : List String

/-- Expands the starts from left to right with one record of visited names. -/
def expandInTurn (graph : CallGraph) : List String → List String → Succession
  | [], visited => ⟨[], visited⟩
  | start :: starts, visited =>
      let first := expand graph start visited
      let later := expandInTurn graph starts first.visited
      ⟨first.tree :: later.trees, later.visited⟩

variable {graph : CallGraph}

/-- Expanding in turn is what the recursion does with the calls of a paragraph. -/
theorem expandsAll_expandInTurn (graph : CallGraph) (starts visited : List String) :
    ExpandsAll graph visited starts (expandInTurn graph starts visited).trees
      (expandInTurn graph starts visited).visited := by
  induction starts generalizing visited with
  | nil => exact .nil
  | cons start starts ih =>
      exact .cons (Expansion.expands_expand graph start visited) (ih _)

/-! ## One expansion with all of them as children -/

mutual

/-- A visited name that is out of reach is never met, so it changes no tree and stays
the only difference. -/
theorem Expands.of_unreached {visited wider after : List String} {name added : String}
    {tree : CallTree} (hexpands : Expands graph visited name tree after)
    (hadded : ¬ graph.Reaches name added)
    (hwider : ∀ known, known ∈ wider ↔ known = added ∨ known ∈ visited) :
    ∃ final, Expands graph wider name tree final ∧
      ∀ known, known ∈ final ↔ known = added ∨ known ∈ after := by
  cases hexpands with
  | truncate hvisited =>
      have hknown : name ∈ wider := (hwider name).mpr (Or.inr hvisited)
      exact ⟨wider, .truncate hknown, hwider⟩
  | unfold hnew hchildren =>
      have hname : name ≠ added := by
        intro hsame
        exact hadded (hsame ▸ .refl)
      have hnewInWider : name ∉ wider := by
        intro hknown
        exact ((hwider name).mp hknown).elim hname hnew
      have hcalls : ∀ call ∈ graph.callsOf name, ¬ graph.Reaches call added := by
        intro call hcall hreaches
        exact hadded (.of_call hcall hreaches)
      have hwiderThen : ∀ known,
          known ∈ name :: wider ↔ known = added ∨ known ∈ name :: visited := by
        intro known
        rw [List.mem_cons, List.mem_cons, hwider]
        exact or_left_comm
      obtain ⟨final, hfinal, hmem⟩ := hchildren.of_unreached hcalls hwiderThen
      exact ⟨final, .unfold hnewInWider hfinal, hmem⟩

theorem ExpandsAll.of_unreached {visited wider names after : List String} {added : String}
    {trees : List CallTree} (hexpands : ExpandsAll graph visited names trees after)
    (hadded : ∀ name ∈ names, ¬ graph.Reaches name added)
    (hwider : ∀ known, known ∈ wider ↔ known = added ∨ known ∈ visited) :
    ∃ final, ExpandsAll graph wider names trees final ∧
      ∀ known, known ∈ final ↔ known = added ∨ known ∈ after := by
  cases hexpands with
  | nil => exact ⟨wider, .nil, hwider⟩
  | cons hfirst hrest =>
      obtain ⟨hname, hnames⟩ := List.forall_mem_cons.mp hadded
      obtain ⟨between, hbetween, hmem⟩ := hfirst.of_unreached hname hwider
      obtain ⟨final, hfinal, hmemFinal⟩ := hrest.of_unreached hnames hmem
      exact ⟨final, .cons hbetween hfinal, hmemFinal⟩

end

namespace CallGraph

/-- A name that is neither visited nor a start and that nothing calls.  Whether it has a
paragraph of its own does not matter, since no start could reach it. -/
structure IsFresh (graph : CallGraph) (starts visited : List String) (name : String) : Prop where
  not_visited : name ∉ visited
  not_start : name ∉ starts
  not_called : ∀ caller, name ∉ graph.callsOf caller

/-- The graph with a paragraph on top that calls the given names. -/
def withRoot (graph : CallGraph) (root : String) (starts : List String) (usesSql : Bool) :
    CallGraph :=
  graph.put root { name := root, calls := starts, usesSql }

variable {starts visited : List String} {root : String}

theorem find?_withRoot (graph : CallGraph) (root : String) (starts : List String)
    (usesSql : Bool) (name : String) :
    (graph.withRoot root starts usesSql).find? name =
      if name = root then some { name := root, calls := starts, usesSql }
      else graph.find? name :=
  Register.lookup_put root name _ graph.sections

theorem callsOf_withRoot (graph : CallGraph) (root : String) (starts : List String)
    (usesSql : Bool) : (graph.withRoot root starts usesSql).callsOf root = starts := by
  rw [callsOf, find?_withRoot, if_pos rfl]

theorem usesSql_withRoot (graph : CallGraph) (root : String) (starts : List String)
    (usesSql : Bool) : (graph.withRoot root starts usesSql).usesSql root = usesSql := by
  rw [CallGraph.usesSql, find?_withRoot, if_pos rfl]

/-- A name that nothing calls is reached from itself alone. -/
theorem IsFresh.ne_of_reaches (hfresh : graph.IsFresh starts visited root) {start name : String}
    (hstart : start ∈ starts) (hreaches : graph.Reaches start name) : name ≠ root := by
  rintro rfl
  cases hreaches with
  | refl => exact hfresh.not_start hstart
  | step reached called => exact hfresh.not_called _ called

/-- The new paragraph is out of reach of the starts, so they see no difference. -/
theorem IsFresh.agreesFrom (hfresh : graph.IsFresh starts visited root) {start : String}
    (hstart : start ∈ starts) (usesSql : Bool) :
    graph.AgreesFrom (graph.withRoot root starts usesSql) start := by
  have hfind : ∀ name, graph.Reaches start name →
      graph.find? name = (graph.withRoot root starts usesSql).find? name := by
    intro name hreaches
    rw [find?_withRoot, if_neg (hfresh.ne_of_reaches hstart hreaches)]
  constructor
  · intro name hreaches
    rw [callsOf, callsOf, hfind name hreaches]
  · intro name hreaches
    rw [CallGraph.usesSql, CallGraph.usesSql, hfind name hreaches]

end CallGraph

/-- Only what the starts reach is visited besides what was visited before. -/
theorem CallGraph.IsFresh.not_mem_after {visited starts after : List String} {root : String}
    {trees : List CallTree} (hfresh : graph.IsFresh starts visited root)
    (hexpands : ExpandsAll graph visited starts trees after) : root ∉ after := by
  intro hroot
  rcases hexpands.mem_visited_or_reaches hroot with hvisited | ⟨start, hstart, hreaches⟩
  · exact hfresh.not_visited hvisited
  · have hreachesRoot : graph.Reaches start root :=
      CallGraph.reachesAvoiding_nil.mp (hreaches.of_subset (List.nil_subset visited))
    exact hfresh.ne_of_reaches hstart hreachesRoot rfl

/-- Expanding the starts in turn gives the children, in their order, of the expansion of
one paragraph that calls them all.  The names visited in the end are the same but for
that paragraph. -/
theorem expandInTurn_eq_children (graph : CallGraph) (starts visited : List String)
    (root : String) (usesSql : Bool) (hfresh : graph.IsFresh starts visited root) :
    let parts := expandInTurn graph starts visited
    let whole := expand (graph.withRoot root starts usesSql) root visited
    whole.tree = .node root usesSql parts.trees ∧
      (∀ name, name ∈ whole.visited ↔ name = root ∨ name ∈ parts.visited) ∧
      root ∉ parts.visited := by
  intro parts whole
  have hparts : ExpandsAll graph visited starts parts.trees parts.visited :=
    expandsAll_expandInTurn graph starts visited
  have hunreached : ∀ start ∈ starts, ¬ graph.Reaches start root := by
    intro start hstart hreaches
    exact hfresh.ne_of_reaches hstart hreaches rfl
  obtain ⟨final, hfinal, hmem⟩ := hparts.of_unreached hunreached fun known => List.mem_cons
  have hchildren : ExpandsAll (graph.withRoot root starts usesSql) (root :: visited)
      ((graph.withRoot root starts usesSql).callsOf root) parts.trees final := by
    rw [graph.callsOf_withRoot]
    exact hfinal.of_agreesFrom fun start hstart => hfresh.agreesFrom hstart usesSql
  have hroot := Expands.unfold hfresh.not_visited hchildren
  rw [graph.usesSql_withRoot] at hroot
  obtain ⟨htree, hvisited⟩ := Expansion.expand_of_expands hroot
  refine ⟨htree, ?_, hfresh.not_mem_after hparts⟩
  intro name
  rw [hvisited, hmem]

/-- Two starts that call each other, one of them given twice, around a name that counts
as visited. -/
theorem expandInTurn_eq_children_loop :
    let graph : CallGraph := ⟨[("100-A", ⟨"100-A", ["200-B", "300-C"], true⟩),
      ("200-B", ⟨"200-B", ["100-A"], false⟩)]⟩
    let starts := ["200-B", "100-A", "200-B"]
    let parts := expandInTurn graph starts ["300-C"]
    graph.IsFresh starts ["300-C"] "000-ROOT" ∧
      (expand (graph.withRoot "000-ROOT" starts true) "000-ROOT" ["300-C"]).tree =
        .node "000-ROOT" true parts.trees ∧
      parts.trees.map CallTree.names = [["200-B", "100-A", "200-B", "300-C"], ["100-A"],
        ["200-B"]] := by
  intro graph starts parts
  have hcalls : ∀ caller, "000-ROOT" ∉ graph.callsOf caller := by
    intro caller
    by_cases hfirst : caller = "100-A"
    · subst hfirst
      decide
    by_cases hsecond : caller = "200-B"
    · subst hsecond
      decide
    have hnone : graph.callsOf caller = [] := by
      simp [graph, CallGraph.callsOf, CallGraph.find?, List.lookup_cons, beq_false_of_ne hfirst,
        beq_false_of_ne hsecond]
    rw [hnone]
    exact List.not_mem_nil
  have hfresh : graph.IsFresh starts ["300-C"] "000-ROOT" := ⟨by decide, by decide, hcalls⟩
  obtain ⟨htree, -⟩ := expandInTurn_eq_children graph starts ["300-C"] "000-ROOT" true hfresh
  exact ⟨hfresh, htree, by decide +kernel⟩

/-! ## The order of the starts -/

/-- All that the starts cover together: what they reach around the names visited before. -/
theorem ExpandsAll.mem_after_iff {visited names after : List String} {trees : List CallTree}
    (hexpands : ExpandsAll graph visited names trees after) {target : String} :
    target ∈ after ↔
      target ∈ visited ∨ ∃ name ∈ names, graph.ReachesAvoiding visited name target := by
  constructor
  · exact hexpands.mem_visited_or_reaches
  · rintro (hknown | ⟨name, hname, hreaches⟩)
    · exact hexpands.visited_subset hknown
    · induction hreaches with
      | refl hnew => exact hexpands.names_subset hname
      | step reached called hcallee ih =>
          exact hexpands.calls_mem ih reached.target_not_mem called

/-- One of the trees holds SQL if and only if a paragraph named in one of them does. -/
theorem ExpandsAll.any_containsSql_iff {visited names after : List String}
    {trees : List CallTree} (hexpands : ExpandsAll graph visited names trees after) :
    trees.any CallTree.containsSql = true ↔
      ∃ target ∈ CallTree.namesAll trees, graph.usesSql target = true := by
  have hflagged : trees.any CallTree.containsSql = true ↔
      ∃ found ∈ CallTree.nodesAll trees, found.usesSql = true := by
    simp only [List.any_eq_true, CallTree.containsSql_iff, CallTree.mem_nodesAll]
    grind
  rw [hflagged, CallTree.namesAll]
  constructor
  · rintro ⟨found, hfound, hsql⟩
    rw [hexpands.usesSql_eq hfound] at hsql
    exact ⟨found.name, List.mem_map_of_mem hfound, hsql⟩
  · rintro ⟨target, htarget, hsql⟩
    obtain ⟨found, hfound, rfl⟩ := List.mem_map.mp htarget
    rw [← hexpands.usesSql_eq hfound] at hsql
    exact ⟨found, hfound, hsql⟩

/-- Whatever the starts cover together does not depend on their order: neither the names
visited in the end, nor how many nodes the trees have in all, nor which names occur in
them, nor whether one of them holds SQL. -/
theorem expandInTurn_covers_perm (graph : CallGraph) (visited : List String)
    (starts others : List String) (hperm : starts.Perm others) :
    let first := expandInTurn graph starts visited
    let second := expandInTurn graph others visited
    (∀ name, name ∈ first.visited ↔ name ∈ second.visited) ∧
      (CallTree.nodesAll first.trees).length = (CallTree.nodesAll second.trees).length ∧
      (∀ name, name ∈ CallTree.namesAll first.trees ↔ name ∈ CallTree.namesAll second.trees) ∧
      first.trees.any CallTree.containsSql = second.trees.any CallTree.containsSql := by
  intro first second
  have hfirst : ExpandsAll graph visited starts first.trees first.visited :=
    expandsAll_expandInTurn graph starts visited
  have hsecond : ExpandsAll graph visited others second.trees second.visited :=
    expandsAll_expandInTurn graph others visited
  have hvisited : ∀ name, name ∈ first.visited ↔ name ∈ second.visited := by
    intro name
    simp only [hfirst.mem_after_iff, hsecond.mem_after_iff, hperm.mem_iff]
  have hnames : ∀ name,
      name ∈ CallTree.namesAll first.trees ↔ name ∈ CallTree.namesAll second.trees := by
    intro name
    simp only [hfirst.mem_namesAll_iff, hsecond.mem_namesAll_iff, hperm.mem_iff, hvisited]
  refine ⟨hvisited, ?_, hnames, ?_⟩
  · have hnew : first.visited.toFinset = second.visited.toFinset := by
      ext name
      rw [List.mem_toFinset, List.mem_toFinset, hvisited]
    calc
      (CallTree.nodesAll first.trees).length = CallTree.sizeAll first.trees :=
        CallTree.length_nodesAll first.trees
      _ = starts.length + graph.callCount (first.visited.toFinset \ visited.toFinset) :=
        hfirst.sizeAll_eq
      _ = others.length + graph.callCount (second.visited.toFinset \ visited.toFinset) := by
        rw [hperm.length_eq, hnew]
      _ = CallTree.sizeAll second.trees := hsecond.sizeAll_eq.symm
      _ = (CallTree.nodesAll second.trees).length :=
        (CallTree.length_nodesAll second.trees).symm
  · rw [Bool.eq_iff_iff, hfirst.any_containsSql_iff, hsecond.any_containsSql_iff]
    simp only [hnames]

/-- Starts whose trees do change with the order: the first one unfolds what both reach. -/
theorem expandInTurn_covers_perm_swapped :
    let graph : CallGraph := ⟨[("100-A", ⟨"100-A", ["200-B"], false⟩),
      ("200-B", ⟨"200-B", ["100-A", "300-C"], false⟩)]⟩
    let first := expandInTurn graph ["100-A", "200-B"] []
    let second := expandInTurn graph ["200-B", "100-A"] []
    (["100-A", "200-B"].Perm ["200-B", "100-A"]) ∧
      first.trees.map CallTree.names = [["100-A", "200-B", "100-A", "300-C"], ["200-B"]] ∧
      second.trees.map CallTree.names = [["200-B", "100-A", "200-B", "300-C"], ["100-A"]] ∧
      (CallTree.nodesAll first.trees).length = (CallTree.nodesAll second.trees).length := by
  intro graph first second
  have hperm : ["100-A", "200-B"].Perm ["200-B", "100-A"] := List.Perm.swap _ _ _
  obtain ⟨-, hnodes, -⟩ := expandInTurn_covers_perm graph [] _ _ hperm
  exact ⟨hperm, by decide +kernel, by decide +kernel, hnodes⟩

end SqlReach
