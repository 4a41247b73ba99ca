import Mathlib.Data.List.Chain
import SqlReach.Proofs.CallTree.Nodes
import SqlReach.Proofs.Expansion.Recursion

/-!
# What an expansion covers

A name that is met again becomes a leaf, so most of the names of a call tree
stand there without their calls.  Nothing is lost by that: an expansion visits
exactly the names that can be reached without passing through a name visited
before, the calls of every name it visits are visited too, and the names of its
tree are the start and the calls of the names it visits.
-/

namespace SqlReach

variable {graph : CallGraph}

namespace CallGraph

/-- `graph.ReachesAvoiding avoided start target` says that a chain of calls leads
from `start` to `target` on which no name is avoided, neither end excepted. -/
inductive ReachesAvoiding (graph : CallGraph) (avoided : List String) (start : String) :
    String → Prop
  | refl (hstart : start ∉ avoided) : ReachesAvoiding graph avoided start start
  | step {caller callee : String} (reached : ReachesAvoiding graph avoided start caller)
      (called : callee ∈ graph.callsOf caller) (hcallee : callee ∉ avoided) :
      ReachesAvoiding graph avoided start callee

theorem ReachesAvoiding.of_subset {avoided fewer : List String} {start target : String}
    (hsubset : fewer ⊆ avoided) (hreaches : graph.ReachesAvoiding avoided start target) :
    graph.ReachesAvoiding fewer start target := by
  induction hreaches with
  | refl hstart => exact .refl fun hmem => hstart (hsubset hmem)
  | step reached called hcallee ih => exact .step ih called fun hmem => hcallee (hsubset hmem)

/-- A chain can be extended at its front. -/
theorem ReachesAvoiding.of_call {avoided : List String} {start next target : String}
    (hstart : start ∉ avoided) (hcalled : next ∈ graph.callsOf start)
    (hreaches : graph.ReachesAvoiding avoided next target) :
    graph.ReachesAvoiding avoided start target := by
  induction hreaches with
  | refl hnext => exact .step (.refl hstart) hcalled hnext
  | step reached called hcallee ih => exact .step ih called hcallee

theorem ReachesAvoiding.target_not_mem {avoided : List String} {start target : String}
    (hreaches : graph.ReachesAvoiding avoided start target) : target ∉ avoided := by
  cases hreaches with
  | refl hstart => exact hstart
  | step reached called hcallee => exact hcallee

/-- A chain of calls written out: every name is called by the one before it. -/
def IsCallChain (graph : CallGraph) (path : List String) : Prop :=
  path.IsChain fun caller callee => callee ∈ graph.callsOf caller

theorem ReachesAvoiding.exists_path {avoided : List String} {start target : String}
    (hreaches : graph.ReachesAvoiding avoided start target) :
    ∃ path, graph.IsCallChain path ∧ path.head? = some start ∧ path.getLast? = some target ∧
      ∀ name ∈ path, name ∉ avoided := by
  induction hreaches with
  | refl hstart => exact ⟨[start], List.isChain_singleton start, rfl, rfl, by simpa using hstart⟩
  | step reached called hcallee ih =>
      rename_i caller callee
      obtain ⟨path, hchain, hhead, hlast, havoids⟩ := ih
      refine ⟨path ++ [callee], ?_, ?_, List.getLast?_concat, ?_⟩
      · apply hchain.append (List.isChain_singleton callee)
        simpa [hlast] using called
      · rw [List.head?_append, hhead]
        rfl
      · intro name hname
        rcases List.mem_append.mp hname with hearlier | hlater
        · exact havoids name hearlier
        · rwa [List.mem_singleton.mp hlater]

theorem IsCallChain.reachesAvoiding {path : List String} (hchain : graph.IsCallChain path)
    {avoided : List String} {start target : String} (hhead : path.head? = some start)
    (hlast : path.getLast? = some target) (havoids : ∀ name ∈ path, name ∉ avoided) :
    graph.ReachesAvoiding avoided start target := by
  induction path generalizing start with
  | nil => cases hhead
  | cons first rest ih =>
      obtain rfl : first = start := by simpa using hhead
      obtain ⟨hfirst, hrest⟩ := List.forall_mem_cons.mp havoids
      cases rest with
      | nil =>
          obtain rfl : first = target := by simpa using hlast
          exact .refl hfirst
      | cons second rest =>
          have hcalled : second ∈ graph.callsOf first := List.IsChain.rel hchain
          rw [List.getLast?_cons_cons] at hlast
          exact .of_call hfirst hcalled (ih (List.IsChain.tail hchain) rfl hlast hrest)

theorem reachesAvoiding_nil {start target : String} :
    graph.ReachesAvoiding [] start target ↔ graph.Reaches start target := by
  constructor
  · intro hreaches
    induction hreaches with
    | refl hstart => exact .refl
    | step reached called hcallee ih => exact .step ih called
  · intro hreaches
    induction hreaches with
    | refl => exact .refl List.not_mem_nil
    | step reached called ih => exact .step ih called List.not_mem_nil

end CallGraph

/-! ## The names left visited -/

theorem Expands.name_mem {visited after : List String} {name : String} {tree : CallTree}
    (hexpands : Expands graph visited name tree after) : name ∈ after := by
  cases hexpands with
  | truncate hvisited => exact hvisited
  | unfold hnew hchildren => exact hchildren.visited_subset List.mem_cons_self

theorem ExpandsAll.names_subset {visited names after : List String} {trees : List CallTree}
    (hexpands : ExpandsAll graph visited names trees after) : names ⊆ after := by
  induction names generalizing visited trees with
  | nil => exact List.nil_subset after
  | cons name names ih =>
      cases hexpands with
      | cons hfirst hrest =>
          exact List.cons_subset.mpr ⟨hrest.visited_subset hfirst.name_mem, ih hrest⟩

mutual

/-- Whatever a newly visited name calls is visited in the end. -/
theorem Expands.calls_mem {visited after : List String} {name : String} {tree : CallTree}
    (hexpands : Expands graph visited name tree after) {caller callee : String}
    (hcaller : caller ∈ after) (hnew : caller ∉ visited)
    (hcalled : callee ∈ graph.callsOf caller) : callee ∈ after := by
  cases hexpands with
  | truncate hvisited => exact absurd hcaller hnew
  | unfold hunvisited hchildren =>
      by_cases hname : caller = name
      · subst hname
        exact hchildren.names_subset hcalled
      · have houtside : caller ∉ name :: visited := by
          simp [hname, hnew]
        exact hchildren.calls_mem hcaller houtside hcalled

theorem ExpandsAll.calls_mem {visited names after : List String} {trees : List CallTree}
    (hexpands : ExpandsAll graph visited names trees after) {caller callee : String}
    (hcaller : caller ∈ after) (hnew : caller ∉ visited)
    (hcalled : callee ∈ graph.callsOf caller) : callee ∈ after := by
  cases hexpands with
  | nil => exact absurd hcaller hnew
  | cons hfirst hrest =>
      rename_i between _ _ _ _
      -- The caller was visited either while the first tree was built or later.
      by_cases hbetween : caller ∈ between
      · exact hrest.visited_subset (hfirst.calls_mem hbetween hnew hcalled)
      · exact hrest.calls_mem hcaller hbetween hcalled

end

mutual

theorem Expands.mem_visited_or_reaches {visited after : List String} {name : String}
    {tree : CallTree} (hexpands : Expands graph visited name tree after) {target : String}
    (htarget : target ∈ after) :
    target ∈ visited ∨ graph.ReachesAvoiding visited name target := by
  cases hexpands with
  | truncate hvisited => exact Or.inl htarget
  | unfold hnew hchildren =>
      rcases hchildren.mem_visited_or_reaches htarget with hknown | ⟨call, hcall, hreaches⟩
      · rcases List.mem_cons.mp hknown with rfl | hknown
        · exact Or.inr (.refl hnew)
        · exact Or.inl hknown
      · right
        exact .of_call hnew hcall (hreaches.of_subset (List.subset_cons_self name visited))

theorem ExpandsAll.mem_visited_or_reaches {visited names after : List String}
    {trees : List CallTree} (hexpands : ExpandsAll graph visited names trees after)
    {target : String} (htarget : target ∈ after) :
    target ∈ visited ∨ ∃ name ∈ names, graph.ReachesAvoiding visited name target := by
  cases hexpands with
  | nil => exact Or.inl htarget
  | cons hfirst hrest =>
      rcases hrest.mem_visited_or_reaches htarget with hbetween | ⟨name, hname, hreaches⟩
      · rcases hfirst.mem_visited_or_reaches hbetween with hknown | hreaches
        · exact Or.inl hknown
        · exact Or.inr ⟨_, List.mem_cons_self, hreaches⟩
      · exact Or.inr ⟨name, List.mem_cons_of_mem _ hname,
          hreaches.of_subset hfirst.visited_subset⟩

end

/-- An expansion adds exactly the names that can be reached around the names
visited before. -/
theorem Expands.mem_after_iff {visited after : List String} {name : String} {tree : CallTree}
    (hexpands : Expands graph visited name tree after) {target : String} :
    target ∈ after ↔ target ∈ visited ∨ graph.ReachesAvoiding visited name target := by
  constructor
  · exact hexpands.mem_visited_or_reaches
  · rintro (hknown | hreaches)
    · exact hexpands.visited_subset hknown
    · induction hreaches with
      | refl hstart => exact hexpands.name_mem
      | step reached called hcallee ih =>
          exact hexpands.calls_mem ih reached.target_not_mem called

/-! ## The names in the tree -/

mutual

/-- Every call of a newly visited name has a node, and apart from the root every
node stands for such a call. -/
theorem Expands.mem_names_iff {visited after : List String} {name : String} {tree : CallTree}
    (hexpands : Expands graph visited name tree after) {target : String} :
    target ∈ tree.names ↔
      target = name ∨ ∃ caller ∈ after, caller ∉ visited ∧ target ∈ graph.callsOf caller := by
  cases hexpands with
  | truncate hvisited =>
      simp only [CallTree.leaf, CallTree.names_node, CallTree.namesAll_nil, List.mem_singleton]
      grind
  | unfold hnew hchildren =>
      have hname : name ∈ after := hchildren.visited_subset List.mem_cons_self
      rw [CallTree.names_node, List.mem_cons, hchildren.mem_namesAll_iff]
      grind

theorem ExpandsAll.mem_namesAll_iff {visited names after : List String} {trees : List CallTree}
    (hexpands : ExpandsAll graph visited names trees after) {target : String} :
    target ∈ CallTree.namesAll trees ↔
      target ∈ names ∨ ∃ caller ∈ after, caller ∉ visited ∧ target ∈ graph.callsOf caller := by
  cases hexpands with
  | nil =>
      rw [CallTree.namesAll_nil]
      grind
  | cons hfirst hrest =>
      have hgrown := hfirst.visited_subset
      have hkept := hrest.visited_subset
      rw [CallTree.namesAll_cons, List.mem_append, hfirst.mem_names_iff,
        hrest.mem_namesAll_iff]
      grind

end

/-! ## The edges in the tree -/

theorem Expands.name_eq {visited after : List String} {name : String} {tree : CallTree}
    (hexpands : Expands graph visited name tree after) : tree.name = name := by
  cases hexpands with
  | truncate hvisited => rfl
  | unfold hnew hchildren => rfl

theorem ExpandsAll.map_name {visited names after : List String} {trees : List CallTree}
    (hexpands : ExpandsAll graph visited names trees after) :
    trees.map CallTree.name = names := by
  induction names generalizing visited trees with
  | nil =>
      cases hexpands
      rfl
  | cons name names ih =>
      cases hexpands with
      | cons hfirst hrest => rw [List.map_cons, hfirst.name_eq, ih hrest]

mutual

/-- The edges in the tree are the calls of the names that are newly visited.  Each
of these names is unfolded somewhere, however often it is cut short. -/
theorem Expands.hasEdge_iff {visited after : List String} {name : String} {tree : CallTree}
    (hexpands : Expands graph visited name tree after) {caller callee : String} :
    tree.HasEdge caller callee ↔
      caller ∈ after ∧ caller ∉ visited ∧ callee ∈ graph.callsOf caller := by
  cases hexpands with
  | truncate hvisited =>
      rw [CallTree.leaf, CallTree.hasEdge_node]
      have hnone := CallTree.not_hasEdgeAll_nil caller callee
      grind
  | unfold hnew hchildren =>
      have hname : name ∈ after := hchildren.visited_subset List.mem_cons_self
      rw [CallTree.hasEdge_node, hchildren.map_name, hchildren.hasEdgeAll_iff]
      grind

theorem ExpandsAll.hasEdgeAll_iff {visited names after : List String} {trees : List CallTree}
    (hexpands : ExpandsAll graph visited names trees after) {caller callee : String} :
    CallTree.HasEdgeAll trees caller callee ↔
      caller ∈ after ∧ caller ∉ visited ∧ callee ∈ graph.callsOf caller := by
  cases hexpands with
  | nil =>
      have hnone := CallTree.not_hasEdgeAll_nil caller callee
      grind
  | cons hfirst hrest =>
      have hgrown := hfirst.visited_subset
      have hkept := hrest.visited_subset
      rw [CallTree.hasEdgeAll_cons, hfirst.hasEdge_iff, hrest.hasEdgeAll_iff]
      grind

end

mutual

/-- A node carries the flag of the paragraph it is named after, whether it was
unfolded or cut short. -/
theorem Expands.usesSql_eq {visited after : List String} {name : String} {tree : CallTree}
    (hexpands : Expands graph visited name tree after) {found : CallTree}
    (hfound : found ∈ tree.nodes) : found.usesSql = graph.usesSql found.name := by
  cases hexpands with
  | truncate hvisited =>
      rw [CallTree.leaf, CallTree.nodes, CallTree.nodesAll, List.mem_singleton] at hfound
      subst hfound
      rfl
  | unfold hnew hchildren =>
      rw [CallTree.nodes, List.mem_cons] at hfound
      rcases hfound with rfl | hfound
      · rfl
      · exact hchildren.usesSql_eq hfound

theorem ExpandsAll.usesSql_eq {visited names after : List String} {trees : List CallTree}
    (hexpands : ExpandsAll graph visited names trees after) {found : CallTree}
    (hfound : found ∈ CallTree.nodesAll trees) : found.usesSql = graph.usesSql found.name := by
  cases hexpands with
  | nil => exact absurd hfound List.not_mem_nil
  | cons hfirst hrest =>
      rw [CallTree.nodesAll, List.mem_append] at hfound
      rcases hfound with hfound | hfound
      · exact hfirst.usesSql_eq hfound
      · exact hrest.usesSql_eq hfound

end

/-- A name in the tree is flagged if and only if its paragraph holds SQL. -/
theorem Expands.exists_flagged_iff {visited after : List String} {name target : String}
    {tree : CallTree} (hexpands : Expands graph visited name tree after) :
    (∃ found ∈ tree.nodes, found.usesSql = true ∧ found.name = target) ↔
      target ∈ tree.names ∧ graph.usesSql target = true := by
  rw [CallTree.names, List.mem_map]
  constructor
  · rintro ⟨found, hfound, hsql, rfl⟩
    rw [hexpands.usesSql_eq hfound] at hsql
    exact ⟨⟨found, hfound, rfl⟩, hsql⟩
  · rintro ⟨⟨found, hfound, rfl⟩, hsql⟩
    rw [← hexpands.usesSql_eq hfound] at hsql
    exact ⟨found, hfound, hsql, rfl⟩

/-- The tree holds SQL if and only if a paragraph named in it does. -/
theorem Expands.containsSql_iff {visited after : List String} {name : String} {tree : CallTree}
    (hexpands : Expands graph visited name tree after) :
    tree.containsSql = true ↔ ∃ target ∈ tree.names, graph.usesSql target = true := by
  rw [CallTree.containsSql_iff]
  constructor
  · rintro ⟨found, hfound, hsql⟩
    exact ⟨found.name, hexpands.exists_flagged_iff.mp ⟨found, hfound, hsql, rfl⟩⟩
  · rintro ⟨target, htarget⟩
    obtain ⟨found, hfound, hsql, -⟩ := hexpands.exists_flagged_iff.mpr htarget
    exact ⟨found, hfound, hsql⟩

/-! ## Nothing visited before -/

theorem Expands.mem_after_iff_reaches {after : List String} {start : String} {tree : CallTree}
    (hexpands : Expands graph [] start tree after) {target : String} :
    target ∈ after ↔ graph.Reaches start target := by
  rw [hexpands.mem_after_iff, CallGraph.reachesAvoiding_nil]
  simp

/-- When nothing was visited before, the edges in the tree are the calls of the
names that the start reaches. -/
theorem Expands.hasEdge_iff_reaches {after : List String} {start : String} {tree : CallTree}
    (hexpands : Expands graph [] start tree after) {caller callee : String} :
    tree.HasEdge caller callee ↔
      graph.Reaches start caller ∧ callee ∈ graph.callsOf caller := by
  rw [hexpands.hasEdge_iff, hexpands.mem_after_iff_reaches]
  simp

/-- When nothing was visited before, the names in the tree are those that the
start reaches. -/
theorem Expands.mem_names_iff_reaches {after : List String} {start : String} {tree : CallTree}
    (hexpands : Expands graph [] start tree after) {target : String} :
    target ∈ tree.names ↔ graph.Reaches start target := by
  have hafter : ∀ caller, caller ∈ after ↔ graph.Reaches start caller :=
    fun _ => hexpands.mem_after_iff_reaches
  rw [hexpands.mem_names_iff]
  constructor
  · rintro (rfl | ⟨caller, hcaller, -, hcalled⟩)
    · exact .refl
    · exact .step ((hafter caller).mp hcaller) hcalled
  · intro hreaches
    cases hreaches with
    | refl => exact Or.inl rfl
    | step reached called => exact Or.inr ⟨_, (hafter _).mpr reached, List.not_mem_nil, called⟩

end SqlReach
