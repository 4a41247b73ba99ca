import Mathlib
import SqlReach.Proofs.Expansion.Occurrences

/-!
# The expansion, iteration by iteration

The expansion keeps its stack in a form that cannot be empty, and its recursion comes
with the proof that it ends.  Here neither is taken for granted: the stack is a plain
list, an iteration that finds it empty has no top to read, and the loop can be run for
any number of iterations.  From every start and with any names visited before, the
stack is then never found empty, the names on it are different and visited, and the
loop returns what the expansion gives within two iterations for each call of the graph
and one more.  The tree that it returns has at most one node for each call besides the
root, and no path down the tree has more edges than the graph has paragraphs.
-/

namespace SqlReach

namespace CallGraph

/-- How many calls the paragraphs of the graph hold together. -/
def totalCalls (graph : CallGraph) : Nat :=
  (graph.sections.map (·.2.calls.length)).sum

/-- Among different names no call is counted twice. -/
theorem callCount_le_totalCalls (graph : CallGraph) (names : Finset String) :
    graph.callCount names ≤ graph.totalCalls := by
  obtain ⟨sections⟩ := graph
  induction sections with
  | nil => simp [callCount, callsOf, find?]
  | cons entry rest ih =>
      obtain ⟨known, paragraph⟩ := entry
      have hcalls : ∀ name, (callsOf ⟨(known, paragraph) :: rest⟩ name).length ≤
          (if name = known then paragraph.calls.length else 0) + (callsOf ⟨rest⟩ name).length := by
        intro name
        simp only [callsOf, find?, List.lookup_cons]
        by_cases hname : name = known
        · simp [hname]
        · simp [hname, beq_false_of_ne hname]
      calc
        callCount ⟨(known, paragraph) :: rest⟩ names ≤
            ∑ name ∈ names, ((if name = known then paragraph.calls.length else 0) +
              (callsOf ⟨rest⟩ name).length) :=
          Finset.sum_le_sum fun name _ => hcalls name
        _ = (if known ∈ names then paragraph.calls.length else 0) + callCount ⟨rest⟩ names := by
          rw [Finset.sum_add_distrib, Finset.sum_ite_eq', callCount]
        _ ≤ paragraph.calls.length + totalCalls ⟨rest⟩ := by
          apply Nat.add_le_add _ ih
          split
          · exact Nat.le_refl _
          · exact Nat.zero_le _
        _ = totalCalls ⟨(known, paragraph) :: rest⟩ := by
          simp [totalCalls]

/-- Only the paragraphs of the graph call anything. -/
theorem mem_names_of_called {graph : CallGraph} {caller callee : String}
    (hcalled : callee ∈ graph.callsOf caller) : caller ∈ graph.names := by
  rw [callsOf] at hcalled
  split at hcalled
  · rename_i paragraph hfind
    obtain ⟨before, after, hsections, -⟩ := List.lookup_eq_some_iff.mp hfind
    rw [names, hsections]
    simp
  · cases hcalled

end CallGraph

/-! ## How deep the tree is -/

namespace CallTree

mutual

/-- The number of edges on the longest path from the root down to a leaf. -/
def height : CallTree → Nat
  | node _ _ children => heightAll children

/-- The same for trees that stand under one root. -/
def heightAll : List CallTree → Nat
  | [] => 0
  | tree :: trees => max (tree.height + 1) (heightAll trees)

end

end CallTree

variable {graph : CallGraph}

/-- The paragraphs of the graph that have not been visited. -/
def CallGraph.unvisited (graph : CallGraph) (visited : List String) : Finset String :=
  graph.names.toFinset \ visited.toFinset

theorem CallGraph.unvisited_anti {visited after : List String} (hsubset : visited ⊆ after) :
    graph.unvisited after ⊆ graph.unvisited visited := by
  apply Finset.sdiff_subset_sdiff (Finset.Subset.refl _)
  intro known hknown
  exact List.mem_toFinset.mpr (hsubset (List.mem_toFinset.mp hknown))

theorem CallGraph.card_unvisited_cons_lt {name : String} {visited : List String}
    (hname : name ∈ graph.names) (hnew : name ∉ visited) :
    (graph.unvisited (name :: visited)).card < (graph.unvisited visited).card := by
  have hsubset := graph.unvisited_anti (List.subset_cons_self name visited)
  apply Finset.card_lt_card
  apply (Finset.ssubset_iff_of_subset hsubset).mpr
  refine ⟨name, ?_, ?_⟩
  · simp [unvisited, hname, hnew]
  · simp [unvisited]

mutual

/-- Going down one edge uses up a paragraph: the name above it has a call, so it is a
paragraph of the graph, and it is visited from then on. -/
theorem Expands.height_le {visited after : List String} {name : String} {tree : CallTree}
    (hexpands : Expands graph visited name tree after) :
    tree.height ≤ (graph.unvisited visited).card := by
  cases hexpands with
  | truncate hvisited => exact Nat.zero_le _
  | unfold hnew hchildren =>
      rename_i children
      rw [CallTree.height]
      cases hcalls : graph.callsOf name with
      | nil =>
          rw [hcalls] at hchildren
          cases hchildren
          exact Nat.zero_le _
      | cons call calls =>
          have hname : name ∈ graph.names :=
            CallGraph.mem_names_of_called (hcalls ▸ List.mem_cons_self)
          have hless := CallGraph.card_unvisited_cons_lt hname hnew
          have hheight := hchildren.heightAll_le
          omega

theorem ExpandsAll.heightAll_le {visited names after : List String} {trees : List CallTree}
    (hexpands : ExpandsAll graph visited names trees after) :
    CallTree.heightAll trees ≤ (graph.unvisited visited).card + 1 := by
  cases hexpands with
  | nil => exact Nat.zero_le _
  | cons hfirst hrest =>
      have hfewer := Finset.card_le_card (graph.unvisited_anti hfirst.visited_subset)
      have htree := hfirst.height_le
      have htrees := hrest.heightAll_le
      rw [CallTree.heightAll]
      omega

end

namespace Expansion

/-! ## The loop over a plain stack -/

/-- The variables of the loop; the top of the stack comes first. -/
structure Snapshot where
  stack : List Frame
  visited : List String
  truncated : List String

/-- What the loop has come to. -/
inductive Turn where
  /-- The top of an empty stack was to be read. -/
  | noTop
  | done (expansion : Expansion)
  | more (snapshot : Snapshot)

def iterate (graph : CallGraph) (snapshot : Snapshot) : Turn :=
  match snapshot.stack with
  | [] => .noTop
  | top :: below =>
      match top.unread with
      | [] =>
          match below with
          | [] => .done ⟨top.close graph, snapshot.visited, snapshot.truncated.reverse⟩
          | next :: rest => .more { snapshot with stack := next.add (top.close graph) :: rest }
      | call :: unread =>
          if call ∈ snapshot.visited then
            .more { snapshot with
              stack := { top with unread }.add (.leaf call (graph.usesSql call)) :: below
              truncated := call :: snapshot.truncated }
          else
            .more { snapshot with
              stack := enter graph call :: { top with unread } :: below
              visited := call :: snapshot.visited }

/-- One more iteration, unless the loop has ended. -/
def Turn.next (graph : CallGraph) : Turn → Turn
  | noTop => noTop
  | done expansion => done expansion
  | more snapshot => iterate graph snapshot

/-- What stands before the first iteration.  From a start that was visited there is none. -/
def Turn.first (graph : CallGraph) (start : String) (visited : List String) : Turn :=
  if start ∈ visited then done ⟨.leaf start (graph.usesSql start), visited, [start]⟩
  else more ⟨[enter graph start], start :: visited, []⟩

/-- What the loop has come to after a number of iterations. -/
def Turn.after (graph : CallGraph) (start : String) (visited : List String) (count : Nat) : Turn :=
  (next graph)^[count] (first graph start visited)

/-! ## The stack -/

/-- The stack is not empty, and the names on it are different and visited. -/
structure Snapshot.IsTidy (snapshot : Snapshot) : Prop where
  stack_ne_nil : snapshot.stack ≠ []
  names_nodup : (snapshot.stack.map Frame.name).Nodup
  names_visited : ∀ frame ∈ snapshot.stack, frame.name ∈ snapshot.visited

/-- Where the loop stands is tidy, or it has returned. -/
def Turn.IsTidy : Turn → Prop
  | noTop => False
  | done _ => True
  | more snapshot => snapshot.IsTidy

/-- Whether the top paragraph is left, stays or gets another one on top of it, the names
on the stack stay different, since a name is pushed only when it was not visited. -/
theorem Snapshot.IsTidy.iterate {snapshot : Snapshot} (htidy : snapshot.IsTidy) :
    (iterate graph snapshot).IsTidy := by
  obtain ⟨stack, visited, truncated⟩ := snapshot
  obtain ⟨hne, hnodup, hvisited⟩ := htidy
  cases stack with
  | nil => exact absurd rfl hne
  | cons top below =>
      obtain ⟨name, unread, built⟩ := top
      obtain ⟨htop, hbelow⟩ := List.forall_mem_cons.mp hvisited
      rw [List.map_cons, List.nodup_cons] at hnodup
      cases unread with
      | nil =>
          cases below with
          | nil => trivial
          | cons next rest =>
              obtain ⟨hnext, hrest⟩ := List.forall_mem_cons.mp hbelow
              exact ⟨List.cons_ne_nil _ _, hnodup.2, List.forall_mem_cons.mpr ⟨hnext, hrest⟩⟩
      | cons call unread =>
          by_cases hcall : call ∈ visited
          · simp only [Expansion.iterate, hcall, if_true]
            exact ⟨List.cons_ne_nil _ _, List.nodup_cons.mpr hnodup,
              List.forall_mem_cons.mpr ⟨htop, hbelow⟩⟩
          · have hpushed : call ∉ name :: below.map Frame.name := by
              intro hmem
              obtain ⟨frame, hframe, rfl⟩ := List.mem_map.mp
                (show call ∈ (⟨name, unread, built⟩ :: below).map Frame.name from hmem)
              rcases List.mem_cons.mp hframe with rfl | hframe
              · exact hcall htop
              · exact hcall (hbelow frame hframe)
            simp only [Expansion.iterate, hcall, if_false]
            refine ⟨List.cons_ne_nil _ _, ?_, ?_⟩
            · exact List.nodup_cons.mpr ⟨hpushed, List.nodup_cons.mpr hnodup⟩
            · refine List.forall_mem_cons.mpr ⟨List.mem_cons_self, ?_⟩
              refine List.forall_mem_cons.mpr ⟨List.mem_cons_of_mem call htop, ?_⟩
              exact fun frame hframe => List.mem_cons_of_mem call (hbelow frame hframe)

theorem Turn.isTidy_first (start : String) (visited : List String) :
    (first graph start visited).IsTidy := by
  rw [first]
  split
  · trivial
  · exact ⟨List.cons_ne_nil _ _, List.nodup_singleton _, by simp [enter]⟩

theorem Turn.isTidy_after (graph : CallGraph) (start : String) (visited : List String)
    (count : Nat) : (after graph start visited count).IsTidy := by
  rw [after]
  induction count with
  | zero => exact isTidy_first start visited
  | succ count ih =>
      rw [Function.iterate_succ_apply']
      cases hturn : (next graph)^[count] (first graph start visited) with
      | noTop =>
          rw [hturn] at ih
          exact ih
      | done expansion => trivial
      | more snapshot =>
          rw [hturn] at ih
          exact Snapshot.IsTidy.iterate ih

/-! ## The end of the loop -/

def State.snapshot (state : State) : Snapshot where
  stack := state.top :: state.below
  visited := state.visited
  truncated := state.truncated

def Progress.turn : Progress → Turn
  | done expansion => .done expansion
  | more state => .more state.snapshot

/-- On a stack with a top, an iteration is a step of the expansion. -/
theorem iterate_snapshot (state : State) :
    iterate graph state.snapshot = (step graph state).turn := by
  obtain ⟨⟨name, unread, built⟩, below, visited, truncated⟩ := state
  cases unread with
  | nil => cases below <;> rfl
  | cons call unread =>
      by_cases hcall : call ∈ visited
      · simp [iterate, step, State.snapshot, Progress.turn, hcall]
      · simp [iterate, step, State.snapshot, Progress.turn, hcall]

theorem Turn.next_iterate_done (expansion : Expansion) (count : Nat) :
    (next graph)^[count] (done expansion) = done expansion :=
  Function.iterate_fixed rfl count

/-- The loop returns before the work of a state is used up: every iteration takes some of
it away, and as long as there is a top there is work left. -/
theorem Turn.next_iterate_of_work_le {state : State} {count : Nat}
    (hwork : state.work graph ≤ count) :
    (next graph)^[count] (more state.snapshot) = done (run graph state) := by
  induction count generalizing state with
  | zero =>
      have htop : 0 < state.work graph := by
        simp only [State.work, Frame.work]
        omega
      omega
  | succ count ih =>
      rw [Function.iterate_succ_apply, next, iterate_snapshot]
      cases hstep : step graph state with
      | done expansion =>
          rw [Progress.turn, next_iterate_done, run_of_step_done hstep]
      | more later =>
          have hless := work_step_lt hstep
          rw [Progress.turn, ih (by omega), run_of_step_more hstep]

theorem dormantWork_le (visited : List String) (sections : List (String × Paragraph)) :
    dormantWork visited sections ≤ 2 * (sections.map (·.2.calls.length)).sum := by
  induction sections with
  | nil => exact Nat.le_refl 0
  | cons entry rest ih =>
      obtain ⟨name, paragraph⟩ := entry
      simp only [dormantWork, List.map_cons, List.sum_cons]
      split <;> omega

/-- At the beginning the work is at most two for each call of the graph, and one. -/
theorem work_initial_le {start : String} {visited : List String} (hnew : start ∉ visited) :
    (initial graph start visited).work graph ≤ 2 * graph.totalCalls + 1 := by
  have hvisit := dormantWork_visit graph hnew
  have hdormant := dormantWork_le visited graph.sections
  simp only [State.work, initial, Frame.work, Frame.workAll, enter, CallGraph.totalCalls]
  omega

theorem Turn.after_eq_done (start : String) (visited : List String) {count : Nat}
    (hcount : 2 * graph.totalCalls + 1 ≤ count) :
    after graph start visited count = done (expand graph start visited) := by
  rw [after, first, expand]
  split
  · exact next_iterate_done _ count
  · rename_i hnew
    exact next_iterate_of_work_le (Nat.le_trans (work_initial_le hnew) hcount)

end Expansion

/-- Whatever the graph, the start and the names visited before, the loop never reads the
top of an empty stack; wherever it stands, the names on the stack are different and
visited; and it returns the expansion within two iterations for each call of the graph
and one more.  The tree has at most one node more than the graph has calls, and the
longest path down the tree has at most as many edges as the graph has paragraphs. -/
theorem expansion_loop_returns (graph : CallGraph) (start : String) (visited : List String) :
    (∀ count, Expansion.Turn.after graph start visited count ≠ .noTop) ∧
    (∀ count snapshot, Expansion.Turn.after graph start visited count = .more snapshot →
      (snapshot.stack.map Expansion.Frame.name).Nodup ∧
        ∀ frame ∈ snapshot.stack, frame.name ∈ snapshot.visited) ∧
    (∀ count, 2 * graph.totalCalls + 1 ≤ count →
      Expansion.Turn.after graph start visited count = .done (expand graph start visited)) ∧
    (expand graph start visited).tree.size ≤ 1 + graph.totalCalls ∧
    (expand graph start visited).tree.height ≤ graph.sections.length := by
  have htidy := Expansion.Turn.isTidy_after graph start visited
  have hexpands := Expansion.expands_expand graph start visited
  refine ⟨?_, ?_, ?_, ?_, ?_⟩
  · intro count hnoTop
    have hcount := htidy count
    rw [hnoTop] at hcount
    exact hcount
  · intro count snapshot hmore
    have hcount := htidy count
    rw [hmore] at hcount
    exact ⟨hcount.names_nodup, hcount.names_visited⟩
  · exact fun count => Expansion.Turn.after_eq_done start visited
  · rw [hexpands.size_eq]
    exact Nat.add_le_add_left (graph.callCount_le_totalCalls _) 1
  · calc
      (expand graph start visited).tree.height ≤ (graph.unvisited visited).card :=
        hexpands.height_le
      _ ≤ graph.names.toFinset.card := Finset.card_le_card Finset.sdiff_subset
      _ ≤ graph.names.length := List.toFinset_card_le graph.names
      _ = graph.sections.length := List.length_map _

/-- The first paragraph calls itself, and the second one calls back, calls a name that is
not defined and one that was visited before.  After two iterations two paragraphs are on
the stack, and the eleventh has returned. -/
theorem expansion_loop_returns_cycle :
    let graph : CallGraph :=
      ⟨[("100-A", { name := "100-A", calls := ["100-A", "200-B"] }),
        ("200-B", { name := "200-B", calls := ["100-A", "900-Z", "300-C"], usesSql := true }),
        ("300-C", { name := "300-C", calls := [] })]⟩
    (∃ snapshot, Expansion.Turn.after graph "100-A" ["300-C"] 2 = .more snapshot ∧
      snapshot.stack.map Expansion.Frame.name = ["200-B", "100-A"] ∧
      (snapshot.stack.map Expansion.Frame.name).Nodup ∧
      ∀ frame ∈ snapshot.stack, frame.name ∈ snapshot.visited) ∧
    graph.totalCalls = 5 ∧
    Expansion.Turn.after graph "100-A" ["300-C"] 11 = .done (expand graph "100-A" ["300-C"]) := by
  intro graph
  obtain ⟨-, htidy, hreturns, -, -⟩ := expansion_loop_returns graph "100-A" ["300-C"]
  exact ⟨⟨_, rfl, rfl, htidy 2 _ rfl⟩, rfl, hreturns 11 (by decide)⟩

end SqlReach
