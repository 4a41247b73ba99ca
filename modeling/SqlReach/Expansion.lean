import SqlReach.CallGraph
import SqlReach.CallTree

/-!
# Expanding a call graph

Expanding a paragraph turns the call graph into a call tree.  One record of the
names visited so far serves the whole tree: the first time a name is met, from
left to right and top to bottom, its calls become its children, and from then
on it is a leaf.  So the tree is finite whatever cycles the graph has.

The expansion keeps the paragraphs whose calls it is reading on a stack.  It
ends because a paragraph is pushed at most once, and everything else reads a
call or takes a paragraph off the stack.
-/

namespace SqlReach

/-- What comes of expanding a paragraph: the tree, the names visited by then and
the names that were met again, in the order in which they were met. -/
structure Expansion where
  tree : CallTree
  visited : List String
  truncated : List String

namespace Expansion

/-- A paragraph whose calls are being read. -/
structure Frame where
  name : String
  unread : List String
  /-- The children built so far, the latest first. -/
  built : List CallTree := []

/-- The stack is never empty, so its top has a place of its own. -/
structure State where
  top : Frame
  below : List Frame
  visited : List String
  /-- The names met again so far, the latest first. -/
  truncated : List String

inductive Progress where
  | done (expansion : Expansion)
  | more (state : State)

def enter (graph : CallGraph) (name : String) : Frame where
  name := name
  unread := graph.callsOf name

def Frame.close (graph : CallGraph) (frame : Frame) : CallTree :=
  .node frame.name (graph.usesSql frame.name) frame.built.reverse

def Frame.add (frame : Frame) (tree : CallTree) : Frame :=
  { frame with built := tree :: frame.built }

def step (graph : CallGraph) (state : State) : Progress :=
  match state.top.unread with
  | [] =>
      match state.below with
      | [] => .done ⟨state.top.close graph, state.visited, state.truncated.reverse⟩
      | next :: rest => .more { state with top := next.add (state.top.close graph), below := rest }
  | call :: unread =>
      if call ∈ state.visited then
        .more { state with
          top := { state.top with unread }.add (.leaf call (graph.usesSql call))
          truncated := call :: state.truncated }
      else
        .more { state with
          top := enter graph call
          below := { state.top with unread } :: state.below
          visited := call :: state.visited }

def Frame.work (frame : Frame) : Nat :=
  2 * frame.unread.length + 1

/-- The calls of the paragraphs that have not been visited, each counted twice. -/
def dormantWork (visited : List String) : List (String × Paragraph) → Nat
  | [] => 0
  | (name, paragraph) :: rest =>
      (if name ∈ visited then 0 else 2 * paragraph.calls.length) + dormantWork visited rest

def Frame.workAll : List Frame → Nat
  | [] => 0
  | frame :: frames => frame.work + workAll frames

def State.work (graph : CallGraph) (state : State) : Nat :=
  dormantWork state.visited graph.sections + state.top.work + Frame.workAll state.below

theorem dormantWork_cons_le (name : String) (visited : List String)
    (sections : List (String × Paragraph)) :
    dormantWork (name :: visited) sections ≤ dormantWork visited sections := by
  induction sections with
  | nil => simp [dormantWork]
  | cons entry rest ih =>
      obtain ⟨known, paragraph⟩ := entry
      by_cases hvisited : known ∈ visited
      · simpa [dormantWork, hvisited] using ih
      · by_cases hname : known = name
        · simp only [dormantWork, List.mem_cons, hname, true_or, if_true]
          omega
        · simp only [dormantWork, List.mem_cons, hname, hvisited, or_self, if_false]
          omega

/-- Visiting a paragraph moves its calls from the dormant ones to the stack. -/
theorem dormantWork_visit (graph : CallGraph) {name : String} {visited : List String}
    (hnew : name ∉ visited) :
    dormantWork (name :: visited) graph.sections + 2 * (graph.callsOf name).length ≤
      dormantWork visited graph.sections := by
  obtain ⟨sections⟩ := graph
  simp only [CallGraph.callsOf, CallGraph.find?]
  induction sections with
  | nil => simp [dormantWork]
  | cons entry rest ih =>
      obtain ⟨known, paragraph⟩ := entry
      by_cases hname : name = known
      · subst hname
        have := dormantWork_cons_le name visited rest
        simp only [List.lookup_cons_self, dormantWork, List.mem_cons, true_or, if_true, hnew,
          if_false]
        omega
      · have hbeq : (name == known) = false := by simpa using hname
        simp only [List.lookup_cons, hbeq, dormantWork, List.mem_cons, Ne.symm hname, false_or]
        omega

theorem work_step_lt {graph : CallGraph} {state next : State}
    (hstep : step graph state = .more next) : next.work graph < state.work graph := by
  unfold step at hstep
  split at hstep
  · rename_i hunread
    split at hstep
    · cases hstep
    · rename_i frame rest hbelow
      cases hstep
      simp only [State.work, Frame.work, Frame.workAll, Frame.add, hunread, hbelow]
      omega
  · rename_i call unread hunread
    split at hstep
    · cases hstep
      simp only [State.work, Frame.work, Frame.add, hunread, List.length_cons]
      omega
    · rename_i hnew
      cases hstep
      have := dormantWork_visit graph hnew
      simp only [State.work, Frame.work, Frame.workAll, enter, hunread, List.length_cons]
      omega

def run (graph : CallGraph) (state : State) : Expansion :=
  match _hstep : step graph state with
  | .done expansion => expansion
  | .more next => run graph next
termination_by state.work graph
decreasing_by exact work_step_lt _hstep

/-- Where the expansion of a name that was not visited begins. -/
def initial (graph : CallGraph) (start : String) (visited : List String) : State where
  top := enter graph start
  below := []
  visited := start :: visited
  truncated := []

end Expansion

/-- The call tree from a start paragraph, given the names visited before. -/
def expand (graph : CallGraph) (start : String) (visited : List String) : Expansion :=
  if start ∈ visited then ⟨.leaf start (graph.usesSql start), visited, [start]⟩
  else Expansion.run graph (Expansion.initial graph start visited)

mutual

/-- `Expands graph visited name tree after` says that expanding `name` with the
names `visited` gives `tree` and leaves the names `after` visited. -/
inductive Expands (graph : CallGraph) : List String → String → CallTree → List String → Prop
  | truncate {visited : List String} {name : String} (hvisited : name ∈ visited) :
      Expands graph visited name (.leaf name (graph.usesSql name)) visited
  | unfold {visited after : List String} {name : String} {children : List CallTree}
      (hnew : name ∉ visited)
      (hchildren : ExpandsAll graph (name :: visited) (graph.callsOf name) children after) :
      Expands graph visited name (.node name (graph.usesSql name) children) after

/-- The same for a list of names, expanded from left to right. -/
inductive ExpandsAll (graph : CallGraph) :
    List String → List String → List CallTree → List String → Prop
  | nil {visited : List String} : ExpandsAll graph visited [] [] visited
  | cons {visited between after : List String} {name : String} {names : List String}
      {tree : CallTree} {trees : List CallTree}
      (hfirst : Expands graph visited name tree between)
      (hrest : ExpandsAll graph between names trees after) :
      ExpandsAll graph visited (name :: names) (tree :: trees) after

end

end SqlReach
