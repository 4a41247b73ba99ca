import SqlReach.Command
import SqlReach.Proofs.Analysis.Verdict
import SqlReach.Proofs.Scanner.Blocks
import SqlReach.Proofs.Scanner.Lines

/-!
# What an analysis does not depend on

An expansion looks up the calls and the flags of the names that it reaches, and of
no others.  So two call graphs that agree within reach of a start have the same call
tree from there, whatever else they hold and in whatever order they hold it.  For a
program this means that its paragraphs can be rearranged: as long as no label occurs
twice, neither the analysis nor any report shows the order of the blocks.
-/

namespace SqlReach

namespace CallGraph

/-- The graphs record the same under every name that `start` reaches in the first. -/
structure AgreesFrom (graph other : CallGraph) (start : String) : Prop where
  calls_eq : ∀ name, graph.Reaches start name → graph.callsOf name = other.callsOf name
  usesSql_eq : ∀ name, graph.Reaches start name → graph.usesSql name = other.usesSql name

variable {graph other : CallGraph}

/-- Whatever a called name reaches is within reach of its caller. -/
theorem AgreesFrom.of_call {start next : String} (hagrees : graph.AgreesFrom other start)
    (hcalled : next ∈ graph.callsOf start) : graph.AgreesFrom other next where
  calls_eq name hreaches := hagrees.calls_eq name (.of_call hcalled hreaches)
  usesSql_eq name hreaches := hagrees.usesSql_eq name (.of_call hcalled hreaches)

end CallGraph

variable {graph other : CallGraph}

mutual

/-- The recursion takes the same course in both graphs, whatever was visited before. -/
theorem Expands.of_agreesFrom {visited after : List String} {name : String} {tree : CallTree}
    (hexpands : Expands graph visited name tree after) (hagrees : graph.AgreesFrom other name) :
    Expands other visited name tree after := by
  have hsql : graph.usesSql name = other.usesSql name := hagrees.usesSql_eq name .refl
  cases hexpands with
  | truncate hvisited =>
      rw [hsql]
      exact .truncate hvisited
  | unfold hnew hchildren =>
      rw [hsql]
      refine .unfold hnew ?_
      rw [← hagrees.calls_eq name .refl]
      exact hchildren.of_agreesFrom fun call hcall => hagrees.of_call hcall

theorem ExpandsAll.of_agreesFrom {visited names after : List String} {trees : List CallTree}
    (hexpands : ExpandsAll graph visited names trees after)
    (hagrees : ∀ name ∈ names, graph.AgreesFrom other name) :
    ExpandsAll other visited names trees after := by
  cases hexpands with
  | nil => exact .nil
  | cons hfirst hrest =>
      obtain ⟨hagreesFirst, hagreesRest⟩ := List.forall_mem_cons.mp hagrees
      exact .cons (hfirst.of_agreesFrom hagreesFirst) (hrest.of_agreesFrom hagreesRest)

end

theorem CallGraph.AgreesFrom.tree_expand {start : String} (hagrees : graph.AgreesFrom other start)
    (visited : List String) :
    (expand graph start visited).tree = (expand other start visited).tree := by
  have hexpands := (Expansion.expands_expand graph start visited).of_agreesFrom hagrees
  exact (Expansion.expand_of_expands hexpands).1.symm

/-! ## Rearranged graphs -/

namespace CallGraph

/-- Two graphs with the same paragraphs in a different order agree everywhere. -/
theorem agreesFrom_of_perm (hperm : graph.sections.Perm other.sections)
    (hnames : graph.names.Nodup) (start : String) : graph.AgreesFrom other start := by
  have hfind : ∀ name, graph.find? name = other.find? name :=
    Register.lookup_perm hperm hnames
  constructor
  · intro name _
    rw [callsOf, callsOf, hfind]
  · intro name _
    rw [CallGraph.usesSql, CallGraph.usesSql, hfind]

end CallGraph

/-- An analysis shows nothing of the order of the paragraphs. -/
theorem analyze_eq_of_perm {text rearranged : String}
    (hperm : (scan text).sections.Perm (scan rearranged).sections)
    (hnames : (scan text).names.Nodup) (start : String) (source : Option String) :
    analyze text start source = analyze rearranged start source := by
  have htree : (expand (scan text) start []).tree = (expand (scan rearranged) start []).tree :=
    (CallGraph.agreesFrom_of_perm hperm hnames start).tree_expand []
  have hsections : (scan text).sections.length = (scan rearranged).sections.length :=
    hperm.length_eq
  have hanalysis : ∀ text, analyze text start source =
      { start, source
        sections := (scan text).sections.length
        usesSql := (expand (scan text) start []).tree.containsSql
        tree := (expand (scan text) start []).tree } := fun _ => rfl
  rw [hanalysis, hanalysis, htree, hsections]

/-! ## Rearranged blocks -/

namespace Block

variable {preamble : List String} {blocks permuted : List Block}

/-- The lines of rearranged blocks are the lines of a text again. -/
theorem linesOf_rearranged {text : String} (hperm : blocks.Perm permuted)
    (htext : Scanner.linesOf text = preamble ++ blocks.flatMap lines) :
    Scanner.linesOf ("\n".intercalate (preamble ++ permuted.flatMap lines)) =
      preamble ++ permuted.flatMap lines := by
  have hlines : (preamble ++ blocks.flatMap lines).Perm (preamble ++ permuted.flatMap lines) :=
    (hperm.flatMap_right lines).append_left preamble
  rw [← htext] at hlines
  apply Scanner.linesOf_intercalate
  · intro hnone
    rw [hnone] at hlines
    exact Scanner.linesOf_ne_nil text hlines.eq_nil
  · intro line hline
    exact Scanner.newline_not_mem_of_mem_linesOf (hlines.mem_iff.mpr hline)

theorem scan_eq_of_linesOf {text : String}
    (hpreamble : ∀ line ∈ preamble, Outline.headerOf? line = none)
    (hlabels : (blocks.map label).Nodup)
    (htext : Scanner.linesOf text = preamble ++ blocks.flatMap lines) :
    scan text = ⟨blocks.map fun block => (block.label, block.paragraph)⟩ := by
  rw [scan_eq_outline, htext, outline_append_flatMap_lines hpreamble hlabels]

theorem analyze_rearranged {text : String} (hperm : blocks.Perm permuted)
    (hpreamble : ∀ line ∈ preamble, Outline.headerOf? line = none)
    (hlabels : (blocks.map label).Nodup)
    (htext : Scanner.linesOf text = preamble ++ blocks.flatMap lines) (start : String)
    (source : Option String) :
    analyze ("\n".intercalate (preamble ++ permuted.flatMap lines)) start source =
      analyze text start source := by
  have hscan := scan_eq_of_linesOf hpreamble hlabels htext
  have hrearranged := scan_eq_of_linesOf hpreamble ((hperm.map label).nodup_iff.mp hlabels)
    (linesOf_rearranged hperm htext)
  symm
  apply analyze_eq_of_perm
  · rw [hscan, hrearranged]
    exact hperm.map _
  · simpa [hscan, CallGraph.names, Function.comp_def] using hlabels

end Block

/-- Only what a start reaches matters for its call tree, and of a program in which
no label occurs twice the order of the blocks matters neither for the analysis nor
for any report. -/
theorem analysis_ignores_unreachable_and_order :
    (∀ (graph other : CallGraph) (start : String), graph.AgreesFrom other start →
      (expand graph start []).tree = (expand other start []).tree) ∧
    ∀ (text : String) (preamble : List String) (blocks permuted : List Block) (start : String)
      (source : Option String),
      Scanner.linesOf text = preamble ++ blocks.flatMap Block.lines →
      (∀ line ∈ preamble, Outline.headerOf? line = none) →
      (blocks.map Block.label).Nodup → blocks.Perm permuted →
      let rearranged := "\n".intercalate (preamble ++ permuted.flatMap Block.lines)
      analyze rearranged start source = analyze text start source ∧
        ∀ format, Command.render format (analyze rearranged start source) =
          Command.render format (analyze text start source) := by
  constructor
  · intro graph other start hagrees
    exact hagrees.tree_expand []
  · intro text preamble blocks permuted start source htext hpreamble hlabels hperm rearranged
    have hanalyze : analyze rearranged start source = analyze text start source :=
      Block.analyze_rearranged hperm hpreamble hlabels htext start source
    refine ⟨hanalyze, ?_⟩
    intro format
    rw [hanalyze]

/-- A graph with a further paragraph in front agrees with one that lacks it, since
nothing calls it, and two blocks change places behind a comment. -/
theorem analysis_ignores_unreachable_and_order_swapped :
    let caller : Paragraph := { name := "100-A", calls := ["200-B"] }
    let unused : Paragraph := { name := "900-Z", calls := ["100-A"], usesSql := true }
    let first : Block :=
      ⟨"100-A", "100-A.", [" PERFORM 200-B"], by decide +kernel, by decide +kernel⟩
    let second : Block := ⟨"200-B", " 200-B.", [" EXEC SQL"], by decide +kernel, by decide +kernel⟩
    (expand ⟨[("100-A", caller)]⟩ "100-A" []).tree =
        (expand ⟨[("900-Z", unused), ("100-A", caller)]⟩ "100-A" []).tree ∧
      Scanner.linesOf "* A\n100-A.\n PERFORM 200-B\n 200-B.\n EXEC SQL" =
        ["* A"] ++ [first, second].flatMap Block.lines ∧
      analyze ("\n".intercalate (["* A"] ++ [second, first].flatMap Block.lines)) "100-A" none =
        analyze "* A\n100-A.\n PERFORM 200-B\n 200-B.\n EXEC SQL" "100-A" none := by
  intro caller unused first second
  have hcalls : CallGraph.callsOf ⟨[("100-A", caller)]⟩ "100-A" = ["200-B"] ∧
      CallGraph.callsOf ⟨[("100-A", caller)]⟩ "200-B" = [] := by
    decide +kernel
  have hreached : ∀ name, CallGraph.Reaches ⟨[("100-A", caller)]⟩ "100-A" name →
      name = "100-A" ∨ name = "200-B" := by
    intro name hreaches
    induction hreaches with
    | refl => exact Or.inl rfl
    | step reached called ih =>
        rcases ih with rfl | rfl
        · simpa [hcalls.1] using Or.inr called
        · simp [hcalls.2] at called
  have hagrees : CallGraph.AgreesFrom ⟨[("100-A", caller)]⟩
      ⟨[("900-Z", unused), ("100-A", caller)]⟩ "100-A" := by
    constructor
    · intro name hreaches
      rcases hreached name hreaches with rfl | rfl <;> decide +kernel
    · intro name hreaches
      rcases hreached name hreaches with rfl | rfl <;> decide +kernel
  have hlines : Scanner.linesOf "* A\n100-A.\n PERFORM 200-B\n 200-B.\n EXEC SQL" =
      ["* A"] ++ [first, second].flatMap Block.lines := by
    decide +kernel
  obtain ⟨hunreachable, horder⟩ := analysis_ignores_unreachable_and_order
  refine ⟨hunreachable _ _ _ hagrees, hlines, ?_⟩
  exact (horder _ ["* A"] [first, second] [second, first] "100-A" none hlines (by decide +kernel)
    (by decide +kernel) (List.Perm.swap second first [])).1

end SqlReach
