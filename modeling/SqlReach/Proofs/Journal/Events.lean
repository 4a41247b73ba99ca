import Mathlib
import SqlReach.Journal.Trace
import SqlReach.Proofs.Expansion.Recursion
import SqlReach.Proofs.Scanner.Coherence
import SqlReach.Proofs.Scanner.Names

/-!
# The events of a text

Events are recorded while the lines are scanned and while the tree is built.  What comes
of it is determined by the finished work: there is an event for every header line, in
the order of the lines, and one for every node of the tree whose name occurs in front of
it, in the order of the nodes.
-/

namespace SqlReach

namespace Scanner

/-- The headers are noted in the order of the lines. -/
theorem headers_feedLines (lines : List String) :
    (({} : Scanner).feedLines lines).headers.reverse = Outline.headers lines := by
  induction lines using List.reverseRecOn with
  | nil => rfl
  | append_singleton lines line ih =>
      rw [feedLines_concat, headers_feed, List.reverse_append, ih]
      cases hheader : Outline.headerOf? line with
      | some label => exact (Outline.headers_concat_header hheader).symm
      | none =>
          rw [Outline.headers_concat_plain hheader]
          exact List.append_nil _

end Scanner

namespace Trace

/-- The summary of a scan. -/
def summary (paragraphs usingSql : Nat) : Event :=
  ⟨.info, .scanning,
    "Scanned " ++ toString paragraphs ++ " paragraphs (" ++ toString usingSql ++
      " using EXEC SQL)."⟩

theorem scanned_outline (lines : List String) :
    scanned (outline lines) =
      summary (Outline.headers lines).eraseDups.length
        ((Outline.headers lines).eraseDups.countP fun name =>
          (Outline.paragraph lines name).usesSql) := by
  rw [scanned, CallGraph.sqlCount, outline, List.length_map, List.countP_map]
  rfl

/-- All events of a run that reads a text and analyzes it, whatever is recorded of them:
the headers of the text, with repeats, the number of different paragraphs and of those
that use SQL, a start that no header defines, the names that occur again in the tree, and
the verdict. -/
def ofText (text start : String) (source : AbsolutePath) : List Event :=
  let lines := Scanner.linesOf text
  let headers := Outline.headers lines
  let paragraphs := headers.eraseDups
  let analysis := analyze text start none
  [configured, reading source] ++ headers.map header ++
    [summary paragraphs.length
      (paragraphs.countP fun name => (Outline.paragraph lines name).usesSql)] ++
    (if start ∈ headers then [] else [startUndefined start]) ++
    (repeats [] analysis.tree.names).map truncated ++ [verdict start analysis.usesSql]

theorem ofText_eq (text start : String) (source : AbsolutePath) :
    ofText text start source =
      configured :: reading source :: ofSurvey (Survey.ofText text start) := by
  have hheaders : (Scanner.ofText text).headers.reverse =
      Outline.headers (Scanner.linesOf text) := Scanner.headers_feedLines _
  have hgraph : (Scanner.ofText text).graph = outline (Scanner.linesOf text) :=
    scan_eq_outline text
  have hscanned := scanned_outline (Scanner.linesOf text)
  have hdefined : start ∈ (Scanner.ofText text).graph.names ↔
      start ∈ Outline.headers (Scanner.linesOf text) := by
    rw [hgraph, Outline.names_outline, List.mem_eraseDups]
  rw [← hgraph] at hscanned
  rw [ofSurvey, Survey.ofText]
  dsimp only
  rw [hheaders, hscanned, if_congr hdefined rfl rfl, Expansion.truncated_expand]
  rfl

/-- A header that is repeated, and a call that leads back to the start. -/
example :
    (ofText "100-A.\n200-B.\n EXEC SQL\n100-A.\n PERFORM 200-B\n PERFORM 100-A" "100-A"
        { location := Location.root.child { text := "m" } }).map Event.message =
      ["Logging configured.", "Reading COBOL source: /m", "Paragraph header: 100-A",
        "Paragraph header: 200-B", "Paragraph header: 100-A",
        "Scanned 2 paragraphs (1 using EXEC SQL).", "'100-A' already visited, truncating.",
        "Call tree from '100-A': EXEC SQL found."] := by
  decide +kernel

end Trace

end SqlReach
