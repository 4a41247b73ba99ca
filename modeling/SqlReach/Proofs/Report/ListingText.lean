import SqlReach.Proofs.CallTree.Rows
import SqlReach.Proofs.Report.FlowchartText
import SqlReach.Report.Listing

/-!
# The text report can be read back

A listing is a flat list of lines, and the names on them may hold blanks and dashes.
Still nothing of the tree is lost.  The spaces in front of the first dash give the
depth of a node, the mark at the end gives its flag unless a name ends with the mark
itself, and the depths give the nesting.  This module reads the tree back from its
listing and from the text of a report.
-/

namespace SqlReach.Report

/-! ## One line -/

theorem toList_listingLine (indent : Int) (row : Row) :
    (listingLine indent row).toList =
      List.replicate (indent + 2 * row.depth).toNat ' ' ++
        ("- ".toList ++ (row.name.toList ++ (if row.usesSql then sqlMark.toList else []))) := by
  cases hsql : row.usesSql <;> simp [listingLine, spaces, hsql]

/-- The spaces in front of a line end at its dash, also where the name begins with
spaces. -/
theorem takeWhile_listingLine (indent : Int) (row : Row) :
    (listingLine indent row).toList.takeWhile (· == ' ') =
      List.replicate (indent + 2 * row.depth).toNat ' ' := by
  rw [toList_listingLine, List.takeWhile_append_of_pos (by simp)]
  exact List.append_nil _

theorem dropWhile_listingLine (indent : Int) (row : Row) :
    (listingLine indent row).toList.dropWhile (· == ' ') =
      "- ".toList ++ (row.name.toList ++ (if row.usesSql then sqlMark.toList else [])) := by
  rw [toList_listingLine, List.dropWhile_append_of_pos (by simp)]
  rfl

/-- The mark is found behind the flagged names only, if no name ends with it. -/
theorem between?_sqlMark {name : List Char} (hname : ¬ sqlMark.toList <:+ name) (usesSql : Bool) :
    Flowchart.between? "- ".toList sqlMark.toList
        ("- ".toList ++ (name ++ (if usesSql then sqlMark.toList else []))) =
      if usesSql then some name else none := by
  cases usesSql with
  | true => exact Flowchart.between?_append _ _ _
  | false =>
      have hunmarked : sqlMark.toList.isSuffixOf name = false := by
        rw [Bool.eq_false_iff, ne_eq, List.isSuffixOf_iff_suffix]
        exact hname
      rw [if_neg Bool.false_ne_true, Flowchart.between?, List.append_nil, List.drop_left,
        hunmarked, Bool.and_false]
      rfl

/-- Reads the row on a line of a listing, which was indented as a whole by `indent`. -/
def lineRow? (indent : Int) (line : String) : Option Row :=
  let depth := ((line.toList.takeWhile (· == ' ')).length - indent).toNat / 2
  let entry := line.toList.dropWhile (· == ' ')
  match Flowchart.between? "- ".toList sqlMark.toList entry with
  | some name => some ⟨depth, String.ofList name, true⟩
  | none =>
      (Flowchart.between? "- ".toList [] entry).map fun name =>
        ⟨depth, String.ofList name, false⟩

theorem lineRow?_listingLine {indent : Int} (hindent : 0 ≤ indent) {row : Row}
    (hname : ¬ sqlMark.toList <:+ row.name.toList) :
    lineRow? indent (listingLine indent row) = some row := by
  have hdepth : (((List.replicate (indent + 2 * row.depth).toNat ' ').length : Int) -
      indent).toNat / 2 = row.depth := by
    rw [List.length_replicate]
    omega
  have hunflagged : Flowchart.between? "- ".toList [] ("- ".toList ++ (row.name.toList ++ [])) =
      some row.name.toList := Flowchart.between?_append _ _ []
  simp only [lineRow?, takeWhile_listingLine, dropWhile_listingLine, hdepth,
    between?_sqlMark hname]
  obtain ⟨depth, name, usesSql⟩ := row
  cases usesSql with
  | true => simp only [if_true, String.ofList_toList]
  | false =>
      simp only [Bool.false_eq_true, if_false, hunflagged, Option.map_some, String.ofList_toList]

/-! ## The whole listing -/

theorem mem_names_of_mem_rows {tree : CallTree} {row : Row} (hrow : row ∈ tree.rows) :
    row.name ∈ tree.names := by
  obtain ⟨visit, hvisit, rfl⟩ := List.mem_map.mp hrow
  rw [CallTree.names, ← CallTree.map_tree_walk]
  exact List.mem_map_of_mem (List.mem_map_of_mem hvisit)

/-- No name in the tree ends with the mark, so that a mark always means a flag. -/
def HasPlainNames (tree : CallTree) : Prop :=
  ∀ name ∈ tree.names, ¬ sqlMark.toList <:+ name.toList

/-- Reads the tree from the lines of its listing. -/
def readListing? (indent : Int) (lines : List String) : Option CallTree :=
  (lines.mapM (lineRow? indent)).bind CallTree.ofRows?

theorem readListing?_listing {tree : CallTree} (hnames : HasPlainNames tree) {indent : Int}
    (hindent : 0 ≤ indent) : readListing? indent (listing tree indent) = some tree := by
  have hrows : (listing tree indent).mapM (lineRow? indent) = some tree.rows := by
    apply Text.mapM_map_eq_some
    intro row hrow
    exact lineRow?_listingLine hindent (hnames _ (mem_names_of_mem_rows hrow))
  rw [readListing?, hrows, Option.bind_some, CallTree.ofRows?_rows]

/-! ## The text of a report -/

theorem newline_not_mem_listingLine {row : Row} (hname : '\n' ∉ row.name.toList) :
    '\n' ∉ (listingLine 0 row).toList := by
  have hmark : '\n' ∉ (if row.usesSql then sqlMark else "").toList := by
    split <;> decide
  simp [listingLine, spaces, hname, hmark]

theorem linesOf_text {analysis : Analysis}
    (hnames : ∀ name ∈ analysis.tree.names, '\n' ∉ name.toList) :
    Scanner.linesOf (text analysis) = "PERFORM Call Tree:" :: listing analysis.tree 0 := by
  apply Scanner.linesOf_intercalate (List.cons_ne_nil _ _)
  intro line hline
  rcases List.mem_cons.mp hline with rfl | hlisted
  · decide
  · obtain ⟨row, hrow, rfl⟩ := List.mem_map.mp hlisted
    exact newline_not_mem_listingLine (hnames _ (mem_names_of_mem_rows hrow))

/-- Reads the tree from the text of a report, behind its title. -/
def readText? (report : String) : Option CallTree :=
  match Scanner.linesOf report with
  | "PERFORM Call Tree:" :: lines => readListing? 0 lines
  | _ => none

theorem readText?_text {analysis : Analysis} (hnames : HasPlainNames analysis.tree)
    (hlines : ∀ name ∈ analysis.tree.names, '\n' ∉ name.toList) :
    readText? (text analysis) = some analysis.tree := by
  rw [readText?, linesOf_text hlines]
  exact readListing?_listing hnames (Int.le_refl 0)

/-- A listing determines its tree.  If no name ends with the mark, the tree is read back
from the lines at any indentation; and if no name holds a line feed, it is read back
from the text of a report.  So trees with equal listings are equal, and trees with
equal reports are. -/
theorem listing_determines_tree (first second : CallTree) (hfirst : HasPlainNames first)
    (hsecond : HasPlainNames second) :
    (∀ indent : Int, 0 ≤ indent →
      readListing? indent (listing first indent) = some first ∧
        (listing first indent = listing second indent → first = second)) ∧
    ((∀ name ∈ first.names, '\n' ∉ name.toList) →
      (∀ name ∈ second.names, '\n' ∉ name.toList) →
      ∀ analysis other : Analysis, analysis.tree = first → other.tree = second →
        readText? (text analysis) = some first ∧
          (text analysis = text other → first = second)) := by
  constructor
  · intro indent hindent
    have hread := readListing?_listing hfirst hindent
    refine ⟨hread, ?_⟩
    intro hsame
    rw [hsame, readListing?_listing hsecond hindent] at hread
    exact (Option.some.inj hread).symm
  · rintro hlines hotherLines analysis other rfl rfl
    have hread := readText?_text hfirst hlines
    refine ⟨hread, ?_⟩
    intro hsame
    rw [hsame, readText?_text hsecond hotherLines] at hread
    exact (Option.some.inj hread).symm

/-- Names that look like indentation, like a dash, like nothing at all and like the mark
without its space. -/
def deceptive : CallTree :=
  .node "  - a" true [.leaf "" true, .node "(Uses EXEC SQL)" false [.leaf "- b" false]]

/-- The same names and flags in the same order, two of them at other depths. -/
def regrouped : CallTree :=
  .node "  - a" true [.node "" true [.leaf "(Uses EXEC SQL)" false], .leaf "- b" false]

theorem listing_determines_tree_deceptive :
    HasPlainNames deceptive ∧ HasPlainNames regrouped ∧
      readListing? 3 (listing deceptive 3) = some deceptive ∧
      listing deceptive 3 ≠ listing regrouped 3 ∧
      readText? (text ⟨"  - a", none, 0, true, deceptive⟩) = some deceptive := by
  have hdeceptive : HasPlainNames deceptive := by
    unfold HasPlainNames
    decide +kernel
  have hregrouped : HasPlainNames regrouped := by
    unfold HasPlainNames
    decide +kernel
  obtain ⟨hlisting, htext⟩ := listing_determines_tree deceptive regrouped hdeceptive hregrouped
  obtain ⟨hread, hsame⟩ := hlisting 3 (by decide)
  refine ⟨hdeceptive, hregrouped, hread, ?_, ?_⟩
  · intro hequal
    cases hsame hequal
  · exact (htext (by decide +kernel) (by decide +kernel) _ ⟨"  - a", none, 0, true, regrouped⟩
      rfl rfl).1

end SqlReach.Report
