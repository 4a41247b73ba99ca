import SqlReach.Proofs.Report.JsonText
import SqlReach.Proofs.Scanner.Lines

/-!
# The layout of the JSON report

The JSON report is laid out on lines.  The members of an object stand two columns to the
right of its brackets, and so do the items of an array, so a child stands four columns to
the right of its parent.  Every member and every item is followed by a comma, except the
last one, and a list without items is closed on the line on which it is opened.  This
module writes the lines of a report down in that way, node by node, and proves that the
report consists of them.
-/

namespace SqlReach

open SqlReach.Json SqlReach.Report

/-! ## The lines of a report -/

mutual

/-- The lines of a node.  Its brackets are in the given column, with `lead` before the
opening one and `ending` behind the closing one. -/
def CallTree.objectLines (lead : String) (column : Nat) (ending : String) :
    CallTree → List String
  | .node name usesSql children =>
      [lead ++ "\x7b",
        spaces (column + 2) ++ "\"name\": " ++ quote plainAscii name ++ ",",
        spaces (column + 2) ++ "\"uses_sql\": " ++ boolText usesSql ++ ","] ++
        (if children.isEmpty then [spaces (column + 2) ++ "\"children\": []"]
        else
          [spaces (column + 2) ++ "\"children\": ["] ++ CallTree.itemLines (column + 4) children ++
            [spaces (column + 2) ++ "]"]) ++
        [spaces column ++ "\x7d" ++ ending]

/-- The lines of the children of a node. -/
def CallTree.itemLines (column : Nat) : List CallTree → List String
  | [] => []
  | tree :: trees =>
      tree.objectLines (spaces column) column (if trees.isEmpty then "" else ",") ++
        CallTree.itemLines column trees

end

def Analysis.sourceText (analysis : Analysis) : String :=
  match analysis.source with
  | some source => quote plainAscii source
  | none => "null"

/-- The lines of the members before the tree. -/
def Analysis.verdictLines (analysis : Analysis) : List String :=
  ["  \"start\": " ++ quote plainAscii analysis.start ++ ",",
    "  \"source\": " ++ analysis.sourceText ++ ",",
    "  \"sections\": " ++ toString analysis.sections ++ ",",
    "  \"uses_sql\": " ++ boolText analysis.usesSql ++ ","]

/-- The lines of the report of an analysis. -/
def Analysis.reportLines (analysis : Analysis) : List String :=
  "\x7b" :: (analysis.verdictLines ++ analysis.tree.objectLines "  \"tree\": " 2 "" ++ ["\x7d"])

namespace Report

/-! ## The text of some lines -/

/-- The lines, each behind a line feed. -/
def broken (lines : List String) : String :=
  String.join (lines.map ("\n" ++ ·))

@[simp]
theorem broken_nil : broken [] = "" := rfl

@[simp]
theorem broken_cons (line : String) (lines : List String) :
    broken (line :: lines) = "\n" ++ line ++ broken lines := by
  simp [broken]

@[simp]
theorem broken_append (left right : List String) :
    broken (left ++ right) = broken left ++ broken right := by
  simp [broken]

theorem intercalate_eq_append_broken (line : String) (lines : List String) :
    "\n".intercalate (line :: lines) = line ++ broken lines := by
  induction lines generalizing line with
  | nil => simp
  | cons next lines ih =>
      rw [String.intercalate_cons_cons, ih next, broken_cons]
      simp only [String.append_assoc]

/-! ## The lines of a tree -/

section Node

variable (lead : String) (column : Nat) (ending name : String) (usesSql : Bool)

theorem broken_objectLines_leaf :
    broken ((CallTree.node name usesSql []).objectLines lead column ending) =
      "\n" ++ lead ++ (CallTree.node name usesSql []).toJson.prettyAt column ++ ending := by
  obtain ⟨hname, hsql, hchildren⟩ := quote_keys
  apply String.toList_inj.mp
  simp [CallTree.objectLines, CallTree.toJson, CallTree.toJsonAll, prettyAt, prettyMembers,
    newline_eq, hname, hsql, hchildren]

/-- The lines of a node with children, once the lines of the children are known. -/
theorem broken_objectLines_node {child : CallTree} {children : List CallTree}
    (hitems : broken (CallTree.itemLines (column + 4) (child :: children)) =
      newline (column + 4) ++ child.toJson.prettyAt (column + 4) ++
        prettyItems (column + 4) (CallTree.toJsonAll children)) :
    broken ((CallTree.node name usesSql (child :: children)).objectLines lead column ending) =
      "\n" ++ lead ++ (CallTree.node name usesSql (child :: children)).toJson.prettyAt column ++
        ending := by
  obtain ⟨hname, hsql, hchildren⟩ := quote_keys
  rw [CallTree.objectLines]
  simp only [List.isEmpty_cons, Bool.false_eq_true, if_false, broken_append, hitems]
  apply String.toList_inj.mp
  simp [CallTree.toJson, CallTree.toJsonAll, prettyAt, prettyMembers, newline_eq, hname, hsql,
    hchildren]

end Node

mutual

/-- The lines of a node are its indented text, cut at the line feeds. -/
theorem broken_objectLines (lead : String) (column : Nat) (ending : String) (tree : CallTree) :
    broken (tree.objectLines lead column ending) =
      "\n" ++ lead ++ tree.toJson.prettyAt column ++ ending := by
  cases tree with
  | node name usesSql children =>
      cases children with
      | nil => exact broken_objectLines_leaf lead column ending name usesSql
      | cons child children =>
          apply broken_objectLines_node
          rw [CallTree.itemLines, broken_append, broken_objectLines, prettyItems_toJsonAll,
            newline_eq]
          simp only [String.append_assoc]

/-- The same for the items of an array behind its first one, with the comma in front of
them moved to the line before. -/
theorem prettyItems_toJsonAll (column : Nat) (trees : List CallTree) :
    prettyItems column (CallTree.toJsonAll trees) =
      (if trees.isEmpty then "" else ",") ++ broken (CallTree.itemLines column trees) := by
  cases trees with
  | nil => rfl
  | cons tree trees =>
      rw [CallTree.toJsonAll, prettyItems, CallTree.itemLines, broken_append, broken_objectLines,
        prettyItems_toJsonAll, newline_eq]
      simp [String.append_assoc]

end

/-- The members before the tree stand on one line each. -/
theorem map_memberLine_verdictMembers (analysis : Analysis) :
    analysis.verdictMembers.map memberLine = analysis.verdictLines := by
  have hstart : quote plainAscii "start" = "\"start\"" := rfl
  have hsource : quote plainAscii "source" = "\"source\"" := rfl
  have hsections : quote plainAscii "sections" = "\"sections\"" := rfl
  have hsql : quote plainAscii "uses_sql" = "\"uses_sql\"" := rfl
  have hsourceText : (sourceJson analysis.source).prettyAt 2 = analysis.sourceText := by
    rw [Analysis.sourceText]
    cases analysis.source <;> rfl
  simp only [Analysis.verdictMembers, Analysis.verdictLines, List.map_cons, List.map_nil,
    memberLine, hstart, hsource, hsections, hsql, hsourceText]
  rfl

/-- The report consists of its lines. -/
theorem json_eq_intercalate (analysis : Analysis) :
    json analysis = "\n".intercalate analysis.reportLines := by
  calc
    json analysis =
        "\x7b" ++ broken (analysis.verdictMembers.map memberLine ++
          ["  \"tree\": " ++ write [.subtree "" analysis.tree 2 ""] "", "\x7d"]) :=
      intercalate_eq_append_broken _ _
    _ = "\x7b" ++ broken (analysis.verdictLines ++
          analysis.tree.objectLines "  \"tree\": " 2 "" ++ ["\x7d"]) := by
      rw [map_memberLine_verdictMembers, write_eq]
      simp only [broken_append, broken_cons, broken_nil, broken_objectLines,
        Piece.renderAll_cons, Piece.renderAll_nil, Piece.render, String.append_assoc,
        String.empty_append, String.append_empty]
    _ = "\n".intercalate analysis.reportLines :=
      (intercalate_eq_append_broken _ _).symm

theorem newline_not_mem_spaces (column : Nat) : '\n' ∉ (spaces column).toList := by
  simp [spaces]

end Report

/-! ## The lines hold no line feeds -/

namespace Json

theorem newline_not_mem_boolText (value : Bool) : '\n' ∉ (boolText value).toList := by
  cases value <;> decide

theorem newline_not_mem_toDigits (number : Nat) : '\n' ∉ Nat.toDigits 10 number := by
  intro hmem
  exact absurd (isDigit_toDigits number '\n' hmem) (by decide)

theorem newline_not_mem_repr (value : Int) : '\n' ∉ value.repr.toList := by
  rw [Int.repr_eq_if]
  split
  · rw [Nat.toList_repr]
    exact newline_not_mem_toDigits value.toNat
  · rw [String.toList_append, Nat.toList_repr]
    simpa using newline_not_mem_toDigits (-value).toNat

theorem newline_not_mem_unitEscape {unit : Nat} (hunit : unit < 0x10000) :
    '\n' ∉ (unitEscape unit).toList := by
  obtain ⟨a, b, c, d, hescape, hread⟩ := exists_toList_unitEscape hunit
  have hnone : Text.hexDigit? '\n' = none := by decide
  rw [hescape]
  intro hmem
  simp only [List.mem_cons, List.not_mem_nil, or_false] at hmem
  rcases hmem with hmem | hmem | rfl | rfl | rfl | rfl
  · cases hmem
  · cases hmem
  all_goals simp [Text.ofHexadecimal?, hnone] at hread

theorem newline_not_mem_codeEscape (char : Char) : '\n' ∉ (codeEscape char.toNat).toList := by
  have hvalid : char.toNat < 0xD800 ∨ 0xDFFF < char.toNat ∧ char.toNat < 0x110000 := char.valid
  unfold codeEscape
  split
  · rename_i hsmall
    exact newline_not_mem_unitEscape hsmall
  · rw [String.toList_append, List.mem_append, not_or]
    constructor
    · apply newline_not_mem_unitEscape
      omega
    · apply newline_not_mem_unitEscape
      omega

/-- A line feed inside a string is written as an escape. -/
theorem newline_not_mem_escapeChar (char : Char) :
    '\n' ∉ (escapeChar plainAscii char).toList := by
  have hplain : plainAscii char = true → '\n' ∉ char.toString.toList := by
    intro hascii hmem
    rw [Char.toString_eq_singleton, String.toList_singleton, List.mem_singleton] at hmem
    rw [← hmem] at hascii
    exact absurd hascii (by decide)
  unfold escapeChar
  split_ifs with _ _ _ _ _ _ _ hascii
  iterate 7 decide
  · exact hplain hascii
  · exact newline_not_mem_codeEscape char

theorem newline_not_mem_quote (text : String) : '\n' ∉ (quote plainAscii text).toList := by
  simp [quote, newline_not_mem_escapeChar]

end Json

theorem Analysis.newline_not_mem_sourceText (analysis : Analysis) :
    '\n' ∉ analysis.sourceText.toList := by
  rw [Analysis.sourceText]
  split
  · exact newline_not_mem_quote _
  · decide

mutual

theorem newline_not_mem_objectLines {lead ending : String} (hlead : '\n' ∉ lead.toList)
    (hending : '\n' ∉ ending.toList) (column : Nat) (tree : CallTree) :
    ∀ line ∈ tree.objectLines lead column ending, '\n' ∉ line.toList := by
  cases tree with
  | node name usesSql children =>
      rw [CallTree.objectLines, List.forall_mem_append, List.forall_mem_append,
        List.forall_mem_singleton]
      refine ⟨⟨?_, ?_⟩, ?_⟩
      · simp [hlead, newline_not_mem_spaces, newline_not_mem_quote, newline_not_mem_boolText]
      · split
        · simp [newline_not_mem_spaces]
        · rw [List.forall_mem_append, List.forall_mem_append, List.forall_mem_singleton,
            List.forall_mem_singleton]
          refine ⟨⟨?_, newline_not_mem_itemLines (column + 4) children⟩, ?_⟩
          · simp [newline_not_mem_spaces]
          · simp [newline_not_mem_spaces]
      · simp [hending, newline_not_mem_spaces]

theorem newline_not_mem_itemLines (column : Nat) (trees : List CallTree) :
    ∀ line ∈ CallTree.itemLines column trees, '\n' ∉ line.toList := by
  cases trees with
  | nil =>
      intro line hline
      cases hline
  | cons tree trees =>
      have hending : '\n' ∉ (if trees.isEmpty then "" else ",").toList := by
        split <;> decide
      rw [CallTree.itemLines, List.forall_mem_append]
      exact ⟨newline_not_mem_objectLines (newline_not_mem_spaces column) hending column tree,
        newline_not_mem_itemLines column trees⟩

end

theorem newline_not_mem_reportLines (analysis : Analysis) :
    ∀ line ∈ analysis.reportLines, '\n' ∉ line.toList := by
  have hverdict : ∀ line ∈ analysis.verdictLines, '\n' ∉ line.toList := by
    simp [Analysis.verdictLines, newline_not_mem_quote, analysis.newline_not_mem_sourceText,
      newline_not_mem_repr, newline_not_mem_boolText]
  have htree : ∀ line ∈ analysis.tree.objectLines "  \"tree\": " 2 "", '\n' ∉ line.toList :=
    newline_not_mem_objectLines (by decide) (by decide) 2 analysis.tree
  rw [Analysis.reportLines, List.forall_mem_cons, List.forall_mem_append,
    List.forall_mem_append, List.forall_mem_singleton]
  exact ⟨by decide, ⟨hverdict, htree⟩, by decide⟩

/-- The report is the indented text of the analysis as a JSON value, character by
character.  Its lines are these: a bracket; the start, the source, the number of
paragraphs and the verdict; the tree, in which every child stands four columns to the
right of its parent and is followed by a comma unless it is the last; and a bracket. -/
theorem json_report_lines_eq_layout (analysis : Analysis) :
    Report.json analysis = analysis.toJson.pretty ∧
      Scanner.linesOf (Report.json analysis) = analysis.reportLines := by
  constructor
  · exact Report.json_eq_pretty analysis
  · rw [Report.json_eq_intercalate]
    apply Scanner.linesOf_intercalate (List.cons_ne_nil _ _)
    exact newline_not_mem_reportLines analysis

example :
    (Analysis.mk "A" none 1 true
      (.node "A" false [.leaf "B" true, .leaf "A" false])).reportLines =
    ["\x7b",
      "  \"start\": \"A\",",
      "  \"source\": null,",
      "  \"sections\": 1,",
      "  \"uses_sql\": true,",
      "  \"tree\": \x7b",
      "    \"name\": \"A\",",
      "    \"uses_sql\": false,",
      "    \"children\": [",
      "      \x7b",
      "        \"name\": \"B\",",
      "        \"uses_sql\": true,",
      "        \"children\": []",
      "      \x7d,",
      "      \x7b",
      "        \"name\": \"A\",",
      "        \"uses_sql\": false,",
      "        \"children\": []",
      "      \x7d",
      "    ]",
      "  \x7d",
      "\x7d"] := by
  decide +kernel

end SqlReach
