import SqlReach.Proofs.Json.RoundTrip
import SqlReach.Report.Json

/-!
# The text of the JSON report

The JSON report is written by a loop that keeps closing brackets, indentation and
trees in one list of pieces.  The text it produces is the indented form of the
analysis as a JSON value.  Hence the report of every analysis is a JSON text, and
reading it gives that value back.
-/

namespace SqlReach

namespace Report

open SqlReach.Json

/-- The text that a pending piece stands for. -/
def Piece.render : Piece → String
  | text content => content
  | subtree lead tree column ending => lead ++ tree.toJson.prettyAt column ++ ending

def Piece.renderAll (pieces : List Piece) : String :=
  String.join (pieces.map Piece.render)

@[simp]
theorem Piece.renderAll_nil : renderAll [] = "" := rfl

@[simp]
theorem Piece.renderAll_cons (piece : Piece) (pieces : List Piece) :
    renderAll (piece :: pieces) = piece.render ++ renderAll pieces := by
  simp [renderAll]

@[simp]
theorem Piece.renderAll_append (left right : List Piece) :
    renderAll (left ++ right) = renderAll left ++ renderAll right := by
  simp [renderAll]

theorem newline_eq (column : Nat) : newline column = "\n" ++ spaces column := rfl

/-- The children of a node, behind a line break, are the items of an array. -/
theorem renderAll_childPieces (column : Nat) (child : CallTree) (children : List CallTree) :
    "\n" ++ Piece.renderAll (childPieces column (child :: children)) =
      newline column ++ child.toJson.prettyAt column ++
        prettyItems column (CallTree.toJsonAll children) ++ "\n" := by
  induction children generalizing child with
  | nil =>
      simp [childPieces, Piece.render, CallTree.toJsonAll, prettyItems, newline_eq,
        String.append_assoc]
  | cons next children ih =>
      calc
        "\n" ++ Piece.renderAll (childPieces column (child :: next :: children)) =
            newline column ++ child.toJson.prettyAt column ++ "," ++
              ("\n" ++ Piece.renderAll (childPieces column (next :: children))) := by
          apply String.toList_inj.mp
          simp [childPieces, Piece.render, newline_eq]
        _ = newline column ++ child.toJson.prettyAt column ++
              prettyItems column (CallTree.toJsonAll (next :: children)) ++ "\n" := by
          rw [ih next]
          simp [CallTree.toJsonAll, prettyItems, String.append_assoc]

theorem nodeHead_eq (column : Nat) (tree : CallTree) :
    nodeHead column tree =
      "\x7b\n" ++ spaces (column + 2) ++ "\"name\": " ++ quote plainAscii tree.name ++ ",\n" ++
        spaces (column + 2) ++ "\"uses_sql\": " ++ boolText tree.usesSql ++ ",\n" ++
        spaces (column + 2) ++ "\"children\": [" := rfl

section Node

variable (column : Nat) (name : String) (usesSql : Bool)

theorem quote_keys : quote plainAscii "name" = "\"name\"" ∧
    quote plainAscii "uses_sql" = "\"uses_sql\"" ∧
    quote plainAscii "children" = "\"children\"" :=
  ⟨rfl, rfl, rfl⟩

/-- A node without children stands between its head and the closing brackets. -/
theorem prettyAt_leaf :
    (CallTree.node name usesSql []).toJson.prettyAt column =
      nodeHead column (.node name usesSql []) ++ "]\n" ++ spaces column ++ "\x7d" := by
  obtain ⟨hname, hsql, hchildren⟩ := quote_keys
  apply String.toList_inj.mp
  simp [CallTree.toJson, CallTree.toJsonAll, prettyAt, prettyMembers, nodeHead_eq, newline_eq,
    CallTree.name, CallTree.usesSql, hname, hsql, hchildren]

/-- A node with children has them on lines of their own. -/
theorem prettyAt_node (child : CallTree) (children : List CallTree) :
    (CallTree.node name usesSql (child :: children)).toJson.prettyAt column =
      nodeHead column (.node name usesSql (child :: children)) ++
        ("\n" ++ Piece.renderAll (childPieces (column + 4) (child :: children))) ++
        spaces (column + 2) ++ "]\n" ++ spaces column ++ "\x7d" := by
  obtain ⟨hname, hsql, hchildren⟩ := quote_keys
  rw [renderAll_childPieces]
  apply String.toList_inj.mp
  simp [CallTree.toJson, CallTree.toJsonAll, prettyAt, prettyMembers, nodeHead_eq, newline_eq,
    CallTree.name, CallTree.usesSql, hname, hsql, hchildren]

end Node

/-- Writing appends the texts of the pieces in their order. -/
theorem write_eq (pieces : List Piece) (written : String) :
    write pieces written = written ++ Piece.renderAll pieces := by
  fun_induction write pieces written with
  | case1 written => simp
  | case2 written content rest ih =>
      rw [ih, Piece.renderAll_cons, Piece.render, String.append_assoc]
  | case3 written lead tree column ending rest hchildren ih =>
      obtain ⟨name, usesSql, children⟩ := tree
      obtain rfl : children = [] := hchildren
      rw [ih, Piece.renderAll_cons, Piece.render, prettyAt_leaf]
      simp only [String.append_assoc]
  | case4 written lead tree column ending rest child children hchildren ih =>
      obtain ⟨name, usesSql, others⟩ := tree
      obtain rfl : others = child :: children := hchildren
      rw [ih, Piece.renderAll_cons, Piece.render, prettyAt_node, Piece.renderAll_append,
        Piece.renderAll_cons, Piece.render]
      simp only [String.append_assoc]

/-- The report is the indented form of the analysis. -/
theorem json_eq_pretty (analysis : Analysis) : json analysis = analysis.toJson.pretty := by
  have hstart : quote plainAscii "start" = "\"start\"" := rfl
  have hsource : quote plainAscii "source" = "\"source\"" := rfl
  have hsections : quote plainAscii "sections" = "\"sections\"" := rfl
  have hsql : quote plainAscii "uses_sql" = "\"uses_sql\"" := rfl
  have htree : quote plainAscii "tree" = "\"tree\"" := rfl
  rw [json, write_eq]
  apply String.toList_inj.mp
  simp [Piece.render, Analysis.verdictMembers, memberLine, Analysis.toJson, pretty, prettyAt,
    prettyMembers, newline, hstart, hsource, hsections, hsql, htree]

end Report

/-! ## Analyses as JSON values -/

mutual

theorem CallTree.isIntegral_toJson (tree : CallTree) : tree.toJson.IsIntegral := by
  cases tree with
  | node name usesSql children =>
      exact ⟨trivial, trivial, CallTree.areIntegral_toJsonAll children, trivial⟩

theorem CallTree.areIntegral_toJsonAll (trees : List CallTree) :
    Json.AreIntegral (CallTree.toJsonAll trees) := by
  cases trees with
  | nil => exact trivial
  | cons tree trees => exact ⟨tree.isIntegral_toJson, CallTree.areIntegral_toJsonAll trees⟩

end

theorem Analysis.isIntegral_toJson (analysis : Analysis) : analysis.toJson.IsIntegral := by
  have hsource : (sourceJson analysis.source).IsIntegral := by
    cases analysis.source <;> exact trivial
  exact ⟨trivial, hsource, trivial, trivial, analysis.tree.isIntegral_toJson, trivial⟩

mutual

/-- Names, flags and children of a tree can be recovered from its JSON value. -/
theorem CallTree.toJson_injective {left right : CallTree} (heq : left.toJson = right.toJson) :
    left = right := by
  cases left with
  | node leftName leftSql leftChildren =>
      cases right with
      | node rightName rightSql rightChildren =>
          simp only [CallTree.toJson, Json.object.injEq, List.cons.injEq, Prod.mk.injEq,
            Json.string.injEq, Json.bool.injEq, Json.array.injEq, true_and, and_true] at heq
          obtain ⟨rfl, rfl, hchildren⟩ := heq
          rw [CallTree.toJsonAll_injective hchildren]

theorem CallTree.toJsonAll_injective {left right : List CallTree}
    (heq : CallTree.toJsonAll left = CallTree.toJsonAll right) : left = right := by
  cases left with
  | nil =>
      cases right with
      | nil => rfl
      | cons tree trees => cases heq
  | cons leftTree leftTrees =>
      cases right with
      | nil => cases heq
      | cons rightTree rightTrees =>
          simp only [CallTree.toJsonAll, List.cons.injEq] at heq
          rw [CallTree.toJson_injective heq.1, CallTree.toJsonAll_injective heq.2]

end

theorem sourceJson_injective {left right : Option String}
    (heq : sourceJson left = sourceJson right) : left = right := by
  cases left <;> cases right <;> simp_all [sourceJson]

/-- Start, source, sections, verdict and tree can be recovered from the JSON value
of an analysis. -/
theorem Analysis.toJson_injective {left right : Analysis} (heq : left.toJson = right.toJson) :
    left = right := by
  obtain ⟨leftStart, leftSource, leftSections, leftSql, leftTree⟩ := left
  obtain ⟨rightStart, rightSource, rightSections, rightSql, rightTree⟩ := right
  simp only [Analysis.toJson, Analysis.verdictMembers, List.cons_append, List.nil_append,
    Json.object.injEq, List.cons.injEq, Prod.mk.injEq, Json.string.injEq, Json.integer.injEq,
    Json.bool.injEq, true_and, and_true] at heq
  obtain ⟨rfl, hsource, rfl, rfl, htree⟩ := heq
  rw [sourceJson_injective hsource, CallTree.toJson_injective htree]

/-- A report is refused only where the number of sections has more digits than the
machine writes. -/
theorem Report.json?_cases (limit : Option Nat) (analysis : Analysis) :
    (Report.json? limit analysis = .ok (Report.json analysis) ∧
        ∀ digits ∈ limit, analysis.sections.natAbs < 10 ^ digits) ∨
      ∃ digits ∈ limit, 10 ^ digits ≤ analysis.sections.natAbs ∧
        Report.json? limit analysis = .error (.tooManyDigits digits) := by
  cases limit with
  | none => exact Or.inl ⟨rfl, nofun⟩
  | some limit =>
      by_cases hlong : 10 ^ limit ≤ analysis.sections.natAbs
      · exact Or.inr ⟨limit, rfl, hlong, if_pos hlong⟩
      · refine Or.inl ⟨if_neg hlong, ?_⟩
        rintro digits ⟨⟩
        exact Nat.not_le.mp hlong

end SqlReach
