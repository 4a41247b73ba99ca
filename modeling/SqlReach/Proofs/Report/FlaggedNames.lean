import SqlReach.Command
import SqlReach.Proofs.Report.JsonText
import SqlReach.Proofs.Report.ListingText
import SqlReach.Proofs.Scanner.Image

/-!
# The names that a report flags

The three reports say in three ways which paragraphs use SQL: by a mark at the end of
a line, by a member of a JSON object, and by the class of a box.  This module reads
the flagged names back from each of them and proves that all three flag the names in
the tree whose paragraphs use SQL, the same ones from which the verdict is made.  The
listing can be read back because no name holds a blank or a bracket.
-/

namespace SqlReach

namespace CallTree

/-- The names of the nodes that are flagged, in the order of the nodes. -/
def flaggedNames (tree : CallTree) : List String :=
  (tree.nodes.filter usesSql).map name

def flaggedNamesAll (trees : List CallTree) : List String :=
  ((nodesAll trees).filter usesSql).map name

theorem flaggedNames_node (name : String) (usesSql : Bool) (children : List CallTree) :
    (node name usesSql children).flaggedNames =
      (if usesSql then [name] else []) ++ flaggedNamesAll children := by
  cases usesSql <;> rfl

theorem flaggedNamesAll_cons (tree : CallTree) (trees : List CallTree) :
    flaggedNamesAll (tree :: trees) = tree.flaggedNames ++ flaggedNamesAll trees := by
  simp [flaggedNamesAll, flaggedNames, nodesAll]

theorem mem_flaggedNames {tree : CallTree} {name : String} :
    name ∈ tree.flaggedNames ↔ ∃ found ∈ tree.nodes, found.usesSql = true ∧ found.name = name := by
  simp only [flaggedNames, List.mem_map, List.mem_filter, and_assoc]

end CallTree

namespace Report

/-! ## The listing -/

/-- The name on a line that ends with the mark. -/
def markedName? (line : String) : Option String :=
  (Flowchart.between? "- ".toList sqlMark.toList (line.toList.dropWhile (· == ' '))).map
    String.ofList

/-- The names on the marked lines of a listing. -/
def namesMarkedInText (report : String) : List String :=
  (Scanner.linesOf report).filterMap markedName?

/-- The mark holds a bracket, which no name does. -/
theorem sqlMark_not_suffix {name : List Char}
    (hname : ∀ char ∈ name, Line.isNameChar char = true) : ¬ sqlMark.toList <:+ name := by
  intro hsuffix
  have hbracket : ')' ∈ name := hsuffix.subset (by decide)
  exact absurd (hname ')' hbracket) (by decide)

theorem markedName?_listingLine {row : Row}
    (hname : ∀ char ∈ row.name.toList, Line.isNameChar char = true) :
    markedName? (listingLine 0 row) = if row.usesSql then some row.name else none := by
  rw [markedName?, dropWhile_listingLine, between?_sqlMark (sqlMark_not_suffix hname)]
  split
  · rw [Option.map_some, String.ofList_toList]
  · rfl

theorem flaggedNames_eq_filterMap_rows (tree : CallTree) :
    tree.flaggedNames =
      tree.rows.filterMap fun row => if row.usesSql then some row.name else none := by
  have hrows : (tree.rows.filterMap fun row => if row.usesSql then some row.name else none) =
      (tree.walk.map (·.tree)).filterMap fun found =>
        if found.usesSql then some found.name else none := by
    rw [CallTree.rows, List.filterMap_map, List.filterMap_map]
    rfl
  rw [hrows, CallTree.map_tree_walk, CallTree.flaggedNames, ← List.filterMap_eq_map,
    List.filterMap_filter]
  rfl

theorem namesMarkedInText_text {analysis : Analysis}
    (hnames : ∀ name ∈ analysis.tree.names, ∀ char ∈ name.toList,
      Line.isNameChar char = true) :
    namesMarkedInText (text analysis) = analysis.tree.flaggedNames := by
  have htitle : markedName? "PERFORM Call Tree:" = none := by decide +kernel
  have hlines : Scanner.linesOf (text analysis) =
      "PERFORM Call Tree:" :: listing analysis.tree 0 := by
    apply linesOf_text
    intro name hname
    exact Line.newline_not_mem_of_isNameChar (hnames name hname)
  rw [namesMarkedInText, hlines, List.filterMap_cons, htitle, flaggedNames_eq_filterMap_rows,
    listing, List.filterMap_map]
  apply List.filterMap_congr
  intro row hrow
  rw [Function.comp_apply, markedName?_listingLine (hnames _ (mem_names_of_mem_rows hrow))]

/-! ## The JSON report -/

/-- The name of a JSON object with the flag. -/
def flaggedName (members : List (String × Json)) : List String :=
  match members.lookup "name", members.lookup "uses_sql" with
  | some (.string name), some (.bool true) => [name]
  | _, _ => []

mutual

/-- The flagged names in a tree of JSON objects that hold one another as children. -/
def namesFlaggedIn : Json → List String
  | .array items => namesFlaggedInItems items
  | .object members => flaggedName members ++ namesFlaggedInMembers members
  | _ => []

def namesFlaggedInItems : List Json → List String
  | [] => []
  | item :: items => namesFlaggedIn item ++ namesFlaggedInItems items

def namesFlaggedInMembers : List (String × Json) → List String
  | [] => []
  | (key, value) :: members =>
      (if key = "children" then namesFlaggedIn value else []) ++ namesFlaggedInMembers members

end

mutual

theorem namesFlaggedIn_toJson (tree : CallTree) :
    namesFlaggedIn tree.toJson = tree.flaggedNames := by
  cases tree with
  | node name usesSql children =>
      have hmembers : namesFlaggedInMembers [("name", .string name), ("uses_sql", .bool usesSql),
          ("children", .array (CallTree.toJsonAll children))] =
            CallTree.flaggedNamesAll children := by
        simp [namesFlaggedInMembers, namesFlaggedIn, namesFlaggedInItems_toJsonAll children]
      have hown : flaggedName [("name", .string name), ("uses_sql", .bool usesSql),
          ("children", .array (CallTree.toJsonAll children))] =
            if usesSql then [name] else [] := by
        cases usesSql <;> rfl
      rw [CallTree.toJson, namesFlaggedIn, hmembers, hown, CallTree.flaggedNames_node]

theorem namesFlaggedInItems_toJsonAll (trees : List CallTree) :
    namesFlaggedInItems (CallTree.toJsonAll trees) = CallTree.flaggedNamesAll trees := by
  cases trees with
  | nil => rfl
  | cons tree trees =>
      rw [CallTree.toJsonAll, namesFlaggedInItems, namesFlaggedIn_toJson,
        namesFlaggedInItems_toJsonAll, CallTree.flaggedNamesAll_cons]

end

/-- The flagged names in the tree of a JSON report. -/
def namesFlaggedInJson? (report : String) : Option (List String) :=
  ((Json.parse? report).bind (Json.member? "tree")).map namesFlaggedIn

theorem parse?_json (analysis : Analysis) :
    Json.parse? (json analysis) = some analysis.toJson := by
  rw [json_eq_pretty, Json.parse?_pretty analysis.isIntegral_toJson]

theorem namesFlaggedInJson?_json (analysis : Analysis) :
    namesFlaggedInJson? (json analysis) = some analysis.tree.flaggedNames := by
  have htree : Json.member? "tree" analysis.toJson = some analysis.tree.toJson := rfl
  rw [namesFlaggedInJson?, parse?_json, Option.bind_some, htree, Option.map_some,
    namesFlaggedIn_toJson]

end Report

/-! ## The flowchart -/

namespace Flowchart

def Statement.marks : Statement → List String
  | mark ids => ids
  | _ => []

/-- The label of a box with one of the given ids. -/
def Statement.labelOf? (ids : List String) : Statement → Option String
  | label id name => if id ∈ ids then some name else none
  | _ => none

/-- The labels of the boxes that are marked. -/
def namesMarkedIn (statements : List Statement) : List String :=
  statements.filterMap (Statement.labelOf? (statements.flatMap Statement.marks))

theorem flatMap_marks_statements (drawing : Drawing) :
    drawing.statements.flatMap Statement.marks = drawing.marked := by
  have hunmarked : ∀ {α : Type} (items : List α) (statement : α → Statement),
      (∀ item, (statement item).marks = []) →
        (items.map statement).flatMap Statement.marks = [] := by
    intro α items statement hnone
    rw [List.flatMap_map, List.flatMap_eq_nil_iff]
    exact fun item _ => hnone item
  rw [Drawing.statements, List.flatMap_append, List.flatMap_append, hunmarked _ _ fun _ => rfl,
    hunmarked _ _ fun _ => rfl]
  split
  · rename_i hnone
    simp [hnone]
  · simp [Statement.marks]

theorem label_mem_statements {drawing : Drawing} {id name : String} :
    .label id name ∈ drawing.statements ↔ (id, name) ∈ drawing.labels := by
  have hmarks : Statement.label id name ∉
      if drawing.marked = [] then [] else [.style, .mark drawing.marked] := by
    split <;> simp
  simp [Drawing.statements, hmarks]

theorem mem_namesMarkedIn_statements {drawing : Drawing} {name : String} :
    name ∈ namesMarkedIn drawing.statements ↔
      ∃ id ∈ drawing.marked, (id, name) ∈ drawing.labels := by
  rw [namesMarkedIn, flatMap_marks_statements, List.mem_filterMap]
  constructor
  · rintro ⟨statement, hstatement, hlabel⟩
    cases statement with
    | label id labelled =>
        simp only [Statement.labelOf?, Option.ite_none_right_eq_some, Option.some.injEq] at hlabel
        obtain ⟨hmarked, rfl⟩ := hlabel
        exact ⟨id, hmarked, label_mem_statements.mp hstatement⟩
    | join caller callee => cases hlabel
    | style => cases hlabel
    | mark ids => cases hlabel
  · rintro ⟨id, hmarked, hlabel⟩
    refine ⟨.label id name, label_mem_statements.mpr hlabel, ?_⟩
    simp [Statement.labelOf?, hmarked]

/-- Ids and labels lead back to the flagged names of the tree. -/
theorem mem_namesMarkedIn_ofTree {tree : CallTree} {name : String} :
    name ∈ namesMarkedIn (ofTree tree).drawing.statements ↔ name ∈ tree.flaggedNames := by
  rw [mem_namesMarkedIn_statements, CallTree.mem_flaggedNames, ← mem_flagged_ofTree]
  constructor
  · rintro ⟨id, hmarked, hlabel⟩
    obtain ⟨hname, rfl⟩ := mem_labels_drawing.mp hlabel
    obtain ⟨known, -, hflagged, hid⟩ := mem_marked_drawing.mp hmarked
    rw [eq_comm, nodeId_inj hname] at hid
    exact hid ▸ hflagged
  · intro hflagged
    have hname : name ∈ (ofTree tree).names := by
      rw [mem_names_ofTree, CallTree.names]
      obtain ⟨found, hfound, -, hfoundName⟩ := mem_flagged_ofTree.mp hflagged
      exact List.mem_map.mpr ⟨found, hfound, hfoundName⟩
    exact ⟨(ofTree tree).nodeId name, mem_marked_drawing.mpr ⟨name, hname, hflagged, rfl⟩,
      mem_labels_drawing.mpr ⟨hname, rfl⟩⟩

end Flowchart

/-! ## All three -/

/-- Reads the names that a report flags. -/
def Report.namesFlagged? : Format → String → Option (List String)
  | .text, report => some (namesMarkedInText report)
  | .json, report => namesFlaggedInJson? report
  | .mermaid, report => (Flowchart.read? report).map Flowchart.namesMarkedIn

/-- The report can be read in every format, and it flags the flagged nodes of the tree. -/
theorem Report.exists_namesFlagged? {analysis : Analysis}
    (hnames : ∀ name ∈ analysis.tree.names, ∀ char ∈ name.toList,
      Line.isNameChar char = true) (format : Format) :
    ∃ names, namesFlagged? format (Command.render format analysis) = some names ∧
      ∀ name, name ∈ names ↔ name ∈ analysis.tree.flaggedNames := by
  cases format with
  | text =>
      refine ⟨analysis.tree.flaggedNames, ?_, fun _ => Iff.rfl⟩
      exact congrArg some (namesMarkedInText_text hnames)
  | json => exact ⟨analysis.tree.flaggedNames, namesFlaggedInJson?_json analysis, fun _ => Iff.rfl⟩
  | mermaid =>
      have hread : Flowchart.read? (flowchart analysis) =
          some (Flowchart.ofTree analysis.tree).drawing.statements := by
        apply Flowchart.read?_lines
        intro name hname
        exact Line.newline_not_mem_of_isNameChar
          (hnames name (Flowchart.mem_names_ofTree.mp hname))
      refine ⟨_, congrArg (Option.map Flowchart.namesMarkedIn) hread, ?_⟩
      intro name
      exact Flowchart.mem_namesMarkedIn_ofTree

/-- Whatever a program calls is a name, so every name within reach of a name is one. -/
theorem isNameChar_of_reaches {text start name : String}
    (hstart : ∀ char ∈ start.toList, Line.isNameChar char = true)
    (hreaches : (scan text).Reaches start name) :
    ∀ char ∈ name.toList, Line.isNameChar char = true := by
  cases hreaches with
  | refl => exact hstart
  | step reached called =>
      rw [scan_eq_outline] at called
      exact (Outline.isName_of_called called).2

/-- Every report of an analysis can be read back, and all of them flag the names in
the tree whose paragraphs use SQL.  There are such names if and only if the verdict is
positive, and the JSON report says so in its own words. -/
theorem reports_flag_names_using_sql (text start : String) (source : Option String)
    (hstart : ∀ char ∈ start.toList, Line.isNameChar char = true) :
    let analysis := analyze text start source
    (∀ format, ∃ names,
      Report.namesFlagged? format (Command.render format analysis) = some names ∧
        ∀ name, name ∈ names ↔ name ∈ analysis.tree.names ∧ (scan text).usesSql name = true) ∧
    ((∃ name, name ∈ analysis.tree.names ∧ (scan text).usesSql name = true) ↔
      analysis.usesSql = true) ∧
    (Json.parse? (Report.json analysis)).bind (Json.member? "uses_sql") =
      some (.bool analysis.usesSql) := by
  intro analysis
  have hexpands := Expansion.expands_expand (scan text) start []
  have hnames : ∀ name ∈ analysis.tree.names, ∀ char ∈ name.toList,
      Line.isNameChar char = true := by
    intro name hname
    exact isNameChar_of_reaches hstart (hexpands.mem_names_iff_reaches.mp hname)
  refine ⟨?_, ?_, ?_⟩
  · intro format
    obtain ⟨names, hread, hmem⟩ := Report.exists_namesFlagged? hnames format
    refine ⟨names, hread, ?_⟩
    intro name
    rw [hmem, CallTree.mem_flaggedNames]
    exact hexpands.exists_flagged_iff
  · exact hexpands.containsSql_iff.symm
  · rw [Report.parse?_json]
    rfl

/-- A paragraph with SQL that is called twice, so that it is drawn once and listed twice. -/
theorem reports_flag_names_using_sql_twice :
    let text := "100-A.\n PERFORM 200-B\n PERFORM 200-B\n200-B.\n EXEC SQL"
    let analysis := analyze text "100-A" none
    (∀ char ∈ "100-A".toList, Line.isNameChar char = true) ∧
      (∀ format, ∃ names,
        Report.namesFlagged? format (Command.render format analysis) = some names ∧
          ∀ name, name ∈ names ↔ name ∈ analysis.tree.names ∧ (scan text).usesSql name = true) ∧
      analysis.tree.names = ["100-A", "200-B", "200-B"] ∧ (scan text).usesSql "200-B" = true := by
  intro text analysis
  have hstart : ∀ char ∈ "100-A".toList, Line.isNameChar char = true :=
    List.all_eq_true.mp (by decide)
  obtain ⟨hreports, -⟩ := reports_flag_names_using_sql text "100-A" none hstart
  refine ⟨hstart, hreports, ?_, ?_⟩
  · decide +kernel
  · decide +kernel

end SqlReach
