import Mathlib.Data.List.DropRight
import SqlReach.Proofs.Analysis.Verdict
import SqlReach.Proofs.CallTree.Walk
import SqlReach.Proofs.Json.Numbers
import SqlReach.Proofs.Register
import SqlReach.Proofs.Scanner.Lines
import SqlReach.Proofs.Scanner.Names
import SqlReach.Report.Flowchart

/-!
# The text of the flowchart report

A flowchart is a list of statements, one a line: two boxes are joined, a box gets
its label, or boxes are marked.  This module reads such a text back and proves what
the report of an analysis says.  Although the report is made from a tree in which
most names are cut short, it draws exactly the part of the call graph that lies
within reach of the start, and every box and every arrow of it once.
-/

namespace SqlReach

namespace Flowchart

/-! ## The notation -/

/-- A statement of the notation, in which boxes go by their ids. -/
inductive Statement where
  | join (caller callee : String)
  | label (id name : String)
  /-- Says how the marked boxes look. -/
  | style
  | mark (ids : List String)
deriving DecidableEq

def Statement.line : Statement → String
  | join caller callee => "    " ++ caller ++ " --> " ++ callee ++ ";"
  | label id name => "    " ++ id ++ "([" ++ name ++ "]);"
  | style => "    classDef sql fill:#f96,stroke:#900;"
  | mark ids => "    class " ++ ",".intercalate ids ++ " sql;"

def title : String := "graph TD;"

/-- What stands in a text between a given beginning and a given end. -/
def between? (opening ending text : List Char) : Option (List Char) :=
  if opening.isPrefixOf text && ending.isSuffixOf (text.drop opening.length) then
    some ((text.drop opening.length).rdrop ending.length)
  else none

/-- Reads what stands between the indentation of a line and its semicolon: the
first word decides what kind of statement it is. -/
def statementOf? (text : List Char) : Option Statement :=
  let word := text.takeWhile Char.isAlphanum
  let rest := text.dropWhile Char.isAlphanum
  if word = "classDef".toList then
    if rest = " sql fill:#f96,stroke:#900".toList then some .style else none
  else if word = "class".toList then
    (between? " ".toList " sql".toList rest).map fun ids =>
      .mark ((ids.splitOn ',').map String.ofList)
  else
    match between? " --> ".toList [] rest with
    | some callee =>
        if callee.all Char.isAlphanum then some (.join (String.ofList word) (String.ofList callee))
        else none
    | none =>
        (between? "([".toList "])".toList rest).map fun name =>
          .label (String.ofList word) (String.ofList name)

def statement? (line : String) : Option Statement :=
  (between? "    ".toList ";".toList line.toList).bind statementOf?

/-- The statements of a flowchart. -/
def read? (text : String) : Option (List Statement) :=
  match Scanner.linesOf text with
  | [] => none
  | first :: lines => if first = title then lines.mapM statement? else none

/-! ## Reading a statement back -/

/-- The ids in use: a letter and a number. -/
def IsId (id : String) : Prop :=
  ∃ number : Nat, id = "n" ++ toString number

/-- A statement that keeps to one line. -/
def Statement.IsPlain : Statement → Prop
  | join caller callee => IsId caller ∧ IsId callee
  | label id name => IsId id ∧ '\n' ∉ name.toList
  | style => True
  | mark ids => ids ≠ [] ∧ ∀ id ∈ ids, IsId id

theorem between?_append (opening middle ending : List Char) :
    between? opening ending (opening ++ (middle ++ ending)) = some middle := by
  have hopening : opening.isPrefixOf (opening ++ (middle ++ ending)) = true := by
    simp [List.isPrefixOf_iff_prefix]
  have hending : ending.isSuffixOf (middle ++ ending) = true := by
    simp [List.isSuffixOf_iff_suffix]
  rw [between?, List.drop_left, hopening, hending, List.rdrop_append_length]
  rfl

theorem IsId.exists_toList {id : String} (hid : IsId id) :
    ∃ digits : List Char, id.toList = 'n' :: digits ∧ ∀ char ∈ digits, char.isDigit = true := by
  obtain ⟨number, rfl⟩ := hid
  refine ⟨Nat.toDigits 10 number, ?_, Json.isDigit_toDigits number⟩
  rw [Nat.toString_eq_repr, String.toList_append, Nat.toList_repr]
  rfl

theorem IsId.isAlphanum {id : String} (hid : IsId id) :
    ∀ char ∈ id.toList, char.isAlphanum = true := by
  obtain ⟨digits, htoList, hdigits⟩ := hid.exists_toList
  intro char hchar
  rw [htoList, List.mem_cons] at hchar
  rcases hchar with rfl | hchar
  · rfl
  · simp [Char.isAlphanum, hdigits char hchar]

/-- No word of the notation is an id, and an id is read up to its end. -/
theorem statementOf?_id {id : String} (hid : IsId id) {rest : List Char}
    (hrest : ∀ char ∈ rest.head?, char.isAlphanum = false) :
    statementOf? (id.toList ++ rest) =
      match between? " --> ".toList [] rest with
      | some callee =>
          if callee.all Char.isAlphanum then some (.join id (String.ofList callee)) else none
      | none => (between? "([".toList "])".toList rest).map fun name =>
          .label id (String.ofList name) := by
  have hword : (id.toList ++ rest).takeWhile Char.isAlphanum = id.toList := by
    rw [List.takeWhile_append_of_pos hid.isAlphanum]
    cases rest with
    | nil => simp
    | cons first later => simp [hrest first rfl]
  have htail : (id.toList ++ rest).dropWhile Char.isAlphanum = rest := by
    rw [List.dropWhile_append_of_pos hid.isAlphanum]
    cases rest with
    | nil => rfl
    | cons first later => simp [hrest first rfl]
  obtain ⟨digits, htoList, -⟩ := hid.exists_toList
  have hdefinition : id.toList ≠ "classDef".toList := by simp [htoList]
  have hclass : id.toList ≠ "class".toList := by simp [htoList]
  rw [statementOf?, hword, htail, if_neg hdefinition, if_neg hclass, String.ofList_toList]

theorem statement?_of_toList {line : String} {text : List Char}
    (hline : line.toList = "    ".toList ++ (text ++ ";".toList)) :
    statement? line = statementOf? text := by
  rw [statement?, hline, between?_append]
  rfl

theorem statement?_join {caller callee : String} (hcaller : IsId caller) (hcallee : IsId callee) :
    statement? (Statement.join caller callee).line = some (.join caller callee) := by
  have hline : (Statement.join caller callee).line.toList =
      "    ".toList ++
        ((caller.toList ++ (" --> ".toList ++ (callee.toList ++ []))) ++ ";".toList) := by
    simp [Statement.line]
  rw [statement?_of_toList hline, statementOf?_id hcaller (by simp), between?_append]
  have hall : callee.toList.all Char.isAlphanum = true := by
    simpa using hcallee.isAlphanum
  simp [hall]

theorem statement?_label {id name : String} (hid : IsId id) :
    statement? (Statement.label id name).line = some (.label id name) := by
  have hline : (Statement.label id name).line.toList =
      "    ".toList ++
        ((id.toList ++ ("([".toList ++ (name.toList ++ "])".toList))) ++ ";".toList) := by
    simp [Statement.line]
  have harrow :
      between? " --> ".toList [] ("([".toList ++ (name.toList ++ "])".toList)) = none := by
    simp [between?]
  rw [statement?_of_toList hline, statementOf?_id hid (by simp), harrow, between?_append]
  simp

theorem statement?_mark {ids : List String} (hne : ids ≠ []) (hids : ∀ id ∈ ids, IsId id) :
    statement? (Statement.mark ids).line = some (.mark ids) := by
  have hline : (Statement.mark ids).line.toList = "    ".toList ++
      (("class".toList ++ (" ".toList ++ ((",".intercalate ids).toList ++ " sql".toList))) ++
        ";".toList) := by
    simp [Statement.line]
  have hsplit : (",".intercalate ids).toList.splitOn ',' = ids.map String.toList := by
    rw [String.toList_intercalate]
    apply List.splitOn_intercalate
    · intro text htext hcomma
      obtain ⟨id, hid, rfl⟩ := List.mem_map.mp htext
      exact absurd ((hids id hid).isAlphanum ',' hcomma) (by decide)
    · simpa using hne
  rw [statement?_of_toList hline, statementOf?]
  have hword : ("class".toList ++
      (" ".toList ++ ((",".intercalate ids).toList ++ " sql".toList))).takeWhile Char.isAlphanum =
        "class".toList := by
    simp
  have htail : ("class".toList ++
      (" ".toList ++ ((",".intercalate ids).toList ++ " sql".toList))).dropWhile Char.isAlphanum =
        " ".toList ++ ((",".intercalate ids).toList ++ " sql".toList) := by
    simp
  rw [hword, htail, between?_append, if_neg (by decide), if_pos rfl, Option.map_some, hsplit,
    List.map_map]
  simp [Function.comp_def]

theorem statement?_line {statement : Statement} (hplain : statement.IsPlain) :
    statement? statement.line = some statement := by
  cases statement with
  | join caller callee => exact statement?_join hplain.1 hplain.2
  | label id name => exact statement?_label hplain.1
  | style => decide +kernel
  | mark ids => exact statement?_mark hplain.1 hplain.2

/-! ## Reading a text back -/

theorem IsId.newline_not_mem {id : String} (hid : IsId id) : '\n' ∉ id.toList := by
  intro hmem
  exact absurd (hid.isAlphanum '\n' hmem) (by decide)

theorem Statement.newline_not_mem_line {statement : Statement} (hplain : statement.IsPlain) :
    '\n' ∉ statement.line.toList := by
  cases statement with
  | join caller callee =>
      have hcaller := hplain.1.newline_not_mem
      have hcallee := hplain.2.newline_not_mem
      simp [line, hcaller, hcallee]
  | label id name =>
      have hid := hplain.1.newline_not_mem
      have hname := hplain.2
      simp [line, hid, hname]
  | style => decide
  | mark ids =>
      have hids : '\n' ∉ [','].intercalate (ids.map String.toList) := by
        apply Text.not_mem_intercalate (by decide)
        intro text htext
        obtain ⟨id, hid, rfl⟩ := List.mem_map.mp htext
        exact (hplain.2 id hid).newline_not_mem
      simp [line, hids]

/-- A text made of plain statements says what they say. -/
theorem read?_intercalate {statements : List Statement}
    (hplain : ∀ statement ∈ statements, statement.IsPlain) :
    read? ("\n".intercalate (title :: statements.map Statement.line)) = some statements := by
  have hlines : Scanner.linesOf ("\n".intercalate (title :: statements.map Statement.line)) =
      title :: statements.map Statement.line := by
    apply Scanner.linesOf_intercalate (List.cons_ne_nil _ _)
    intro line hline
    rcases List.mem_cons.mp hline with rfl | hline
    · decide
    · obtain ⟨statement, hstatement, rfl⟩ := List.mem_map.mp hline
      exact Statement.newline_not_mem_line (hplain statement hstatement)
  rw [read?, hlines]
  simp only [if_true]
  apply Text.mapM_map_eq_some
  intro statement hstatement
  exact statement?_line (hplain statement hstatement)

example : read? "graph TD;\n    n0 --> n1;\n    n0([A]);\n    n1([B])]);\n    class n0,n1 sql;" =
    some [.join "n0" "n1", .label "n0" "A", .label "n1" "B])", .mark ["n0", "n1"]] := by
  decide +kernel

/-! ## The report as statements -/

/-- What a flowchart shows, in the terms of its text. -/
structure Drawing where
  /-- The ids with their labels. -/
  labels : List (String × String)
  edges : List (String × String)
  marked : List String

/-- The statements of a drawing; where nothing is marked, nothing is said about marks. -/
def Drawing.statements (drawing : Drawing) : List Statement :=
  drawing.edges.map (fun edge => .join edge.1 edge.2) ++
    drawing.labels.map (fun label => .label label.1 label.2) ++
    (if drawing.marked = [] then [] else [.style, .mark drawing.marked])

def drawing (chart : Flowchart) : Drawing where
  labels := chart.names.map fun name => (chart.nodeId name, name)
  edges := chart.edges.map fun edge => (chart.nodeId edge.1, chart.nodeId edge.2)
  marked := chart.flaggedIds

theorem lines_eq (chart : Flowchart) :
    chart.lines = title :: chart.drawing.statements.map Statement.line := by
  have hclass : chart.classLines =
      (if chart.flaggedIds = [] then [] else [.style, .mark chart.flaggedIds]).map
        Statement.line := by
    rw [classLines]
    by_cases hnone : chart.flaggedIds = []
    · simp [hnone]
    · simp [hnone, Statement.line]
  rw [lines, hclass, Drawing.statements, List.map_append, List.map_append, List.map_map,
    List.map_map]
  simp only [drawing, List.map_map]
  rfl

theorem isId_nodeId (chart : Flowchart) (name : String) : IsId (chart.nodeId name) :=
  ⟨chart.names.idxOf name, rfl⟩

theorem isPlain_of_mem_statements {chart : Flowchart}
    (hnames : ∀ name ∈ chart.names, '\n' ∉ name.toList) :
    ∀ statement ∈ chart.drawing.statements, statement.IsPlain := by
  intro statement hstatement
  rw [Drawing.statements, List.mem_append, List.mem_append] at hstatement
  rcases hstatement with (hjoin | hlabel) | hmark
  · simp only [drawing, List.map_map, List.mem_map] at hjoin
    obtain ⟨edge, -, rfl⟩ := hjoin
    exact ⟨chart.isId_nodeId edge.1, chart.isId_nodeId edge.2⟩
  · simp only [drawing, List.map_map, List.mem_map] at hlabel
    obtain ⟨name, hname, rfl⟩ := hlabel
    exact ⟨chart.isId_nodeId name, hnames name hname⟩
  · split at hmark
    · cases hmark
    · rename_i hsome
      rcases List.mem_pair.mp hmark with rfl | rfl
      · trivial
      · refine ⟨hsome, ?_⟩
        intro id hid
        obtain ⟨name, -, rfl⟩ := List.mem_map.mp hid
        exact chart.isId_nodeId name

/-- The text of a flowchart says what the flowchart shows. -/
theorem read?_lines {chart : Flowchart} (hnames : ∀ name ∈ chart.names, '\n' ∉ name.toList) :
    read? ("\n".intercalate chart.lines) = some chart.drawing.statements := by
  rw [lines_eq]
  exact read?_intercalate (isPlain_of_mem_statements hnames)

/-- Different names have different ids. -/
theorem nodeId_inj {chart : Flowchart} {left right : String} (hleft : left ∈ chart.names) :
    chart.nodeId left = chart.nodeId right ↔ left = right := by
  constructor
  · intro hid
    have hdigits : Nat.toDigits 10 (chart.names.idxOf left) =
        Nat.toDigits 10 (chart.names.idxOf right) := by
      have htoList := congrArg String.toList hid
      simpa [nodeId, Nat.toString_eq_repr, Nat.toList_repr] using htoList
    have hidx : chart.names.idxOf left = chart.names.idxOf right := by
      rw [← Nat.ofDigitChars_ten_toDigits (n := chart.names.idxOf left), hdigits,
        Nat.ofDigitChars_ten_toDigits]
    exact (List.idxOf_inj hleft).mp hidx
  · rintro rfl
    rfl

/-! ## The flowchart of a tree -/

theorem names_ofTree (tree : CallTree) : (ofTree tree).names = tree.names.eraseDups := by
  rw [CallTree.names, ← CallTree.map_tree_walk, List.map_map]
  rfl

theorem mem_names_ofTree {tree : CallTree} {name : String} :
    name ∈ (ofTree tree).names ↔ name ∈ tree.names := by
  rw [names_ofTree, List.mem_eraseDups]

theorem mem_edges_ofTree {tree : CallTree} {caller callee : String} :
    (caller, callee) ∈ (ofTree tree).edges ↔ tree.HasEdge caller callee := by
  have hvisits : (caller, callee) ∈ (ofTree tree).edges ↔
      ∃ above below, (∃ visit ∈ tree.walk, visit.parent = some above ∧ visit.tree = below) ∧
        above.name = caller ∧ below.name = callee := by
    simp only [ofTree, List.mem_eraseDups, List.mem_filterMap, edge?, Option.map_eq_some_iff,
      Prod.mk.injEq]
    constructor
    · rintro ⟨visit, hvisit, above, habove, hcaller, hcallee⟩
      exact ⟨above, visit.tree, ⟨visit, hvisit, habove, rfl⟩, hcaller, hcallee⟩
    · rintro ⟨above, below, ⟨visit, hvisit, habove, rfl⟩, hcaller, hcallee⟩
      exact ⟨visit, hvisit, above, habove, hcaller, hcallee⟩
  simp only [hvisits, CallTree.exists_walk_iff, CallTree.HasEdge, List.mem_map]
  constructor
  · rintro ⟨above, below, ⟨habove, hbelow⟩, hcaller, hcallee⟩
    exact ⟨above, habove, hcaller, below, hbelow, hcallee⟩
  · rintro ⟨above, habove, hcaller, below, hbelow, hcallee⟩
    exact ⟨above, below, ⟨habove, hbelow⟩, hcaller, hcallee⟩

theorem mem_flagged_ofTree {tree : CallTree} {name : String} :
    name ∈ (ofTree tree).flagged ↔
      ∃ found ∈ tree.nodes, found.usesSql = true ∧ found.name = name := by
  have hwalk : (ofTree tree).flagged =
      ((tree.walk.map (·.tree)).filter CallTree.usesSql).map CallTree.name := by
    rw [List.filter_map, List.map_map]
    rfl
  rw [hwalk, CallTree.map_tree_walk]
  simp only [List.mem_map, List.mem_filter, and_assoc]

/-- The drawing shows what lies within reach of a start: every name is the label of
one box, every call from one of these names to another is an arrow, and the names
that use SQL are marked. -/
structure Drawing.Depicts (drawing : Drawing) (graph : CallGraph) (start : String) : Prop where
  ids_nodup : (drawing.labels.map (·.1)).Nodup
  names_nodup : (drawing.labels.map (·.2)).Nodup
  mem_names_iff : ∀ name, name ∈ drawing.labels.map (·.2) ↔ graph.Reaches start name
  edges_nodup : drawing.edges.Nodup
  mem_edges_iff : ∀ origin target, (origin, target) ∈ drawing.edges ↔
    ∃ caller callee, (origin, caller) ∈ drawing.labels ∧ (target, callee) ∈ drawing.labels ∧
      graph.Reaches start caller ∧ callee ∈ graph.callsOf caller
  marked_nodup : drawing.marked.Nodup
  mem_marked_iff : ∀ id, id ∈ drawing.marked ↔
    ∃ name, (id, name) ∈ drawing.labels ∧ graph.Reaches start name ∧ graph.usesSql name = true

theorem mem_labels_drawing {chart : Flowchart} {id name : String} :
    (id, name) ∈ chart.drawing.labels ↔ name ∈ chart.names ∧ chart.nodeId name = id := by
  simp only [drawing, List.mem_map, Prod.mk.injEq]
  constructor
  · rintro ⟨known, hknown, hid, rfl⟩
    exact ⟨hknown, hid⟩
  · rintro ⟨hname, hid⟩
    exact ⟨name, hname, hid, rfl⟩

theorem mem_edges_drawing {chart : Flowchart} {origin target : String} :
    (origin, target) ∈ chart.drawing.edges ↔
      ∃ caller callee, (caller, callee) ∈ chart.edges ∧ chart.nodeId caller = origin ∧
        chart.nodeId callee = target := by
  simp only [drawing, List.mem_map, Prod.exists, Prod.mk.injEq]

theorem mem_marked_drawing {chart : Flowchart} {id : String} :
    id ∈ chart.drawing.marked ↔
      ∃ name ∈ chart.names, name ∈ chart.flagged ∧ chart.nodeId name = id := by
  simp only [drawing, flaggedIds, List.mem_map, List.mem_filter, decide_eq_true_eq, and_assoc]

theorem nodup_map_nodeId {chart : Flowchart} {names : List String} (hnodup : names.Nodup)
    (hsubset : names ⊆ chart.names) : (names.map chart.nodeId).Nodup := by
  apply hnodup.map_on
  intro left hleft right hright hid
  exact (nodeId_inj (hsubset hleft)).mp hid

section Expanded

variable {graph : CallGraph} {start : String} {tree : CallTree} {after : List String}
  (hexpands : Expands graph [] start tree after)

include hexpands

theorem mem_names_iff_reaches {name : String} :
    name ∈ (ofTree tree).names ↔ graph.Reaches start name := by
  rw [mem_names_ofTree, hexpands.mem_names_iff_reaches]

theorem mem_edges_iff_reaches {caller callee : String} :
    (caller, callee) ∈ (ofTree tree).edges ↔
      graph.Reaches start caller ∧ callee ∈ graph.callsOf caller := by
  rw [mem_edges_ofTree, hexpands.hasEdge_iff_reaches]

theorem mem_flagged_iff_reaches {name : String} :
    name ∈ (ofTree tree).flagged ↔ graph.Reaches start name ∧ graph.usesSql name = true := by
  rw [mem_flagged_ofTree, hexpands.exists_flagged_iff, hexpands.mem_names_iff_reaches]

/-- Both ends of an edge have a box. -/
theorem ends_mem_names {edge : String × String} (hedge : edge ∈ (ofTree tree).edges) :
    edge.1 ∈ (ofTree tree).names ∧ edge.2 ∈ (ofTree tree).names := by
  obtain ⟨hcaller, hcallee⟩ := (mem_edges_iff_reaches hexpands).mp hedge
  rw [mem_names_iff_reaches hexpands, mem_names_iff_reaches hexpands]
  exact ⟨hcaller, .step hcaller hcallee⟩

theorem nodup_edges_drawing : (ofTree tree).drawing.edges.Nodup := by
  have hnodup : (ofTree tree).edges.Nodup := by
    have hedges : (ofTree tree).edges = (tree.walk.filterMap edge?).eraseDups := rfl
    rw [hedges]
    convert Register.nodup_eraseDups (tree.walk.filterMap edge?)
  rw [drawing]
  apply hnodup.map_on
  rintro ⟨caller, callee⟩ hleft ⟨otherCaller, otherCallee⟩ hright hids
  -- Ids tell only those names apart that have a box.
  obtain ⟨hcaller, hcallee⟩ := ends_mem_names hexpands hleft
  simp only [Prod.mk.injEq, nodeId_inj hcaller, nodeId_inj hcallee] at hids
  exact Prod.ext hids.1 hids.2

theorem depicts_drawing_ofTree : (ofTree tree).drawing.Depicts graph start := by
  have hnames : (ofTree tree).drawing.labels.map (·.2) = (ofTree tree).names := by
    simp [drawing, Function.comp_def]
  have hids : (ofTree tree).drawing.labels.map (·.1) =
      (ofTree tree).names.map (ofTree tree).nodeId := by
    simp [drawing, Function.comp_def]
  have hnodup : (ofTree tree).names.Nodup := Register.nodup_eraseDups _
  constructor
  case ids_nodup =>
    rw [hids]
    exact nodup_map_nodeId hnodup (List.Subset.refl _)
  case names_nodup =>
    rw [hnames]
    exact hnodup
  case mem_names_iff =>
    intro name
    rw [hnames, mem_names_iff_reaches hexpands]
  case edges_nodup => exact nodup_edges_drawing hexpands
  case mem_edges_iff =>
    intro origin target
    simp only [mem_edges_drawing, mem_labels_drawing, ← mem_edges_iff_reaches hexpands]
    constructor
    · rintro ⟨caller, callee, hedge, horigin, htarget⟩
      obtain ⟨hcaller, hcallee⟩ := ends_mem_names hexpands hedge
      exact ⟨caller, callee, ⟨hcaller, horigin⟩, ⟨hcallee, htarget⟩, hedge⟩
    · rintro ⟨caller, callee, ⟨-, horigin⟩, ⟨-, htarget⟩, hedge⟩
      exact ⟨caller, callee, hedge, horigin, htarget⟩
  case marked_nodup => exact nodup_map_nodeId (hnodup.filter _) (List.filter_subset_self _)
  case mem_marked_iff =>
    intro id
    simp only [mem_marked_drawing, mem_labels_drawing, ← mem_flagged_iff_reaches hexpands]
    constructor
    · rintro ⟨name, hname, hflagged, hid⟩
      exact ⟨name, ⟨hname, hid⟩, hflagged⟩
    · rintro ⟨name, ⟨hname, hid⟩, hflagged⟩
      exact ⟨name, hname, hflagged, hid⟩

end Expanded

end Flowchart

/-- No call of a program runs over a line end, so neither does a name within reach
of a start that does not. -/
theorem newline_not_mem_of_reaches {text start name : String} (hstart : '\n' ∉ start.toList)
    (hreaches : (scan text).Reaches start name) : '\n' ∉ name.toList := by
  cases hreaches with
  | refl => exact hstart
  | step reached called =>
      rw [scan_eq_outline] at called
      intro hmem
      exact absurd ((Outline.isName_of_called called).2 '\n' hmem) (by decide)

/-- Reading the flowchart report of an analysis gives a drawing of exactly that part
of the program's call graph which lies within reach of the start. -/
theorem read_flowchart_depicts_reachable (text start : String) (source : Option String)
    (hstart : '\n' ∉ start.toList) :
    ∃ drawing : Flowchart.Drawing,
      Flowchart.read? (Report.flowchart (analyze text start source)) = some drawing.statements ∧
        drawing.Depicts (scan text) start := by
  have hexpands := Expansion.expands_expand (scan text) start []
  refine ⟨(Flowchart.ofTree (analyze text start source).tree).drawing, ?_, ?_⟩
  · apply Flowchart.read?_lines
    intro name hname
    exact newline_not_mem_of_reaches hstart ((Flowchart.mem_names_iff_reaches hexpands).mp hname)
  · exact Flowchart.depicts_drawing_ofTree hexpands

/-- A paragraph that calls itself and one that is not there. -/
theorem read_flowchart_depicts_reachable_loop :
    '\n' ∉ "100-A".toList ∧
      ∃ drawing : Flowchart.Drawing,
        Flowchart.read? (Report.flowchart
          (analyze "100-A.\n PERFORM 100-A\n PERFORM 200-B\n EXEC SQL" "100-A" none)) =
            some drawing.statements ∧
          drawing.Depicts (scan "100-A.\n PERFORM 100-A\n PERFORM 200-B\n EXEC SQL") "100-A" :=
  ⟨by decide, read_flowchart_depicts_reachable _ _ _ (by decide)⟩

end SqlReach
