import SqlReach.Proofs.Report.FlaggedNames

/-!
# The order of a flowchart

The flowchart of a tree numbers the names in the order in which they first occur, and it
draws the arrows in the order in which their lower ends first occur.  A name may stand in
a tree many times, with different flags and different children.  This module says what
the flowchart shows of such a tree: everything that is drawn follows from the names, the
edges and the flagged names alone, and for names that keep to one line these can be told
from the report again.
-/

namespace SqlReach

/-! ## First occurrences -/

section FirstOccurrences

variable {α : Type} [BEq α]

/-- `kept` holds the different items of a list, in the order in which they first occur. -/
structure IsFirstOccurrences (items kept : List α) : Prop where
  mem_iff : ∀ item, item ∈ kept ↔ item ∈ items
  ordered : kept.Pairwise fun earlier later => items.idxOf earlier < items.idxOf later

/-- The lists have the same first occurrences. -/
def SameFirstOccurrences (left right : List α) : Prop :=
  ∃ kept, IsFirstOccurrences left kept ∧ IsFirstOccurrences right kept

variable {items left right : List α}

theorem IsFirstOccurrences.nodup {kept : List α} (hkept : IsFirstOccurrences items kept) :
    kept.Nodup := by
  apply hkept.ordered.imp
  intro earlier later hless hsame
  rw [hsame] at hless
  exact Nat.lt_irrefl _ hless

/-- The first occurrences of a list are determined by the list. -/
theorem IsFirstOccurrences.unique (hleft : IsFirstOccurrences items left)
    (hright : IsFirstOccurrences items right) : left = right := by
  have hperm : left.Perm right := by
    rw [List.perm_ext_iff_of_nodup hleft.nodup hright.nodup]
    intro item
    rw [hleft.mem_iff, hright.mem_iff]
  apply hperm.eq_of_pairwise _ hleft.ordered hright.ordered
  intro earlier later _ _ hless hgreater
  exact absurd hgreater (Nat.lt_asymm hless)

theorem isFirstOccurrences_eraseDups [LawfulBEq α] (items : List α) :
    IsFirstOccurrences items items.eraseDups := by
  refine ⟨fun item => List.mem_eraseDups, ?_⟩
  induction items using List.reverseRecOn with
  | nil => exact List.Pairwise.nil
  | append_singleton items item ih =>
      -- What occurred before keeps its place, and only a new item is kept behind it.
      have hbefore : items.eraseDups.Pairwise fun earlier later =>
          (items ++ [item]).idxOf earlier < (items ++ [item]).idxOf later := by
        apply ih.imp_of_mem
        intro earlier later hearlier hlater hless
        rw [List.idxOf_append_of_mem (List.mem_eraseDups.mp hearlier),
          List.idxOf_append_of_mem (List.mem_eraseDups.mp hlater)]
        exact hless
      rw [List.eraseDups_append]
      by_cases hknown : item ∈ items
      · have hnone : [item].removeAll items = [] := by
          simp [List.removeAll, hknown]
        rw [hnone, List.eraseDups_nil, List.append_nil]
        exact hbefore
      · have hnew : ([item].removeAll items).eraseDups = [item] := by
          simp [List.removeAll, hknown, List.eraseDups_cons]
        rw [hnew, List.pairwise_append]
        refine ⟨hbefore, List.pairwise_singleton _ item, ?_⟩
        intro earlier hearlier later hlater
        rw [List.mem_eraseDups] at hearlier
        rw [List.mem_singleton.mp hlater, List.idxOf_append_of_mem hearlier,
          List.idxOf_append_of_notMem hknown]
        exact Nat.lt_add_right _ (List.idxOf_lt_length_of_mem hearlier)

theorem sameFirstOccurrences_iff [LawfulBEq α] :
    SameFirstOccurrences left right ↔ left.eraseDups = right.eraseDups := by
  constructor
  · rintro ⟨kept, hleft, hright⟩
    rw [(isFirstOccurrences_eraseDups left).unique hleft,
      (isFirstOccurrences_eraseDups right).unique hright]
  · intro hsame
    refine ⟨left.eraseDups, isFirstOccurrences_eraseDups left, ?_⟩
    rw [hsame]
    exact isFirstOccurrences_eraseDups right

end FirstOccurrences

/-! ## The edges of a tree -/

namespace CallTree

mutual

/-- The pairs of a node and a child of it, by their names, in the order of the children
among the nodes. -/
def edges : CallTree → List (String × String)
  | node name _ children => edgesUnder name children

def edgesUnder (parent : String) : List CallTree → List (String × String)
  | [] => []
  | tree :: trees => (parent, tree.name) :: edges tree ++ edgesUnder parent trees

end

mutual

/-- The walk meets the edges in their order, the one to its root first. -/
theorem filterMap_edge?_visitsFrom (parent : Option CallTree) (depth : Nat) (tree : CallTree) :
    (visitsFrom parent depth tree).filterMap Flowchart.edge? =
      (parent.map fun above => (above.name, tree.name)).toList ++ tree.edges := by
  cases tree with
  | node name usesSql children =>
      rw [visitsFrom, List.filterMap_cons, filterMap_edge?_visitsFromAll, edges]
      cases parent with
      | none => rfl
      | some above => rfl

theorem filterMap_edge?_visitsFromAll (parent : CallTree) (depth : Nat)
    (trees : List CallTree) :
    (visitsFromAll parent depth trees).filterMap Flowchart.edge? =
      edgesUnder parent.name trees := by
  cases trees with
  | nil => rfl
  | cons tree trees =>
      rw [visitsFromAll, List.filterMap_append, filterMap_edge?_visitsFrom,
        filterMap_edge?_visitsFromAll, edgesUnder]
      rfl

end

theorem filterMap_edge?_walk (tree : CallTree) :
    tree.walk.filterMap Flowchart.edge? = tree.edges := by
  rw [walk_eq_visitsFrom, filterMap_edge?_visitsFrom]
  rfl

theorem flaggedNames_subset (tree : CallTree) : tree.flaggedNames ⊆ tree.names :=
  List.map_subset name (List.filter_subset_self tree.nodes)

end CallTree

namespace Flowchart

/-! ## What a drawing shows -/

def Drawing.text (drawing : Drawing) : String :=
  "\n".intercalate (title :: drawing.statements.map Statement.line)

/-- The id of the box with a given number. -/
def boxId (number : Nat) : String :=
  "n" ++ toString number

theorem boxId_injective : Function.Injective boxId := by
  intro left right hsame
  exact Nat.repr_inj.mp ((String.append_right_inj "n").mp hsame)

/-- A pair of names and the ids under which they are drawn. -/
def Drawing.Draws (drawing : Drawing) (names ids : String × String) : Prop :=
  (ids.1, names.1) ∈ drawing.labels ∧ (ids.2, names.2) ∈ drawing.labels

/-- The boxes are numbered from zero and labelled with the names of the tree in the order
of their first occurrences.  The arrows are the edges of the tree in the order of theirs.
The marked boxes are, by their numbers, those whose names are flagged anywhere. -/
structure Drawing.ShowsInOrder (drawing : Drawing) (tree : CallTree) : Prop where
  ids_eq : drawing.labels.map (·.1) = (List.range drawing.labels.length).map boxId
  names_first : IsFirstOccurrences tree.names (drawing.labels.map (·.2))
  edges_first : ∃ pairs, IsFirstOccurrences tree.edges pairs ∧
    List.Forall₂ drawing.Draws pairs drawing.edges
  marked_eq : drawing.marked =
    (drawing.labels.filter fun label => label.2 ∈ tree.flaggedNames).map (·.1)

namespace Drawing.ShowsInOrder

variable {drawing other : Drawing} {tree otherTree : CallTree}

theorem ids_nodup (hshows : drawing.ShowsInOrder tree) :
    (drawing.labels.map (·.1)).Nodup := by
  rw [hshows.ids_eq]
  exact List.nodup_range.map boxId_injective

/-- Every name is drawn under one id only. -/
theorem id_unique (hshows : drawing.ShowsInOrder tree) {name id otherId : String}
    (hid : (id, name) ∈ drawing.labels) (hother : (otherId, name) ∈ drawing.labels) :
    id = otherId :=
  congrArg Prod.fst (List.inj_on_of_nodup_map hshows.names_first.nodup hid hother rfl)

/-- Every id stands for one name only. -/
theorem name_unique (hshows : drawing.ShowsInOrder tree) {id name otherName : String}
    (hname : (id, name) ∈ drawing.labels) (hother : (id, otherName) ∈ drawing.labels) :
    name = otherName :=
  congrArg Prod.snd (List.inj_on_of_nodup_map hshows.ids_nodup hname hother rfl)

theorem leftUnique_draws (hshows : drawing.ShowsInOrder tree) :
    Relator.LeftUnique drawing.Draws := by
  intro names ids otherNames hnames hother
  exact Prod.ext (hshows.name_unique hnames.1 hother.1) (hshows.name_unique hnames.2 hother.2)

theorem rightUnique_draws (hshows : drawing.ShowsInOrder tree) :
    Relator.RightUnique drawing.Draws := by
  intro names ids otherIds hids hother
  exact Prod.ext (hshows.id_unique hids.1 hother.1) (hshows.id_unique hids.2 hother.2)

/-- The flagged names are those that label a marked box. -/
theorem mem_flaggedNames_iff (hshows : drawing.ShowsInOrder tree) {name : String} :
    name ∈ tree.flaggedNames ↔ ∃ id ∈ drawing.marked, (id, name) ∈ drawing.labels := by
  simp only [hshows.marked_eq, List.mem_map, List.mem_filter, decide_eq_true_eq]
  constructor
  · intro hflagged
    have hname : name ∈ drawing.labels.map (·.2) := by
      rw [hshows.names_first.mem_iff]
      exact CallTree.flaggedNames_subset tree hflagged
    obtain ⟨⟨id, labelled⟩, hlabel, rfl⟩ := List.mem_map.mp hname
    exact ⟨id, ⟨(id, labelled), ⟨hlabel, hflagged⟩, rfl⟩, hlabel⟩
  · rintro ⟨id, ⟨label, ⟨hlabel, hflagged⟩, rfl⟩, hname⟩
    rw [hshows.name_unique hname hlabel]
    exact hflagged

/-- A drawing shows the first occurrences of names and edges and the flagged names. -/
theorem same_of_shows (hshows : drawing.ShowsInOrder tree)
    (hother : drawing.ShowsInOrder otherTree) :
    SameFirstOccurrences tree.names otherTree.names ∧
      SameFirstOccurrences tree.edges otherTree.edges ∧
      ∀ name, name ∈ tree.flaggedNames ↔ name ∈ otherTree.flaggedNames := by
  refine ⟨⟨_, hshows.names_first, hother.names_first⟩, ?_, ?_⟩
  · obtain ⟨pairs, hpairs, hdraws⟩ := hshows.edges_first
    obtain ⟨otherPairs, hotherPairs, hotherDraws⟩ := hother.edges_first
    obtain rfl := List.left_unique_forall₂' hshows.leftUnique_draws hdraws hotherDraws
    exact ⟨pairs, hpairs, hotherPairs⟩
  · intro name
    rw [hshows.mem_flaggedNames_iff, hother.mem_flaggedNames_iff]

/-- It shows nothing else, so trees that agree in these are drawn alike. -/
theorem eq_of_same (hshows : drawing.ShowsInOrder tree) (hother : other.ShowsInOrder otherTree)
    (hnames : SameFirstOccurrences tree.names otherTree.names)
    (hedges : SameFirstOccurrences tree.edges otherTree.edges)
    (hflagged : ∀ name, name ∈ tree.flaggedNames ↔ name ∈ otherTree.flaggedNames) :
    drawing = other := by
  have hlabelNames : drawing.labels.map (·.2) = other.labels.map (·.2) := by
    obtain ⟨kept, hkept, hotherKept⟩ := hnames
    rw [hshows.names_first.unique hkept, hother.names_first.unique hotherKept]
  have hlength : drawing.labels.length = other.labels.length := by
    simpa using congrArg List.length hlabelNames
  have hlabels : drawing.labels = other.labels := by
    rw [← List.zip_unzip drawing.labels, ← List.zip_unzip other.labels, List.unzip_eq_map,
      List.unzip_eq_map, hshows.ids_eq, hother.ids_eq, hlength, hlabelNames]
  have hdrawn : drawing.edges = other.edges := by
    obtain ⟨kept, hkept, hotherKept⟩ := hedges
    obtain ⟨pairs, hpairs, hdraws⟩ := hshows.edges_first
    obtain ⟨otherPairs, hotherPairs, hotherDraws⟩ := hother.edges_first
    have hsame : otherPairs = pairs :=
      (hotherPairs.unique hotherKept).trans (hpairs.unique hkept).symm
    have hids : other.Draws = drawing.Draws := by
      funext names ids
      rw [Draws, Draws, hlabels]
    rw [hsame, hids] at hotherDraws
    exact List.right_unique_forall₂' hshows.rightUnique_draws hdraws hotherDraws
  have hmarked : drawing.marked = other.marked := by
    rw [hshows.marked_eq, hother.marked_eq, hlabels]
    simp only [hflagged]
  calc
    drawing = ⟨drawing.labels, drawing.edges, drawing.marked⟩ := rfl
    _ = ⟨other.labels, other.edges, other.marked⟩ := by rw [hlabels, hdrawn, hmarked]
    _ = other := rfl

end Drawing.ShowsInOrder

/-! ## The flowchart of a tree in order -/

theorem map_idxOf_eq_range {names : List String} (hnames : names.Nodup) :
    names.map names.idxOf = List.range names.length := by
  apply List.ext_getElem
  · simp
  · intro number hnumber _
    rw [List.getElem_map, List.getElem_range]
    exact hnames.idxOf_getElem number (by simpa using hnumber)

theorem flagged_ofTree (tree : CallTree) : (ofTree tree).flagged = tree.flaggedNames := by
  rw [CallTree.flaggedNames, ← CallTree.map_tree_walk, List.filter_map, List.map_map]
  rfl

/-- Both ends of an edge have a box. -/
theorem ends_mem_names_of_mem_edges {tree : CallTree} {edge : String × String}
    (hedge : edge ∈ (ofTree tree).edges) :
    edge.1 ∈ (ofTree tree).names ∧ edge.2 ∈ (ofTree tree).names := by
  rw [mem_names_ofTree, mem_names_ofTree]
  obtain ⟨above, habove, hcaller, hcallee⟩ := mem_edges_ofTree.mp hedge
  obtain ⟨below, hbelow, hname⟩ := List.mem_map.mp hcallee
  -- The walk comes to the lower end from the upper one.
  obtain ⟨visit, hvisit, -, hmet⟩ :=
    (CallTree.exists_walk_iff tree above below).mpr ⟨habove, hbelow⟩
  have hbelowNode : below ∈ tree.nodes := by
    rw [← hmet, ← CallTree.map_tree_walk]
    exact List.mem_map_of_mem hvisit
  constructor
  · rw [← hcaller]
    exact List.mem_map_of_mem habove
  · rw [← hname]
    exact List.mem_map_of_mem hbelowNode

theorem showsInOrder_drawing_ofTree (tree : CallTree) :
    (ofTree tree).drawing.ShowsInOrder tree := by
  have hnames : (ofTree tree).drawing.labels.map (·.2) = (ofTree tree).names := by
    simp [drawing, Function.comp_def]
  have hfirst : IsFirstOccurrences tree.names (ofTree tree).names := by
    rw [names_ofTree]
    exact isFirstOccurrences_eraseDups tree.names
  constructor
  case ids_eq =>
    calc
      (ofTree tree).drawing.labels.map (·.1) =
          ((ofTree tree).names.map (ofTree tree).names.idxOf).map boxId := by
        rw [drawing, List.map_map, List.map_map]
        rfl
      _ = (List.range (ofTree tree).drawing.labels.length).map boxId := by
        rw [map_idxOf_eq_range hfirst.nodup, drawing, List.length_map]
  case names_first =>
    rw [hnames]
    exact hfirst
  case edges_first =>
    refine ⟨(ofTree tree).edges, ?_, ?_⟩
    · have hedges : (ofTree tree).edges = tree.edges.eraseDups := by
        rw [← CallTree.filterMap_edge?_walk]
        rfl
      rw [hedges]
      exact isFirstOccurrences_eraseDups tree.edges
    · rw [drawing, List.forall₂_map_right_iff, List.forall₂_same]
      intro edge hedge
      obtain ⟨hcaller, hcallee⟩ := ends_mem_names_of_mem_edges hedge
      exact ⟨mem_labels_drawing.mpr ⟨hcaller, rfl⟩, mem_labels_drawing.mpr ⟨hcallee, rfl⟩⟩
  case marked_eq =>
    rw [drawing, List.filter_map, List.map_map, flaggedIds, flagged_ofTree]
    rfl

/-! ## The report -/

def Statement.joined? : Statement → Option (String × String)
  | join caller callee => some (caller, callee)
  | _ => none

def Statement.labelled? : Statement → Option (String × String)
  | label id name => some (id, name)
  | _ => none

theorem filterMap_joined?_statements (drawing : Drawing) :
    drawing.statements.filterMap Statement.joined? = drawing.edges := by
  rw [Drawing.statements]
  split <;> simp [List.filterMap_map, Function.comp_def, Statement.joined?]

theorem filterMap_labelled?_statements (drawing : Drawing) :
    drawing.statements.filterMap Statement.labelled? = drawing.labels := by
  rw [Drawing.statements]
  split <;> simp [List.filterMap_map, Function.comp_def, Statement.labelled?]

/-- Boxes, arrows and marks can be recovered from the statements of a drawing. -/
theorem Drawing.statements_injective : Function.Injective Drawing.statements := by
  intro left right hsame
  calc
    left = ⟨left.labels, left.edges, left.marked⟩ := rfl
    _ = ⟨right.labels, right.edges, right.marked⟩ := by
      rw [← filterMap_labelled?_statements left, ← filterMap_joined?_statements left,
        ← flatMap_marks_statements left, hsame, filterMap_labelled?_statements,
        filterMap_joined?_statements, flatMap_marks_statements]
    _ = right := rfl

end Flowchart

theorem Report.flowchart_eq_text (analysis : Analysis) :
    flowchart analysis = (Flowchart.ofTree analysis.tree).drawing.text := by
  rw [flowchart, Flowchart.lines_eq]
  rfl

/-- Reports of trees whose names keep to one line are equal only if the drawings are. -/
theorem Report.drawing_eq_of_flowchart_eq {first second : Analysis}
    (hfirst : ∀ name ∈ first.tree.names, '\n' ∉ name.toList)
    (hsecond : ∀ name ∈ second.tree.names, '\n' ∉ name.toList)
    (hsame : flowchart first = flowchart second) :
    (Flowchart.ofTree first.tree).drawing = (Flowchart.ofTree second.tree).drawing := by
  have hread : ∀ analysis : Analysis, (∀ name ∈ analysis.tree.names, '\n' ∉ name.toList) →
      Flowchart.read? (flowchart analysis) =
        some (Flowchart.ofTree analysis.tree).drawing.statements := by
    intro analysis hnames
    apply Flowchart.read?_lines
    intro name hname
    exact hnames name (Flowchart.mem_names_ofTree.mp hname)
  apply Flowchart.Drawing.statements_injective
  apply Option.some.inj
  rw [← hread first hfirst, hsame, hread second hsecond]

/-- The flowchart report of any tree shows the first occurrences of its names and edges,
in their order, and its flagged names.  It shows nothing else, and where no name holds a
line feed it shows all of this: two trees have the same report if and only if they agree
in these three. -/
theorem flowchart_shows_first_occurrences (first second : Analysis) :
    (∃ drawing : Flowchart.Drawing, Report.flowchart first = drawing.text ∧
      (drawing.labels.map (·.1)).Nodup ∧ drawing.ShowsInOrder first.tree) ∧
    ((∀ name ∈ first.tree.names, '\n' ∉ name.toList) →
      (∀ name ∈ second.tree.names, '\n' ∉ name.toList) →
      (Report.flowchart first = Report.flowchart second ↔
        SameFirstOccurrences first.tree.names second.tree.names ∧
          SameFirstOccurrences first.tree.edges second.tree.edges ∧
          ∀ name, name ∈ first.tree.flaggedNames ↔ name ∈ second.tree.flaggedNames)) := by
  have hfirst := Flowchart.showsInOrder_drawing_ofTree first.tree
  have hsecond := Flowchart.showsInOrder_drawing_ofTree second.tree
  constructor
  · exact ⟨_, Report.flowchart_eq_text first, hfirst.ids_nodup, hfirst⟩
  · intro hfirstNames hsecondNames
    constructor
    · intro hsame
      have hdrawing := Report.drawing_eq_of_flowchart_eq hfirstNames hsecondNames hsame
      rw [← hdrawing] at hsecond
      exact hfirst.same_of_shows hsecond
    · rintro ⟨hnames, hedges, hflagged⟩
      rw [Report.flowchart_eq_text, Report.flowchart_eq_text,
        hfirst.eq_of_same hsecond hnames hedges hflagged]

/-- A name with brackets that is flagged and unfolded at one of its two places, in one
tree at the first of them and in the other at the second. -/
theorem flowchart_shows_first_occurrences_moved :
    let first : CallTree :=
      .node "A" false [.node "B]);" true [.leaf "A" false], .leaf "B]);" false]
    let second : CallTree :=
      .node "A" false [.leaf "B]);" false, .node "B]);" true [.leaf "A" false]]
    (∀ name ∈ first.names, '\n' ∉ name.toList) ∧ (∀ name ∈ second.names, '\n' ∉ name.toList) ∧
      first.names ≠ second.names ∧
      Report.flowchart ⟨"A", none, 0, true, first⟩ =
        Report.flowchart ⟨"A", none, 0, true, second⟩ := by
  intro first second
  have hfirst : ∀ name ∈ first.names, '\n' ∉ name.toList := by decide +kernel
  have hsecond : ∀ name ∈ second.names, '\n' ∉ name.toList := by decide +kernel
  have hnames : SameFirstOccurrences first.names second.names :=
    sameFirstOccurrences_iff.mpr (by decide +kernel)
  have hedges : SameFirstOccurrences first.edges second.edges :=
    sameFirstOccurrences_iff.mpr (by decide +kernel)
  have hflagged : ∀ name, name ∈ first.flaggedNames ↔ name ∈ second.flaggedNames :=
    fun name => Iff.rfl
  refine ⟨hfirst, hsecond, by decide +kernel, ?_⟩
  exact ((flowchart_shows_first_occurrences ⟨"A", none, 0, true, first⟩
    ⟨"A", none, 0, true, second⟩).2 hfirst hsecond).mpr ⟨hnames, hedges, hflagged⟩

end SqlReach
