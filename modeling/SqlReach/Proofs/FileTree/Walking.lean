import SqlReach.Proofs.FileTree.RealLocations

/-!
# Walking to a location

A location in a directory is walked to from one directory to the next, if neither its path
nor one of its names is too long.  The walk ends there: at what is there, or at a free
place if there is nothing.
-/

namespace SqlReach.FileTree

/-- A path that is not too long to be walked along, and neither are its names. -/
structure IsWalkable (path : AbsolutePath) : Prop where
  text_le : path.text.utf8ByteSize ≤ pathLimit
  name_le : ∀ name ∈ path.location.names, name.text.utf8ByteSize ≤ nameLimit

instance (path : AbsolutePath) : Decidable (IsWalkable path) :=
  decidable_of_iff (path.text.utf8ByteSize ≤ pathLimit ∧
      ∀ name ∈ path.location.names, name.text.utf8ByteSize ≤ nameLimit)
    ⟨fun ⟨htext, hname⟩ => ⟨htext, hname⟩, fun ⟨htext, hname⟩ => ⟨htext, hname⟩⟩

def Place.location : Place → Location
  | .found location _ => location
  | .free location => location

variable {tree : FileTree} {purpose : Purpose}

theorem walk_text (tree : FileTree) (purpose : Purpose) (directory : Directory)
    {path : AbsolutePath} (hroot : path.location ≠ .root) :
    tree.walk purpose directory path.text =
      if pathLimit < path.text.utf8ByteSize then .error .nameTooLong
      else tree.walkNames purpose linkLimit .root (path.location.names.map Name.text) := by
  have hnames : path.location.names ≠ [] := fun hnil => hroot (Location.ext hnil)
  have habsolute : Path.isAbsolute path.text = true := by
    rw [AbsolutePath.text]
    split
    · rw [Path.isAbsolute, String.toList_append]
      rfl
    · exact path.location.isAbsolute_text
  have hempty : path.text ≠ "" := by
    intro hempty
    rw [hempty] at habsolute
    cases habsolute
  have hwalk : tree.walkNames purpose linkLimit .root (Path.names path.text) =
      tree.walkNames purpose linkLimit .root (path.location.names.map Name.text) := by
    rw [AbsolutePath.text]
    split
    · have hsplit : Path.names ("/" ++ path.location.text) =
          "" :: Path.names path.location.text := by
        rw [Path.names, String.toList_append, Path.names]
        exact congrArg (List.map String.ofList) (List.splitOn_cons_eq_if_modifyHead ..)
      rw [hsplit, walkNames, if_pos (Or.inl rfl), Location.names_text, walkNames,
        if_pos (Or.inl rfl), if_neg hnames]
    · rw [Location.names_text, walkNames, if_pos (Or.inl rfl), if_neg hnames]
  rw [walk, if_neg hempty, habsolute, hwalk]
  rfl

/-- What comes of a name that stands for an entry. -/
theorem walkNames_name (tree : FileTree) (links : Nat) (here : Location) (name : Name)
    {rest : List String} (hrest : rest = [] ∨ ∃ text ∈ rest, text ≠ "") :
    tree.walkNames purpose links here (name.text :: rest) =
      if nameLimit < name.text.utf8ByteSize then .error .nameTooLong
      else
        match tree.find? (here.child name) with
        | none => if rest.all (· = "") then .ok (.free (here.child name)) else .error .notFound
        | some .directory => tree.walkNames purpose links (here.child name) rest
        | some (.link target) =>
            if rest = [] ∧ purpose = .change then .ok (.found (here.child name) (.link target))
            else
              match links with
              | 0 => .error .linkLoop
              | links + 1 =>
                  tree.walkNames purpose links (Path.origin here target)
                    (Path.names target ++ rest)
        | some entry =>
            if rest = [] then .ok (.found (here.child name) entry) else .error .notDirectory := by
  have hspecial := name.not_namesNoEntry
  have hopen : ¬ (purpose = .openFile ∧ rest ≠ [] ∧ rest.all (· = "") = true) := by
    rintro ⟨-, hsome, hall⟩
    obtain ⟨text, hmem, htext⟩ := hrest.resolve_left hsome
    exact htext (by simpa using List.all_eq_true.mp hall text hmem)
  rewrite [walkNames, if_neg (fun hstay => hspecial (hstay.imp_right Or.inl)),
    if_neg (fun hparent => hspecial (Or.inr (Or.inr hparent))), if_neg hopen, Name.ofText?_text]
  rfl

/-- On the way to a directory a walk goes from one directory to the next. -/
theorem walkNames_through {location : Location} (hplace : tree.find? location = some .directory)
    (links : Nat) {rest : List String} (hrest : ∃ text ∈ rest, text ≠ "") :
    tree.walkNames purpose links .root (location.names.map Name.text ++ rest) =
      if ∀ name ∈ location.names, name.text.utf8ByteSize ≤ nameLimit then
        tree.walkNames purpose links location rest
      else .error .nameTooLong := by
  obtain ⟨names⟩ := location
  dsimp only
  induction names using List.reverseRecOn generalizing rest with
  | nil => simp [Location.root]
  | append_singleton names name ih =>
      have hthere : tree.find? (Location.child ⟨names⟩ name) = some .directory := hplace
      rw [List.map_append, List.append_assoc, List.map_singleton, List.singleton_append,
        ih ⟨name.text, List.mem_cons_self, name.ne_empty⟩ (find?_of_child hthere),
        walkNames_name _ _ _ _ (Or.inr hrest), hthere]
      simp only [List.forall_mem_append, List.forall_mem_singleton]
      by_cases hlong : nameLimit < name.text.utf8ByteSize
      · simp only [if_pos hlong, Nat.not_le.mpr hlong, and_false, if_false, ite_self]
      · simp only [if_neg hlong, Nat.not_lt.mp hlong, and_true]
        rfl

section InDirectory

variable {path : AbsolutePath} (hparent : tree.find? path.location.parent = some .directory)
variable (hroot : path.location ≠ .root)

include hparent hroot

/-- Where a walk ends that does not follow a link at its end. -/
theorem walk_eq
    (hlink : purpose = .change ∨ ∀ target, tree.find? path.location ≠ some (.link target))
    (directory : Directory) :
    tree.walk purpose directory path.text =
      if IsWalkable path then
        match tree.find? path.location with
        | none => .ok (.free path.location)
        | some entry => .ok (.found path.location entry)
      else .error .nameTooLong := by
  have hnames : path.location.names ≠ [] := fun hnil => hroot (Location.ext hnil)
  have hlast := List.dropLast_concat_getLast hnames
  generalize path.location.names.getLast hnames = name at hlast
  have hchild : path.location = path.location.parent.child name := Location.ext hlast.symm
  have hwhole : path.location.names.map Name.text =
      path.location.parent.names.map Name.text ++ [name.text] := by
    conv_lhs => rw [hchild]
    simp [Location.child]
  have hend : tree.walkNames purpose linkLimit path.location.parent [name.text] =
      if nameLimit < name.text.utf8ByteSize then .error .nameTooLong
      else
        match tree.find? path.location with
        | none => .ok (.free path.location)
        | some entry => .ok (.found path.location entry) := by
    rw [walkNames_name _ _ _ _ (Or.inl rfl), ← hchild]
    congr 1
    cases hentry : tree.find? path.location with
    | none => rfl
    | some entry =>
        cases entry with
        | directory => rw [walkNames]
        | file content => rfl
        | sink => rfl
        | link target =>
            have hchange := hlink.resolve_right fun hother => hother target hentry
            simp only [hchange, and_self, if_true]
  rw [walk_text tree purpose directory hroot, hwhole,
    walkNames_through hparent linkLimit ⟨_, List.mem_singleton_self _, name.ne_empty⟩, hend]
  have hall : (∀ other ∈ path.location.names, other.text.utf8ByteSize ≤ nameLimit) ↔
      (∀ other ∈ path.location.parent.names, other.text.utf8ByteSize ≤ nameLimit) ∧
        ¬ nameLimit < name.text.utf8ByteSize := by
    conv_lhs => rw [hchild]
    simp [Location.child, forall_and, or_imp]
  by_cases hwalkable : IsWalkable path
  · obtain ⟨haround, hshort⟩ := hall.mp hwalkable.name_le
    rw [if_pos hwalkable, if_neg (Nat.not_lt.mpr hwalkable.text_le), if_pos haround,
      if_neg hshort]
  · rw [if_neg hwalkable]
    split
    · rfl
    split
    · split
      · rfl
      · rename_i htext haround hshort
        exact absurd ⟨Nat.not_lt.mp htext, hall.mpr ⟨haround, hshort⟩⟩ hwalkable
    · rfl

end InDirectory

end SqlReach.FileTree
