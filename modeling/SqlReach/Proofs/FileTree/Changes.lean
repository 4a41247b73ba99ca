import SqlReach.Disk

/-!
# Changes to a file tree

Storing, removing or moving an entry changes what is found at the places involved, and
nothing else.  This holds for entries that have nothing below them, which are all but
directories.
-/

namespace SqlReach

@[simp]
theorem Entry.entry_node (entry : Entry) : entry.node.entry = entry := by
  cases entry <;> rfl

theorem Entry.entries_node (entry : Entry) : entry.node.entries = [] := by
  cases entry <;> rfl

namespace Location

theorem eq_of_append {location : Location} {names : List Name}
    (hsame : location.append names = location) : names = [] := by
  have hnames := congrArg Location.names hsame
  simpa [append] using hnames

theorem append_nil (location : Location) : location.append [] = location :=
  Location.ext (List.append_nil _)

theorem isWithin_self (location : Location) : location.IsWithin location :=
  List.prefix_refl location.names

@[simp]
theorem parent_child (location : Location) (name : Name) :
    (location.child name).parent = location :=
  Location.ext (by simp [parent, child])

theorem child_inj {left right : Location} {name other : Name}
    (hchild : left.child name = right.child other) : left = right ∧ name = other := by
  obtain ⟨hnames, hlast⟩ := List.append_inj' (congrArg names hchild) rfl
  exact ⟨Location.ext hnames, List.singleton_inj.mp hlast⟩

end Location

namespace FileTree

variable {tree : FileTree} {location : Location} {entry : Entry}

@[simp]
theorem find?_root (tree : FileTree) : tree.find? .root = some .directory := rfl

/-- What is in the tree is in a directory, and the root is its own parent. -/
theorem find?_parent (hentry : tree.find? location = some entry) :
    tree.find? location.parent = some .directory := by
  by_cases hroot : location.names = []
  · obtain rfl : location = .root := Location.ext hroot
    rfl
  · have hchild : location = location.parent.child (location.names.getLast hroot) :=
      Location.ext (List.dropLast_concat_getLast hroot).symm
    rw [hchild] at hentry
    exact find?_of_child hentry

theorem find?_put (hparent : tree.find? location.parent = some .directory)
    (hplace : tree.find? location ≠ some .directory) (entry : Entry) (other : Location) :
    (tree.put location entry).find? other =
      if other = location then some entry else tree.find? other := by
  have hroot : location ≠ .root := by
    rintro rfl
    exact hplace rfl
  by_cases hwithin : other.IsWithin location
  · obtain ⟨names, rfl⟩ := hwithin.exists_eq
    rw [find?, put, nodeAt?_alter hparent hroot]
    cases names with
    | nil => simp [Location.append_nil, Node.at?]
    | cons name names =>
        have hother : location.append (name :: names) ≠ location :=
          fun hsame => List.cons_ne_nil _ _ (Location.eq_of_append hsame)
        rw [if_neg hother, find?_append_of_ne_directory hplace (by simp)]
        simp [Node.at?, Entry.entries_node]
  · have hother : other ≠ location := by
      rintro rfl
      exact hwithin other.isWithin_self
    rw [if_neg hother, put, find?_alter_of_not_within hwithin]

theorem find?_remove (hentry : tree.find? location = some entry) (hleaf : entry ≠ .directory)
    (other : Location) :
    (tree.remove location).find? other = if other = location then none else tree.find? other := by
  have hplace : tree.find? location ≠ some .directory := by
    rw [hentry]
    simpa using hleaf
  have hroot : location ≠ .root := by
    rintro rfl
    exact hplace rfl
  by_cases hwithin : other.IsWithin location
  · obtain ⟨names, rfl⟩ := hwithin.exists_eq
    rw [find?, remove, nodeAt?_alter (find?_parent hentry) hroot]
    cases names with
    | nil => simp [Location.append_nil]
    | cons name names =>
        rw [find?_append_of_ne_directory hplace (by simp)]
        simp
  · have hother : other ≠ location := by
      rintro rfl
      exact hwithin other.isWithin_self
    rw [if_neg hother, remove, find?_alter_of_not_within hwithin]

/-- What is neither at the one place nor at the other stays. -/
theorem find?_move_of_not_within {source target other : Location}
    (hsource : ¬ other.IsWithin source) (htarget : ¬ other.IsWithin target) :
    (tree.move source target).find? other = tree.find? other := by
  rw [move, find?_alter_of_not_within htarget, remove, find?_alter_of_not_within hsource]

theorem nodeAt?_of_leaf (hentry : tree.find? location = some entry) (hleaf : entry ≠ .directory) :
    tree.nodeAt? location = some entry.node := by
  rw [find?, Option.map_eq_some_iff] at hentry
  obtain ⟨node, hnode, rfl⟩ := hentry
  rw [hnode]
  cases node with
  | directory entries => exact absurd rfl hleaf
  | file content => rfl
  | sink => rfl
  | link target => rfl

theorem find?_move {source target : Location} (hentry : tree.find? source = some entry)
    (hleaf : entry ≠ .directory) (hparent : tree.find? target.parent = some .directory)
    (htarget : tree.find? target ≠ some .directory) (hne : target ≠ source) (other : Location) :
    (tree.move source target).find? other =
      if other = target then some entry
      else if other = source then none else tree.find? other := by
  have hmove : tree.move source target = (tree.remove source).put target entry := by
    rw [move, nodeAt?_of_leaf hentry hleaf, put]
  have haround : target.parent ≠ source := by
    intro hsame
    rw [hsame, hentry] at hparent
    exact hleaf (Option.some.inj hparent)
  rw [hmove, find?_put, find?_remove hentry hleaf]
  · rwa [find?_remove hentry hleaf, if_neg haround]
  · rwa [find?_remove hentry hleaf, if_neg hne]

end FileTree

end SqlReach
