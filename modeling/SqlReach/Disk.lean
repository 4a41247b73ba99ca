import SqlReach.FileTree

/-!
# The disk

The disk is a file tree with the working directory in it.  Whatever is done to the
disk leaves the working directory where it stands, or takes it along with a directory
that is moved.
-/

namespace SqlReach

/-! ## What a change leaves as it was -/

namespace Location

theorem IsWithin.exists_eq {location place : Location} (hwithin : location.IsWithin place) :
    ∃ names, location = place.append names := by
  obtain ⟨names, hnames⟩ := hwithin
  exact ⟨names, Location.ext hnames.symm⟩

/-- Where a location is after what is at the one place was moved to the other. -/
def relocate (location source target : Location) : Location :=
  if location.IsWithin source then target.append (location.names.drop source.names.length)
  else location

end Location

namespace Node

theorem at?_append (node : Node) (names rest : List Name) :
    node.at? (names ++ rest) = (node.at? names).bind (·.at? rest) := by
  induction names generalizing node with
  | nil => rfl
  | cons name names ih =>
      simp only [List.cons_append, at?, Option.bind_assoc]
      congr 1
      funext inner
      exact ih inner

/-- Only what is at the place and below it changes, though a directory on the way is a
directory with something new in it. -/
theorem entry_alter_of_not_prefix {names other : List Name} (hother : ¬ names <+: other)
    (change : Option Node → Option Node) (node : Option Node) :
    ((alter change node names).bind (·.at? other)).map entry =
      (node.bind (·.at? other)).map entry := by
  induction names generalizing node other with
  | nil => exact absurd (List.nil_prefix) hother
  | cons name names ih =>
      unfold alter
      split
      · rename_i heq
        cases heq
      · rename_i entries first rest heq
        cases heq
        cases other with
        | nil => rfl
        | cons next other =>
            simp only [Option.bind_some, at?, Node.entries, Register.lookup_set]
            split
            · rename_i hnext
              subst hnext
              apply ih
              exact fun hprefix => hother ((List.prefix_cons_inj _).mpr hprefix)
            · rfl
      · rfl

/-- What is at the place has changed, if the place is in a directory. -/
theorem alter_bind_at? {names : List Name} {node : Option Node} {entries : List (Name × Node)}
    (hparent : node.bind (·.at? names.dropLast) = some (directory entries)) (hnames : names ≠ [])
    (change : Option Node → Option Node) (rest : List Name) :
    (alter change node names).bind (·.at? (names ++ rest)) =
      (change (node.bind (·.at? names))).bind (·.at? rest) := by
  induction names generalizing node with
  | nil => exact absurd rfl hnames
  | cons name names ih =>
      cases names with
      | nil =>
          obtain rfl : node = some (directory entries) := by simpa [at?] using hparent
          simp [alter, at?, Node.entries, Register.lookup_set]
      | cons next names =>
          rw [List.dropLast_cons_cons] at hparent
          match node with
          | some (directory inner) =>
              have hinner := ih hparent (by simp)
              simpa [alter, at?, Node.entries, Register.lookup_set] using hinner
          | none => cases hparent
          | some (file content) => cases hparent
          | some sink => cases hparent
          | some (link target) => cases hparent

end Node

namespace FileTree

variable {tree : FileTree} {change : Option Node → Option Node} {location other : Location}

theorem nodeAt?_append (tree : FileTree) (location : Location) (names : List Name) :
    tree.nodeAt? (location.append names) = (tree.nodeAt? location).bind (·.at? names) :=
  Node.at?_append tree.root location.names names

theorem find?_append (tree : FileTree) (location : Location) (names : List Name) :
    tree.find? (location.append names) =
      ((tree.nodeAt? location).bind (·.at? names)).map Node.entry := by
  rw [find?, nodeAt?_append]

theorem exists_nodeAt?_of_directory (hdirectory : tree.find? location = some .directory) :
    ∃ entries, tree.nodeAt? location = some (.directory entries) := by
  rw [find?, Option.map_eq_some_iff] at hdirectory
  obtain ⟨node, hnode, hentry⟩ := hdirectory
  cases node with
  | directory entries => exact ⟨entries, hnode⟩
  | file content => cases hentry
  | sink => cases hentry
  | link target => cases hentry

/-- There is nothing below anything but a directory. -/
theorem find?_append_of_ne_directory (hplace : tree.find? location ≠ some .directory)
    {names : List Name} (hnames : names ≠ []) : tree.find? (location.append names) = none := by
  cases names with
  | nil => exact absurd rfl hnames
  | cons name names =>
      rw [find?_append]
      rw [find?] at hplace
      cases hnode : tree.nodeAt? location with
      | none => rfl
      | some node =>
          cases node with
          | directory entries =>
              rw [hnode] at hplace
              exact absurd rfl hplace
          | file content => rfl
          | sink => rfl
          | link target => rfl

/-- What is in the tree is in a directory. -/
theorem find?_of_child {name : Name} {entry : Entry}
    (hentry : tree.find? (location.child name) = some entry) :
    tree.find? location = some .directory := by
  apply Decidable.byContradiction
  intro hplace
  have hnone : tree.find? (location.append [name]) = none :=
    find?_append_of_ne_directory hplace (by simp)
  rw [show location.append [name] = location.child name from rfl, hentry] at hnone
  cases hnone

theorem isDirectory_of_isWithin {entry : Entry} (hentry : tree.find? other = some entry)
    (hwithin : other.IsWithin location) (hne : other ≠ location) :
    tree.find? location = some .directory := by
  obtain ⟨names, rfl⟩ := hwithin.exists_eq
  apply Decidable.byContradiction
  intro hplace
  have hnames : names ≠ [] := by
    rintro rfl
    exact hne (Location.ext (List.append_nil _))
  rw [find?_append_of_ne_directory hplace hnames] at hentry
  cases hentry

theorem find?_alter_of_not_within (hother : ¬ other.IsWithin location) :
    (tree.alter change location).find? other = tree.find? other := by
  have hsame := Node.entry_alter_of_not_prefix hother change (some tree.root)
  rw [alter]
  split
  · rename_i entries haltered
    rw [haltered] at hsame
    exact hsame
  · rfl

theorem nodeAt?_alter (hparent : tree.find? location.parent = some .directory)
    (hplace : location ≠ .root) (names : List Name) :
    (tree.alter change location).nodeAt? (location.append names) =
      (change (tree.nodeAt? location)).bind (·.at? names) := by
  obtain ⟨entries, hentries⟩ := exists_nodeAt?_of_directory hparent
  have haround : (some tree.root).bind (·.at? location.names.dropLast) =
      some (.directory entries) := hentries
  have hnames : location.names ≠ [] := fun hroot => hplace (Location.ext hroot)
  have haltered : (Node.alter change (some tree.root) location.names).bind
      (·.at? (location.names ++ names)) = (change (tree.nodeAt? location)).bind (·.at? names) :=
    Node.alter_bind_at? haround hnames change names
  have hroot : ∃ inner, Node.alter change (some tree.root) location.names =
      some (.directory inner) := by
    cases hcons : location.names with
    | nil => exact absurd hcons hnames
    | cons name rest => exact ⟨_, rfl⟩
  obtain ⟨inner, hinner⟩ := hroot
  rw [alter, hinner]
  rw [hinner] at haltered
  exact haltered

/-- Directories stay directories when something else is changed. -/
theorem find?_alter_directory (hplace : tree.find? location ≠ some .directory)
    (hother : tree.find? other = some .directory) :
    (tree.alter change location).find? other = some .directory := by
  rw [find?_alter_of_not_within, hother]
  intro hwithin
  by_cases hsame : other = location
  · exact hplace (hsame ▸ hother)
  · exact hplace (isDirectory_of_isWithin hother hwithin hsame)

theorem isWithin_of_parent {place : Location} (hwithin : location.parent.IsWithin place) :
    location.IsWithin place :=
  List.IsPrefix.trans hwithin (List.dropLast_prefix location.names)

/-- Directories stay directories when something is moved, though they may be elsewhere. -/
theorem find?_move_directory {source target : Location}
    (hparent : tree.find? target.parent = some .directory)
    (htarget : tree.find? target ≠ some .directory) (hapart : ¬ target.IsWithin source)
    (hother : tree.find? other = some .directory) :
    (tree.move source target).find? (other.relocate source target) = some .directory := by
  rw [Location.relocate]
  split
  · rename_i hwithin
    obtain ⟨names, rfl⟩ := hwithin.exists_eq
    have hbetween : (tree.remove source).find? target.parent = some .directory := by
      rw [remove, find?_alter_of_not_within, hparent]
      exact fun habove => hapart (isWithin_of_parent habove)
    have hroot : target ≠ .root := by
      rintro rfl
      exact htarget rfl
    have hnames : (source.append names).names.drop source.names.length = names := by
      simp [Location.append]
    rw [hnames, find?, move, nodeAt?_alter hbetween hroot, ← nodeAt?_append, ← find?, hother]
  · rename_i hwithin
    rw [move, find?_alter_of_not_within, remove, find?_alter_of_not_within hwithin, hother]
    intro hbelow
    by_cases hsame : other = target
    · exact htarget (hsame ▸ hother)
    · exact htarget (isDirectory_of_isWithin hother hbelow hsame)

end FileTree

/-! ## The operations -/

/-- A file tree and the working directory, which is or was in a directory of it. -/
structure Disk where
  tree : FileTree := {}
  directory : FileTree.Directory := .root
  standing : tree.find? directory.location = some .directory := by rfl

namespace Disk

open FileTree

/-- Puts an entry at a place that is free. -/
def fill (disk : Disk) (location : Location) (entry : Entry) : Disk :=
  if hfree : disk.tree.find? location = none then
    { disk with
      tree := disk.tree.put location entry
      standing := find?_alter_directory (by simp [hfree]) disk.standing }
  else disk

/-- Writes at the end of a file. -/
def append (disk : Disk) (location : Location) (bytes : List UInt8) : Disk :=
  match hfile : disk.tree.find? location with
  | some (.file content) =>
      { disk with
        tree := disk.tree.put location (.file (content ++ bytes))
        standing := find?_alter_directory (by simp [hfile]) disk.standing }
  | _ => disk

/-- Takes away an entry that is no directory. -/
def discard (disk : Disk) (location : Location) : Disk :=
  if hdirectory : disk.tree.find? location = some .directory then disk
  else
    { disk with
      tree := disk.tree.remove location
      standing := find?_alter_directory hdirectory disk.standing }

/-- Moves an entry, with everything below it, to a place in a directory.  An entry that is
no directory gives way there, and nothing is moved into itself. -/
def move (disk : Disk) (source target : Location) : Disk :=
  if hplace : disk.tree.find? target.parent = some .directory ∧
      disk.tree.find? target ≠ some .directory ∧ ¬ target.IsWithin source then
    { tree := disk.tree.move source target
      directory :=
        { disk.directory with location := disk.directory.location.relocate source target }
      standing := find?_move_directory hplace.1 hplace.2.1 hplace.2.2 disk.standing }
  else disk

/-- Makes a directory where a walk has ended. -/
def makeDirectory (disk : Disk) : Place → Except Fault (Disk × Location)
  | .found _ _ => .error .alreadyExists
  | .free location => .ok (disk.fill location .directory, location)

/-- Opens a file to be written at its end, and makes it if it is not there.
The location is where the file really is, all links followed. -/
def openAppend (disk : Disk) (path : String) : Except Fault (Disk × Location) :=
  match disk.tree.walk .openFile .root path with
  | .error fault => .error fault
  | .ok (.free location) => .ok (disk.fill location (.file []), location)
  | .ok (.found location (.file _)) => .ok (disk, location)
  | .ok (.found location .sink) => .ok (disk, location)
  | .ok (.found _ _) => .error .isDirectory

/-- Whether a path leads to anything. -/
def leads (disk : Disk) (path : String) : Bool :=
  (disk.tree.lookAt .root path).isSome

/-- Removes the entry that a path names, and says what is in the way. -/
def unlink (disk : Disk) (path : String) : Disk × Option Fault :=
  match disk.tree.walk .change .root path with
  | .error fault => (disk, some fault)
  | .ok (.free _) => (disk, some .notFound)
  | .ok (.found _ .directory) => (disk, some .isDirectory)
  | .ok (.found location _) => (disk.discard location, none)

/-- Gives the entry that a path names another path.  What is there already gives way to an
entry of its kind, unless it is a directory. -/
def rename (disk : Disk) (source target : String) : Disk × Option Fault :=
  match disk.tree.walk .change .root source, disk.tree.walk .change .root target with
  | .error fault, _ => (disk, some fault)
  | .ok (.free _), _ => (disk, some .notFound)
  | _, .error fault => (disk, some fault)
  | _, .ok (.found _ .directory) => (disk, some .isDirectory)
  | .ok (.found _ .directory), .ok (.found _ _) => (disk, some .notDirectory)
  | .ok (.found place _), .ok (.found next _) => (disk.move place next, none)
  | .ok (.found place _), .ok (.free next) => (disk.move place next, none)

end Disk

end SqlReach
