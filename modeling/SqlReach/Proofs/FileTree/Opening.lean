import SqlReach.FileTree.Directories
import SqlReach.Proofs.FileTree.Contents

/-!
# Opening a log file

A log file is opened to be written at its end, and it is made if it is not there, with
the directories on the way to it.  All of this only ever fills free places with entries
that hold nothing, so nothing that was on the disk is lost.  Once the file is open it is
found again at the same place, and whatever is written there follows what it held before,
unless a device stands in its place, which keeps nothing.
-/

namespace SqlReach

namespace FileTree

/-- The bytes of the file at a location; there are none where there is no file. -/
def bytesAt (tree : FileTree) (location : Location) : List UInt8 :=
  match tree.find? location with
  | some (.file content) => content
  | _ => []

/-! ## Trees that grow -/

/-- The entries stay as they are, and those that are new are directories or empty files. -/
def Grows (before after : FileTree) : Prop :=
  ∀ location, after.find? location = before.find? location ∨
    before.find? location = none ∧
      (after.find? location = some .directory ∨ after.find? location = some (.file []))

theorem grows_refl (tree : FileTree) : tree.Grows tree :=
  fun _ => Or.inl rfl

theorem Grows.trans {first second third : FileTree} (hfirst : first.Grows second)
    (hsecond : second.Grows third) : first.Grows third := by
  intro location
  rcases hsecond location with hsame | ⟨hfree, hempty⟩
  · rw [hsame]
    exact hfirst location
  · rcases hfirst location with hearlier | ⟨hnone, -⟩
    · exact Or.inr ⟨hearlier ▸ hfree, hempty⟩
    · exact Or.inr ⟨hnone, hempty⟩

theorem Grows.find?_eq {before after : FileTree} (hgrows : before.Grows after)
    {location : Location} {entry : Entry} (hentry : before.find? location = some entry) :
    after.find? location = some entry := by
  rcases hgrows location with hsame | ⟨hfree, -⟩
  · rw [hsame, hentry]
  · rw [hfree] at hentry
    cases hentry

theorem Grows.sameLinks {before after : FileTree} (hgrows : before.Grows after) :
    before.SameLinks after := by
  intro location target
  rcases hgrows location with hsame | ⟨hfree, hempty⟩
  · rw [hsame]
  · rcases hempty with hnew | hnew <;> simp [hfree, hnew]

theorem grows_put {tree : FileTree} {location : Location} {entry : Entry}
    (hparent : tree.find? location.parent = some .directory) (hfree : tree.find? location = none)
    (hempty : entry = .directory ∨ entry = .file []) : tree.Grows (tree.put location entry) := by
  intro other
  rw [find?_put hparent (by simp [hfree])]
  split
  · rename_i hother
    refine Or.inr ⟨hother ▸ hfree, ?_⟩
    rcases hempty with rfl | rfl
    · exact Or.inl rfl
    · exact Or.inr rfl
  · exact Or.inl rfl

/-! ## Where a walk ends -/

/-- The place is in the tree as the walk says, and a free place is in a directory. -/
def Place.IsIn (tree : FileTree) : Place → Prop
  | .free location => tree.find? location = none ∧ tree.find? location.parent = some .directory
  | .found location entry => tree.find? location = some entry

theorem find?_origin {tree : FileTree} {here : Location}
    (hhere : tree.find? here = some .directory) (path : String) :
    tree.find? (Path.origin here path) = some .directory := by
  rw [Path.origin]
  split
  · rfl
  · exact hhere

/-- The recursion is that of the walk: either fewer links may be followed, or fewer names
are left. -/
theorem isIn_of_walkNames {tree : FileTree} {purpose : Purpose} {links : Nat} {here : Location}
    {names : List String} {place : Place} (hhere : tree.find? here = some .directory)
    (hwalk : tree.walkNames purpose links here names = .ok place) : place.IsIn tree := by
  match names with
  | [] =>
      rw [walkNames] at hwalk
      cases hwalk
      exact hhere
  | text :: rest =>
      rw [walkNames] at hwalk
      split at hwalk
      · exact isIn_of_walkNames hhere hwalk
      split at hwalk
      · exact isIn_of_walkNames (find?_parent hhere) hwalk
      split at hwalk
      · cases hwalk
      split at hwalk
      · cases hwalk
      cases hname : Name.ofText? text with
      | none =>
          simp only [hname] at hwalk
          cases hwalk
      | some name =>
          cases hentry : tree.find? (here.child name) with
          | none =>
              simp only [hname, hentry] at hwalk
              split at hwalk
              · cases hwalk
                exact ⟨hentry, by rwa [Location.parent_child]⟩
              · cases hwalk
          | some entry =>
              cases entry with
              | directory =>
                  simp only [hname, hentry] at hwalk
                  exact isIn_of_walkNames hentry hwalk
              | file content =>
                  simp only [hname, hentry] at hwalk
                  split at hwalk
                  · cases hwalk
                    exact hentry
                  · cases hwalk
              | sink =>
                  simp only [hname, hentry] at hwalk
                  split at hwalk
                  · cases hwalk
                    exact hentry
                  · cases hwalk
              | link target =>
                  simp only [hname, hentry] at hwalk
                  split at hwalk
                  · cases hwalk
                    exact hentry
                  · cases links with
                    | zero => cases hwalk
                    | succ links => exact isIn_of_walkNames (find?_origin hhere target) hwalk
termination_by (links, names.length)

theorem isIn_of_walkLost {tree : FileTree} {purpose : Purpose} {here : Location} {lost : Nat}
    {names : List String} {place : Place} (hhere : tree.find? here = some .directory)
    (hwalk : tree.walkLost purpose here lost names = .ok place) : place.IsIn tree := by
  fun_induction walkLost tree purpose here lost names with
  | case1 names => exact isIn_of_walkNames hhere hwalk
  | case2 lost =>
      cases hwalk
      exact hhere
  | case3 lost text rest hstay ih => exact ih hwalk
  | case4 lost rest hstay ih => exact ih hwalk
  | case5 lost text rest hstay hparent => cases hwalk

theorem isIn_of_walk {tree : FileTree} {purpose : Purpose} {directory : Directory} {path : String}
    {place : Place} (hdirectory : tree.find? directory.location = some .directory)
    (hwalk : tree.walk purpose directory path = .ok place) : place.IsIn tree := by
  rw [walk] at hwalk
  split at hwalk
  · cases hwalk
  split at hwalk
  · cases hwalk
  split at hwalk
  · exact isIn_of_walkNames (find?_root tree) hwalk
  · exact isIn_of_walkLost hdirectory hwalk

theorem isIn_of_walkStep {tree : FileTree} {directory : Directory} {reached : Option Location}
    {step : Step} {place : Place} (hdirectory : tree.find? directory.location = some .directory)
    (hreached : ∀ here ∈ reached, tree.find? here = some .directory)
    (hwalk : tree.walkStep directory reached step = .ok place) : place.IsIn tree := by
  unfold walkStep at hwalk
  split at hwalk
  · split at hwalk
    · cases hwalk
    · exact isIn_of_walkNames (hreached _ rfl) hwalk
  · exact isIn_of_walk hdirectory hwalk

/-- A file that a walk found to be missing is found where it has been made.  Nothing else
is new, so the walk takes the same course up to there. -/
theorem walkNames_openFile_of_free {tree : FileTree} {links : Nat} {here location : Location}
    {names : List String} (hhere : tree.find? here = some .directory)
    (hwalk : tree.walkNames .openFile links here names = .ok (.free location)) (entry : Entry)
    (hentry : entry ≠ .directory) (hlink : ∀ target, entry ≠ .link target) :
    (tree.put location entry).walkNames .openFile links here names =
      .ok (.found location entry) := by
  have hplace := isIn_of_walkNames hhere hwalk
  have hput := find?_put hplace.2 (by simp [hplace.1]) entry
  match names with
  | [] =>
      rw [walkNames] at hwalk
      cases hwalk
  | text :: rest =>
      rw [walkNames] at hwalk ⊢
      split at hwalk
      · rw [if_pos ‹_›]
        exact walkNames_openFile_of_free hhere hwalk entry hentry hlink
      rw [if_neg ‹_›]
      split at hwalk
      · rw [if_pos ‹_›]
        exact walkNames_openFile_of_free (find?_parent hhere) hwalk entry hentry hlink
      rw [if_neg ‹_›]
      split at hwalk
      · cases hwalk
      rename_i hslash
      rw [if_neg hslash]
      split at hwalk
      · cases hwalk
      rw [if_neg ‹_›]
      cases hname : Name.ofText? text with
      | none =>
          simp only [hname] at hwalk
          cases hwalk
      | some name =>
          cases hfound : tree.find? (here.child name) with
          | none =>
              simp only [hname, hfound] at hwalk
              split at hwalk
              · rename_i hempty
                cases hwalk
                have hrest : rest = [] := by
                  apply Decidable.byContradiction
                  exact fun hrest => hslash ⟨rfl, hrest, hempty⟩
                simp only [hput, if_true, hrest]
              · cases hwalk
          | some known =>
              have hother : here.child name ≠ location := by
                rintro rfl
                rw [hplace.1] at hfound
                cases hfound
              simp only [hname, hfound] at hwalk
              simp only [hput, if_neg hother, hfound]
              cases known with
              | directory => exact walkNames_openFile_of_free hfound hwalk entry hentry hlink
              | file content =>
                  dsimp only at hwalk
                  split at hwalk <;> cases hwalk
              | sink =>
                  dsimp only at hwalk
                  split at hwalk <;> cases hwalk
              | link target =>
                  dsimp only at hwalk ⊢
                  split at hwalk
                  · cases hwalk
                  · rw [if_neg ‹_›]
                    cases links with
                    | zero => cases hwalk
                    | succ links =>
                        exact walkNames_openFile_of_free (find?_origin hhere target) hwalk entry
                          hentry hlink
termination_by (links, names.length)

/-- The path leads to a file or a device, which can be written to. -/
inductive OpensAt (tree : FileTree) (path : String) (location : Location) : Prop
  | file {content : List UInt8}
      (hwalk : tree.walk .openFile .root path = .ok (.found location (.file content))) :
      OpensAt tree path location
  | sink (hwalk : tree.walk .openFile .root path = .ok (.found location .sink)) :
      OpensAt tree path location

theorem OpensAt.find?_cases {tree : FileTree} {path : String} {location : Location}
    (hopens : tree.OpensAt path location) :
    (∃ content, tree.find? location = some (.file content)) ∨
      tree.find? location = some .sink := by
  cases hopens with
  | file hwalk => exact Or.inl ⟨_, isIn_of_walk rfl hwalk⟩
  | sink hwalk => exact Or.inr (isIn_of_walk rfl hwalk)

/-- Where a path can be opened does not depend on what is written. -/
theorem OpensAt.of_alike {related : List UInt8 → List UInt8 → Prop} {before after : FileTree}
    {path : String} {location : Location} (hopens : before.OpensAt path location)
    (halike : before.Alike related after) : after.OpensAt path location := by
  have hwalks := halike.walk .openFile .root path
  cases hopens with
  | file hwalk =>
      rw [hwalk] at hwalks
      generalize hafter : after.walk .openFile .root path = walked at hwalks
      cases hwalks with
      | ok hplace =>
          cases hplace with
          | found _ hentry =>
              cases hentry with
              | file hcontent => exact .file hafter
  | sink hwalk =>
      rw [hwalk] at hwalks
      generalize hafter : after.walk .openFile .root path = walked at hwalks
      cases hwalks with
      | ok hplace =>
          cases hplace with
          | found _ hentry =>
              cases hentry with
              | sink => exact .sink hafter

end FileTree

namespace Disk

open FileTree

variable {disk before between after : Disk} {location : Location} {path : String}

/-! ## Making directories -/

/-- The tree grows around the working directory. -/
structure Grows (before after : Disk) : Prop where
  tree : before.tree.Grows after.tree
  directory_eq : after.directory = before.directory

theorem grows_refl (disk : Disk) : disk.Grows disk :=
  ⟨disk.tree.grows_refl, rfl⟩

theorem Grows.trans (hfirst : before.Grows between) (hsecond : between.Grows after) :
    before.Grows after :=
  ⟨hfirst.tree.trans hsecond.tree, hsecond.directory_eq.trans hfirst.directory_eq⟩

theorem fill_of_free (hfree : disk.tree.find? location = none) (entry : Entry) :
    (disk.fill location entry).tree = disk.tree.put location entry ∧
      (disk.fill location entry).directory = disk.directory := by
  rw [fill, dif_pos hfree]
  exact ⟨rfl, rfl⟩

theorem grows_fill {entry : Entry} (hplace : (Place.free location).IsIn disk.tree)
    (hempty : entry = .directory ∨ entry = .file []) :
    disk.Grows (disk.fill location entry) := by
  obtain ⟨htree, hdirectory⟩ := fill_of_free hplace.1 entry
  refine ⟨?_, hdirectory⟩
  rw [htree]
  exact grows_put hplace.2 hplace.1 hempty

theorem find?_fill {entry : Entry} (hplace : (Place.free location).IsIn disk.tree) :
    (disk.fill location entry).tree.find? location = some entry := by
  rw [(fill_of_free hplace.1 entry).1, find?_put hplace.2 (by simp [hplace.1]), if_pos rfl]

theorem grows_of_makeStep {made : Disk} {reached : Option Location} {step : Step}
    (hreached : ∀ here ∈ reached, disk.tree.find? here = some .directory)
    (hmake : disk.makeStep reached step = .ok (made, location)) :
    disk.Grows made ∧ made.tree.find? location = some .directory := by
  unfold makeStep at hmake
  split at hmake
  · cases hmake
  cases hwalk : disk.tree.walkStep disk.directory reached step with
  | error fault =>
      simp only [hwalk] at hmake
      cases hmake
  | ok place =>
      have hplace := isIn_of_walkStep disk.standing hreached hwalk
      cases place with
      | found known entry =>
          simp only [hwalk] at hmake
          cases hmake
      | free known =>
          simp only [hwalk] at hmake
          cases hmake
          exact ⟨grows_fill hplace (Or.inl rfl), find?_fill hplace⟩

theorem grows_makeSteps (disk : Disk) {reached : Option Location}
    (hreached : ∀ here ∈ reached, disk.tree.find? here = some .directory) (steps : List Step) :
    disk.Grows (disk.makeSteps reached steps).1 := by
  induction steps generalizing disk reached with
  | nil => exact disk.grows_refl
  | cons step steps ih =>
      rw [makeSteps]
      split
      · exact ih disk hreached
      split
      · rename_i made location hmake
        obtain ⟨hgrows, hmade⟩ := grows_of_makeStep hreached hmake
        refine hgrows.trans (ih made ?_)
        rintro here ⟨⟩
        exact hmade
      · split
        · exact ih disk (by simp)
        · exact disk.grows_refl

theorem grows_makeDirectories (disk : Disk) (limit : Nat) (path : String) :
    disk.Grows (disk.makeDirectories limit path).1 := by
  rw [makeDirectories]
  split
  · exact disk.grows_refl
  · exact disk.grows_makeSteps (by simp) _

/-! ## Opening and writing -/

theorem walk_openFile_of_free (hwalk : disk.tree.walk .openFile .root path = .ok (.free location)) :
    (disk.fill location (.file [])).tree.walk .openFile .root path =
      .ok (.found location (.file [])) := by
  have hplace := isIn_of_walk rfl hwalk
  rw [(fill_of_free hplace.1 _).1]
  rw [walk] at hwalk ⊢
  split at hwalk
  · cases hwalk
  rw [if_neg ‹_›]
  split at hwalk
  · cases hwalk
  rw [if_neg ‹_›]
  have hhere : disk.tree.find? .root = some .directory := rfl
  split at hwalk
  · rw [if_pos ‹_›]
    exact walkNames_openFile_of_free hhere hwalk _ (by simp) (by simp)
  · rw [if_neg ‹_›]
    rw [Directory.root, walkLost] at hwalk ⊢
    exact walkNames_openFile_of_free hhere hwalk _ (by simp) (by simp)

/-- Opening a file makes it if need be, and from then on it is there. -/
theorem openAppend_eq_ok {opened : Disk} (hopen : disk.openAppend path = .ok (opened, location)) :
    disk.Grows opened ∧ opened.tree.OpensAt path location := by
  unfold openAppend at hopen
  cases hwalk : disk.tree.walk .openFile .root path with
  | error fault =>
      simp only [hwalk] at hopen
      cases hopen
  | ok place =>
      cases place with
      | free known =>
          simp only [hwalk] at hopen
          cases hopen
          exact ⟨grows_fill (isIn_of_walk rfl hwalk) (Or.inr rfl),
            .file (walk_openFile_of_free hwalk)⟩
      | found known entry =>
          cases entry with
          | directory =>
              simp only [hwalk] at hopen
              cases hopen
          | link target =>
              simp only [hwalk] at hopen
              cases hopen
          | file content =>
              simp only [hwalk] at hopen
              cases hopen
              exact ⟨disk.grows_refl, .file hwalk⟩
          | sink =>
              simp only [hwalk] at hopen
              cases hopen
              exact ⟨disk.grows_refl, .sink hwalk⟩

/-- What is open already is opened once more without a change. -/
theorem openAppend_of_opensAt (hopens : disk.tree.OpensAt path location) :
    disk.openAppend path = .ok (disk, location) := by
  cases hopens with
  | file hwalk => rw [openAppend, hwalk]
  | sink hwalk => rw [openAppend, hwalk]

theorem append_of_file {content : List UInt8}
    (hfile : disk.tree.find? location = some (.file content)) (bytes : List UInt8) :
    (disk.append location bytes).tree = disk.tree.put location (.file (content ++ bytes)) ∧
      (disk.append location bytes).directory = disk.directory := by
  unfold append
  split
  · rename_i known hknown
    rw [hfile] at hknown
    cases hknown
    exact ⟨rfl, rfl⟩
  · rename_i hother
    exact absurd hfile (hother content)

theorem append_of_not_file (hother : ∀ content, disk.tree.find? location ≠ some (.file content))
    (bytes : List UInt8) : disk.append location bytes = disk := by
  unfold append
  split
  · rename_i content hfile
    exact absurd hfile (hother content)
  · rfl

theorem alike_append (disk : Disk) (location : Location) (bytes : List UInt8) :
    disk.tree.Alike (fun _ _ => True) (disk.append location bytes).tree ∧
      (disk.append location bytes).directory = disk.directory := by
  by_cases hfile : ∃ content, disk.tree.find? location = some (.file content)
  · obtain ⟨content, hfile⟩ := hfile
    obtain ⟨htree, hdirectory⟩ := append_of_file hfile bytes
    refine ⟨?_, hdirectory⟩
    rw [htree]
    exact alike_put (fun _ => trivial) hfile trivial
  · rw [append_of_not_file (not_exists.mp hfile)]
    exact ⟨alike_refl (fun _ => trivial) disk.tree, rfl⟩

/-- What is written follows what was there, and nothing else is touched. -/
theorem bytesAt_append (hfile : ∃ content, disk.tree.find? location = some (.file content))
    (bytes : List UInt8) :
    (disk.append location bytes).tree.bytesAt location = disk.tree.bytesAt location ++ bytes := by
  obtain ⟨content, hfile⟩ := hfile
  have hplace : disk.tree.find? location ≠ some .directory := by simp [hfile]
  rw [(append_of_file hfile bytes).1, bytesAt, find?_put (find?_parent hfile) hplace, if_pos rfl,
    bytesAt, hfile]

end Disk

end SqlReach
