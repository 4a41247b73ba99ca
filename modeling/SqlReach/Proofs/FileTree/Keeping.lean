import SqlReach.Proofs.FileTree.Opening

/-!
# What stays on the disk

While a journal is set up and kept, free places are filled with directories and empty
files, the log file is written to, and now and then the log file and its backups change
their places.  As long as these are files, no link is touched, and apart from them every
entry stays what it is, the content of the log file aside.  So a path that leads to
something goes on leading there, and whatever is read there stays the same, unless it is
the log file or one of its backups.
-/

namespace SqlReach.FileTree

/-- What can become of an entry: it stays as it is, unless it is the log file. -/
inductive Kept (log : Option Location) (location : Location) : Entry → Entry → Prop
  | same (entry : Entry) : Kept log location entry entry
  | written (hlog : log = some location) (content other : List UInt8) :
      Kept log location (.file content) (.file other)

/-- A location is apart from places if it is neither at nor below one of them. -/
def IsApart (places : List Location) (location : Location) : Prop :=
  ∀ place ∈ places, ¬ location.IsWithin place

/-- The links are the same, and apart from the places, in which there were only files,
nothing that was there is lost. -/
structure Keeps (places : List Location) (log : Option Location) (before after : FileTree) :
    Prop where
  sameLinks : before.SameLinks after
  exists_file : ∀ location ∈ places, ∀ entry, before.find? location = some entry →
    ∃ content, entry = .file content
  exists_kept : ∀ location ∉ places, ∀ entry, before.find? location = some entry →
    ∃ other, after.find? location = some other ∧ Kept log location entry other

variable {places : List Location} {log : Option Location} {before between after : FileTree}

theorem keeps_refl (log : Option Location) (tree : FileTree) : tree.Keeps [] log tree where
  sameLinks _ _ := Iff.rfl
  exists_file := nofun
  exists_kept _ _ entry hentry := ⟨entry, hentry, .same entry⟩

theorem Keeps.trans (hfirst : before.Keeps [] log between)
    (hsecond : between.Keeps [] log after) : before.Keeps [] log after where
  sameLinks := hfirst.sameLinks.trans hsecond.sameLinks
  exists_file := nofun
  exists_kept location hplace entry hentry := by
    obtain ⟨middle, hmiddle, hkept⟩ := hfirst.exists_kept location hplace entry hentry
    obtain ⟨other, hother, hlater⟩ := hsecond.exists_kept location hplace middle hmiddle
    refine ⟨other, hother, ?_⟩
    cases hkept with
    | same entry => exact hlater
    | written hlog content early =>
        cases hlater with
        | same entry => exact .written hlog content early
        | written hlog early late => exact .written hlog content late

/-- What was there before something was added is kept. -/
theorem Grows.keeps (hgrows : before.Grows between) (hkeeps : between.Keeps places log after) :
    before.Keeps places log after where
  sameLinks := hgrows.sameLinks.trans hkeeps.sameLinks
  exists_file location hplace entry hentry :=
    hkeeps.exists_file location hplace entry (hgrows.find?_eq hentry)
  exists_kept location hplace entry hentry :=
    hkeeps.exists_kept location hplace entry (hgrows.find?_eq hentry)

theorem keeps_append (disk : Disk) (location : Location) (bytes : List UInt8) :
    disk.tree.Keeps [] (some location) (disk.append location bytes).tree := by
  by_cases hfile : ∃ content, disk.tree.find? location = some (.file content)
  · obtain ⟨content, hfile⟩ := hfile
    refine ⟨(disk.alike_append location bytes).1.sameLinks, nofun, ?_⟩
    intro place _ entry hentry
    have hplace : disk.tree.find? location ≠ some .directory := by simp [hfile]
    rw [(Disk.append_of_file hfile bytes).1, find?_put (find?_parent hfile) hplace]
    split
    · rename_i hsame
      subst hsame
      rw [hfile] at hentry
      cases hentry
      exact ⟨_, rfl, .written rfl content _⟩
    · exact ⟨entry, hentry, .same entry⟩
  · rw [Disk.append_of_not_file (not_exists.mp hfile)]
    exact keeps_refl _ disk.tree

/-! ## Walks that arrive -/

/-- What is on the way of a walk is in none of the places, since it is no file. -/
theorem Keeps.find?_eq (hkeeps : before.Keeps places log after) {location : Location}
    {entry : Entry} (hentry : before.find? location = some entry)
    (hfile : ∀ content, entry ≠ .file content) :
    after.find? location = some entry := by
  have hplace : location ∉ places := by
    intro hplace
    obtain ⟨content, hcontent⟩ := hkeeps.exists_file location hplace entry hentry
    exact hfile content hcontent
  obtain ⟨other, hother, hkept⟩ := hkeeps.exists_kept location hplace entry hentry
  cases hkept with
  | same => exact hother
  | written _ content _ => exact absurd rfl (hfile content)

/-- A walk that arrives somewhere still arrives, and at the same place unless that is one of
the places.  The recursion is that of the walk: either fewer links may be followed, or fewer
names are left. -/
theorem Keeps.walkNames (hkeeps : before.Keeps places log after) {links : Nat}
    {here place : Location} {names : List String} {entry : Entry}
    (hwalk : before.walkNames .look links here names = .ok (.found place entry)) :
    ∃ reached, after.walkNames .look links here names = .ok reached ∧
      (place ∉ places → ∃ other, reached = .found place other ∧ Kept log place entry other) := by
  match names with
  | [] =>
      rw [FileTree.walkNames] at hwalk ⊢
      cases hwalk
      exact ⟨_, rfl, fun _ => ⟨_, rfl, .same _⟩⟩
  | text :: rest =>
      rw [FileTree.walkNames] at hwalk ⊢
      split at hwalk
      · rw [if_pos ‹_›]
        exact hkeeps.walkNames hwalk
      rw [if_neg ‹_›]
      split at hwalk
      · rw [if_pos ‹_›]
        exact hkeeps.walkNames hwalk
      rw [if_neg ‹_›]
      split at hwalk
      · cases hwalk
      rw [if_neg ‹_›]
      split at hwalk
      · cases hwalk
      rw [if_neg ‹_›]
      cases hname : Name.ofText? text with
      | none =>
          simp only [hname] at hwalk
          cases hwalk
      | some name =>
          cases hentry : before.find? (here.child name) with
          | none =>
              simp only [hname, hentry] at hwalk
              split at hwalk <;> cases hwalk
          | some found =>
              cases found with
              | directory =>
                  simp only [hname, hentry] at hwalk
                  simp only [hkeeps.find?_eq hentry (by simp)]
                  exact hkeeps.walkNames hwalk
              | link target =>
                  simp only [hname, hentry] at hwalk
                  simp only [hkeeps.find?_eq hentry (by simp)]
                  split at hwalk
                  · rename_i hchange
                    cases hchange.2
                  · rw [if_neg ‹_›]
                    cases links with
                    | zero => cases hwalk
                    | succ links => exact hkeeps.walkNames hwalk
              | sink =>
                  simp only [hname, hentry] at hwalk
                  simp only [hkeeps.find?_eq hentry (by simp)]
                  split at hwalk
                  · rename_i hlast
                    cases hwalk
                    rw [if_pos hlast]
                    exact ⟨_, rfl, fun _ => ⟨_, rfl, .same _⟩⟩
                  · cases hwalk
              | file content =>
                  simp only [hname, hentry] at hwalk
                  split at hwalk
                  · rename_i hlast
                    cases hwalk
                    subst hlast
                    by_cases hplace : here.child name ∈ places
                    · -- Whatever is there now, it is no link that could fail to lead on.
                      cases hlater : after.find? (here.child name) with
                      | none =>
                          simp only [hlater]
                          exact ⟨_, rfl, fun hother => absurd hplace hother⟩
                      | some late =>
                          cases late with
                          | link target =>
                              rw [(hkeeps.sameLinks _ _).mpr hlater] at hentry
                              cases hentry
                          | directory =>
                              simp only [hlater, FileTree.walkNames]
                              exact ⟨_, rfl, fun hother => absurd hplace hother⟩
                          | file other =>
                              simp only [hlater]
                              exact ⟨_, rfl, fun hother => absurd hplace hother⟩
                          | sink =>
                              simp only [hlater]
                              exact ⟨_, rfl, fun hother => absurd hplace hother⟩
                    · obtain ⟨other, hother, hkept⟩ := hkeeps.exists_kept _ hplace _ hentry
                      cases hkept with
                      | same =>
                          simp only [hother]
                          exact ⟨_, rfl, fun _ => ⟨_, rfl, .same _⟩⟩
                      | written hlog early late =>
                          simp only [hother]
                          exact ⟨_, rfl, fun _ => ⟨_, rfl, .written hlog content late⟩⟩
                  · cases hwalk
termination_by (links, names.length)

section Arriving

variable (hkeeps : before.Keeps places log after)

include hkeeps

theorem Keeps.walk {path : String} {place : Location} {entry : Entry}
    (hwalk : before.walk .look .root path = .ok (.found place entry)) :
    ∃ reached, after.walk .look .root path = .ok reached ∧
      (place ∉ places → ∃ other, reached = .found place other ∧ Kept log place entry other) := by
  rw [FileTree.walk] at hwalk ⊢
  split at hwalk
  · cases hwalk
  rw [if_neg ‹_›]
  split at hwalk
  · cases hwalk
  rw [if_neg ‹_›]
  split at hwalk
  · rw [if_pos ‹_›]
    exact hkeeps.walkNames hwalk
  · rw [if_neg ‹_›]
    rw [Directory.root, walkLost] at hwalk ⊢
    exact hkeeps.walkNames hwalk

/-- A path that is resolved to something is resolved to the same. -/
theorem Keeps.resolve_eq {limits : Limits} {directory : Directory} {path : String}
    {place : Location} {resolved : AbsolutePath} {entry : Entry}
    (hresolve : before.resolve limits directory path = .ok resolved)
    (hthere : before.walk .look .root resolved.text = .ok (.found place entry)) :
    after.resolve limits directory path = .ok resolved := by
  obtain ⟨reached, hlater, -⟩ := hkeeps.walk hthere
  rw [resolve, ← hkeeps.sameLinks.replaceLinks_eq]
  rw [resolve] at hresolve
  cases hlinks : before.replaceLinks limits directory path with
  | error cause =>
      simp only [hlinks] at hresolve
      cases hresolve
  | ok known =>
      simp only [hlinks] at hresolve ⊢
      split at hresolve
      · cases hresolve
      · cases hresolve
        rw [hlater]

/-- What is read at the end of a path stays, unless it is the log file. -/
theorem Keeps.contentAt {path : String} {place : Location} {entry : Entry}
    {content : List UInt8} (hthere : before.walk .look .root path = .ok (.found place entry))
    (hplace : place ∉ places) (hcontent : before.contentAt .root path = .ok content) :
    ∃ other, after.contentAt .root path = .ok other ∧ (log ≠ some place → other = content) := by
  obtain ⟨reached, hlater, hfound⟩ := hkeeps.walk hthere
  obtain ⟨late, rfl, hkept⟩ := hfound hplace
  rw [FileTree.contentAt, hthere] at hcontent
  rw [FileTree.contentAt, hlater]
  cases hkept with
  | same => exact ⟨content, hcontent, fun _ => rfl⟩
  | written hlog early late => exact ⟨late, rfl, fun hother => absurd hlog hother⟩

end Arriving

end SqlReach.FileTree

namespace SqlReach

/-- Every path goes on leading where it leads: neither a link nor the working directory
has changed. -/
structure Disk.LeadsAlike (before after : Disk) : Prop where
  sameLinks : before.tree.SameLinks after.tree
  directory_eq : after.directory = before.directory

namespace Disk

variable {before between after : Disk}

theorem LeadsAlike.trans (hfirst : before.LeadsAlike between)
    (hsecond : between.LeadsAlike after) : before.LeadsAlike after :=
  ⟨hfirst.sameLinks.trans hsecond.sameLinks, hsecond.directory_eq.trans hfirst.directory_eq⟩

theorem Grows.leadsAlike (hgrows : before.Grows after) : before.LeadsAlike after :=
  ⟨hgrows.tree.sameLinks, hgrows.directory_eq⟩

end Disk

end SqlReach
