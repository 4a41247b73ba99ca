import Mathlib.Data.Option.Defs
import SqlReach.FileTree.Resolve
import SqlReach.Proofs.FileTree.Changes

/-!
# The contents of files

Where a path leads does not depend on what the files hold.  Two file trees that have
the same entries at the same locations, the contents of files aside, resolve every
path alike; a walk fails in both for the same reason, or it ends in both at the same
place.  So what is read from the one and from the other differs only as the contents
of the file at the end of the path differ.
-/

namespace SqlReach

/-- The same failure, or results that are related. -/
inductive EndAlike {ε α : Type} (related : α → α → Prop) : Except ε α → Except ε α → Prop
  | error (cause : ε) : EndAlike related (.error cause) (.error cause)
  | ok {left right : α} (hresult : related left right) : EndAlike related (.ok left) (.ok right)

/-- Two entries of the same kind.  Files may have different contents, as long as
these are related. -/
inductive Entry.Alike (related : List UInt8 → List UInt8 → Prop) : Entry → Entry → Prop
  | directory : Alike related .directory .directory
  | file {left right : List UInt8} (hcontent : related left right) :
      Alike related (.file left) (.file right)
  | sink : Alike related .sink .sink
  | link (target : String) : Alike related (.link target) (.link target)

namespace FileTree

variable {related : List UInt8 → List UInt8 → Prop} {left right : FileTree}

/-- Two file trees with entries of the same kind everywhere. -/
def Alike (related : List UInt8 → List UInt8 → Prop) (left right : FileTree) : Prop :=
  ∀ location, Option.Rel (Entry.Alike related) (left.find? location) (right.find? location)

/-- The same place, with entries of the same kind. -/
inductive Place.Alike (related : List UInt8 → List UInt8 → Prop) : Place → Place → Prop
  | free (location : Location) : Alike related (.free location) (.free location)
  | found (location : Location) {entry other : Entry} (hentry : entry.Alike related other) :
      Alike related (.found location entry) (.found location other)

/-- A walk takes the same course in both trees.  The recursion is that of the walk:
either fewer links may be followed, or fewer names are left. -/
theorem Alike.walkNames (halike : left.Alike related right) (purpose : Purpose) (links : Nat)
    (here : Location) (names : List String) :
    EndAlike (Place.Alike related) (left.walkNames purpose links here names)
      (right.walkNames purpose links here names) := by
  match names with
  | [] =>
      rw [FileTree.walkNames, FileTree.walkNames]
      exact .ok (.found here .directory)
  | text :: rest =>
      rw [FileTree.walkNames, FileTree.walkNames]
      split
      · exact halike.walkNames purpose links here rest
      split
      · exact halike.walkNames purpose links here.parent rest
      split
      · exact .error Fault.isDirectory
      split
      · exact .error Fault.nameTooLong
      cases Name.ofText? text with
      | none => exact .error Fault.notFound
      | some name =>
          have hentries := halike (here.child name)
          dsimp only
          generalize left.find? (here.child name) = found at hentries ⊢
          generalize right.find? (here.child name) = other at hentries ⊢
          cases hentries with
          | none =>
              dsimp only
              split
              · exact .ok (.free (here.child name))
              · exact .error Fault.notFound
          | some hentry =>
              cases hentry with
              | directory => exact halike.walkNames purpose links (here.child name) rest
              | file hcontent =>
                  dsimp only
                  split
                  · exact .ok (.found (here.child name) (.file hcontent))
                  · exact .error Fault.notDirectory
              | sink =>
                  dsimp only
                  split
                  · exact .ok (.found (here.child name) .sink)
                  · exact .error Fault.notDirectory
              | link target =>
                  dsimp only
                  split
                  · exact .ok (.found (here.child name) (.link target))
                  · cases links with
                    | zero => exact .error Fault.linkLoop
                    | succ links => exact halike.walkNames purpose links _ _
termination_by (links, names.length)

theorem Alike.walkLost (halike : left.Alike related right) (purpose : Purpose) (here : Location)
    (lost : Nat) (names : List String) :
    EndAlike (Place.Alike related) (left.walkLost purpose here lost names)
      (right.walkLost purpose here lost names) := by
  fun_induction FileTree.walkLost left purpose here lost names with
  | case1 names =>
      rw [FileTree.walkLost]
      exact halike.walkNames purpose linkLimit here names
  | case2 lost => exact .ok (.found here .directory)
  | case3 lost text rest hstay ih =>
      rw [FileTree.walkLost, if_pos hstay]
      exact ih
  | case4 lost rest hstay ih =>
      rw [FileTree.walkLost, if_neg hstay, if_pos rfl]
      exact ih
  | case5 lost text rest hstay hparent =>
      rw [FileTree.walkLost, if_neg hstay, if_neg hparent]
      exact .error Fault.notFound

theorem Alike.walk (halike : left.Alike related right) (purpose : Purpose) (directory : Directory)
    (path : String) :
    EndAlike (Place.Alike related) (left.walk purpose directory path)
      (right.walk purpose directory path) := by
  rw [FileTree.walk, FileTree.walk]
  split
  · exact .error Fault.notFound
  split
  · exact .error Fault.nameTooLong
  split
  · exact halike.walkNames purpose linkLimit _ _
  · exact halike.walkLost purpose _ _ _

/-- Two file trees with the same links. -/
def SameLinks (left right : FileTree) : Prop :=
  ∀ location target,
    left.find? location = some (.link target) ↔ right.find? location = some (.link target)

theorem SameLinks.trans {third : FileTree} (hlinks : left.SameLinks right)
    (hlater : right.SameLinks third) : left.SameLinks third :=
  fun location target => (hlinks location target).trans (hlater location target)

theorem Alike.sameLinks (halike : left.Alike related right) : left.SameLinks right := by
  intro location target
  have hentries := halike location
  generalize left.find? location = found at hentries ⊢
  generalize right.find? location = other at hentries ⊢
  cases hentries with
  | none => exact Iff.rfl
  | some hentry => cases hentry <;> simp

/-- Links are all that the resolver looks at. -/
theorem SameLinks.linkAt_eq (hlinks : left.SameLinks right) (limits : Limits)
    (directory : Directory) : left.linkAt limits directory = right.linkAt limits directory := by
  funext spot
  rw [linkAt, linkAt]
  split
  · rfl
  · cases spot.place? directory with
    | none => rfl
    | some location =>
        have hsame := hlinks location
        simp only [Option.bind_some]
        split
        · rename_i target hentry
          rw [(hsame target).mp hentry]
        · rename_i hother
          split
          · rename_i target hentry
            exact absurd ((hsame target).mpr hentry) (hother target)
          · rfl

theorem SameLinks.replaceLinks_eq (hlinks : left.SameLinks right) (limits : Limits)
    (directory : Directory) (path : String) :
    left.replaceLinks limits directory path = right.replaceLinks limits directory path := by
  rw [replaceLinks, replaceLinks, hlinks.linkAt_eq]

theorem Alike.resolve_eq (halike : left.Alike related right) (limits : Limits)
    (directory : Directory) (path : String) :
    left.resolve limits directory path = right.resolve limits directory path := by
  rw [resolve, resolve, halike.sameLinks.replaceLinks_eq]
  split
  · rfl
  · rename_i resolved hresolved
    have hwalk := halike.walk .look .root resolved.text
    generalize left.walk .look .root resolved.text = found at hwalk ⊢
    generalize right.walk .look .root resolved.text = other at hwalk ⊢
    cases hwalk with
    | error fault => rfl
    | ok hplace => rfl

theorem Alike.contentAt (hrefl : ∀ content, related content content)
    (halike : left.Alike related right) (directory : Directory) (path : String) :
    EndAlike related (left.contentAt directory path) (right.contentAt directory path) := by
  rw [FileTree.contentAt, FileTree.contentAt]
  have hwalk := halike.walk .look directory path
  generalize left.walk .look directory path = found at hwalk ⊢
  generalize right.walk .look directory path = other at hwalk ⊢
  cases hwalk with
  | error fault => exact .error fault
  | ok hplace =>
      cases hplace with
      | free location => exact .error Fault.notFound
      | found location hentry =>
          cases hentry with
          | file hcontent => exact .ok hcontent
          | directory => exact .error Fault.isDirectory
          | sink => exact .ok (hrefl [])
          | link target => exact .error Fault.isDirectory

/-! ## One file rewritten -/

theorem rel_alike_self (hrefl : ∀ content, related content content) (entry : Option Entry) :
    Option.Rel (Entry.Alike related) entry entry := by
  cases entry with
  | none => exact .none
  | some entry =>
      apply Option.Rel.some
      cases entry with
      | directory => exact .directory
      | file content => exact .file (hrefl content)
      | sink => exact .sink
      | link target => exact .link target

theorem alike_refl (hrefl : ∀ content, related content content) (tree : FileTree) :
    tree.Alike related tree :=
  fun location => rel_alike_self hrefl (tree.find? location)

theorem alike_put (hrefl : ∀ content, related content content) {tree : FileTree}
    {location : Location} {content other : List UInt8}
    (hfile : tree.find? location = some (.file content)) (hcontent : related content other) :
    tree.Alike related (tree.put location (.file other)) := by
  intro place
  have hplace : tree.find? location ≠ some .directory := by simp [hfile]
  rw [find?_put (find?_parent hfile) hplace]
  split
  · rename_i hthere
    rw [hthere, hfile]
    exact .some (.file hcontent)
  · exact rel_alike_self hrefl _

end FileTree

end SqlReach
