import Mathlib
import SqlReach.Proofs.FileTree.Contents
import SqlReach.Proofs.Scanner.Lines

/-!
# Real locations

A location is real if no link stands on the way to it, itself included.  The text of a
location names it: what is left of the text once it is divided at the slashes are the
names of the location.  So resolving the text of a real location comes back to it, whether
or not anything is there.
-/

namespace SqlReach

/-- A name that stands for no entry of a directory, but for the directory itself or for
the one around it. -/
abbrev NamesNoEntry (text : String) : Prop :=
  text = "" ∨ text = "." ∨ text = ".."

namespace Name

@[simp]
theorem ofText?_text (name : Name) : ofText? name.text = some name := by
  rw [ofText?, dif_pos]
  exact ⟨name.ne_empty, name.ne_here, name.ne_parent, name.slash_not_mem, name.null_not_mem⟩

theorem text_of_ofText? {text : String} {name : Name} (hname : ofText? text = some name) :
    name.text = text := by
  rw [ofText?] at hname
  split at hname
  · cases hname
    rfl
  · cases hname

theorem not_namesNoEntry (name : Name) : ¬ NamesNoEntry name.text := by
  simp [NamesNoEntry, name.ne_empty, name.ne_here, name.ne_parent]

end Name

namespace Path

theorem hasNull_eq_false_iff {path : String} : hasNull path = false ↔ '\x00' ∉ path.toList := by
  rw [hasNull, ← Bool.not_eq_true, List.contains_iff_mem]

/-- Between the slashes of a path without null characters stand the names of entries, and
those that stand for none. -/
theorem exists_name_of_mem_names {path text : String} (hpath : hasNull path = false)
    (htext : text ∈ names path) (hentry : ¬ NamesNoEntry text) :
    ∃ name, Name.ofText? text = some name := by
  obtain ⟨part, hpart, rfl⟩ := List.mem_map.mp htext
  rw [List.splitOn_eq_splitOnP] at hpart
  obtain ⟨hempty, hhere, hparent⟩ : String.ofList part ≠ "" ∧ String.ofList part ≠ "." ∧
      String.ofList part ≠ ".." := by
    simpa [NamesNoEntry, not_or] using hentry
  have hslash : '/' ∉ (String.ofList part).toList := by
    intro hslash
    rw [String.toList_ofList] at hslash
    simpa using Text.divides_eq_false_of_mem_splitOnP hpart '/' hslash
  have hnull : '\x00' ∉ (String.ofList part).toList := by
    rw [String.toList_ofList]
    exact fun hnull => hasNull_eq_false_iff.mp hpath (Text.subset_of_mem_splitOnP hpart hnull)
  exact ⟨_, dif_pos ⟨hempty, hhere, hparent, hslash, hnull⟩⟩

end Path

namespace Location

variable {location : Location}

theorem toList_text (location : Location) :
    location.text.toList =
      '/' :: ['/'].intercalate ((location.names.map Name.text).map String.toList) := by
  rw [text, String.toList_append, String.toList_intercalate]
  rfl

theorem isAbsolute_text (location : Location) : Path.isAbsolute location.text = true := by
  rw [Path.isAbsolute, toList_text]
  rfl

/-- In front of the first slash stands no name, and the root has none behind it. -/
theorem names_text (location : Location) :
    Path.names location.text =
      "" :: if location.names = [] then [""] else location.names.map Name.text := by
  rw [Path.names, toList_text, List.splitOn_cons_eq_if_modifyHead, if_pos (by decide),
    List.map_cons]
  split
  · rename_i hroot
    rw [hroot]
    rfl
  · rename_i hroot
    have hsplit : (['/'].intercalate ((location.names.map Name.text).map String.toList)).splitOn
        '/' = (location.names.map Name.text).map String.toList := by
      apply List.splitOn_intercalate
      · simpa using fun name _ => name.slash_not_mem
      · simpa using hroot
    rw [hsplit, List.map_map]
    simp [Function.comp_def]

/-- The names in the text of a location, as the resolver takes them. -/
theorem filter_names_text (location : Location) :
    (Path.names location.text).filter (· ≠ "") = location.names.map Name.text := by
  have hkept : (location.names.map Name.text).filter (· ≠ "") = location.names.map Name.text := by
    apply List.filter_eq_self.mpr
    simpa using fun name _ => name.ne_empty
  rw [names_text, List.filter_cons_of_neg (by decide)]
  split
  · rename_i hroot
    rw [hroot]
    rfl
  · exact hkept

end Location

namespace FileTree

/-- No link stands on the way to a location. -/
inductive IsReal (tree : FileTree) : Location → Prop
  | root : IsReal tree .root
  | child {here : Location} {name : Name} (hhere : IsReal tree here)
      (hlink : ∀ target, tree.find? (here.child name) ≠ some (.link target)) :
      IsReal tree (here.child name)

variable {tree : FileTree} {location : Location}

theorem IsReal.parent (hreal : tree.IsReal location) : tree.IsReal location.parent := by
  cases hreal with
  | root => exact .root
  | child hhere hlink =>
      rw [Location.parent_child]
      exact hhere

/-- What is in the tree and is no link is at a real location, since it is in directories. -/
theorem isReal_of_find? {names : List Name} {entry : Entry}
    (hentry : tree.find? ⟨names⟩ = some entry) (hlink : ∀ target, entry ≠ .link target) :
    tree.IsReal ⟨names⟩ := by
  induction names using List.reverseRecOn generalizing entry with
  | nil => exact .root
  | append_singleton names name ih =>
      have hchild : (⟨names ++ [name]⟩ : Location) = Location.child ⟨names⟩ name := rfl
      rw [hchild] at hentry ⊢
      refine .child (ih (find?_of_child hentry) nofun) ?_
      intro target hother
      rw [hentry] at hother
      exact hlink target (Option.some.inj hother)

theorem isReal_of_directory (hdirectory : tree.find? location = some .directory) :
    tree.IsReal location :=
  isReal_of_find? hdirectory nofun

theorem linkAt_of_isReal {names : List Name} (hreal : tree.IsReal ⟨names⟩) (limits : Limits)
    (directory : Directory) : tree.linkAt limits directory ⟨none, names⟩ = none := by
  have hlink : ∀ target, tree.find? ⟨names⟩ ≠ some (.link target) := by
    generalize (⟨names⟩ : Location) = location at hreal
    cases hreal with
    | root => simp
    | child hhere hlink => exact hlink
  have hplace : (Spot.mk none names).place? directory = some ⟨names⟩ := rfl
  rw [linkAt, hplace, Option.bind_some]
  split
  · rfl
  · split
    · rename_i target hentry
      exact absurd hentry (hlink target)
    · rfl

/-- Names that lead to a real location are followed one after the other. -/
theorem IsReal.followNames_eq (hreal : tree.IsReal location) (limits : Limits)
    (directory : Directory) (followTarget : Follower) (rest : List String) (links : Links) :
    followNames (tree.linkAt limits directory) followTarget .root
        (location.names.map Name.text ++ rest) links =
      followNames (tree.linkAt limits directory) followTarget ⟨none, location.names⟩ rest
        links := by
  induction hreal generalizing rest with
  | root => rfl
  | @child here name hhere hlink ih =>
      have hspecial := name.not_namesNoEntry
      rw [Location.child, List.map_append, List.append_assoc, ih, List.map_singleton,
        List.singleton_append, followNames, if_neg (fun hstay => hspecial (hstay.imp_right Or.inl)),
        if_neg (fun hparent => hspecial (Or.inr (Or.inr hparent))), Name.ofText?_text]
      have hnone : tree.linkAt limits directory (Spot.child ⟨none, here.names⟩ name) = none :=
        linkAt_of_isReal (.child hhere hlink) limits directory
      simp only [hnone]
      rfl

/-- How a walk can end that comes to a location, and to names behind it, without following
a link: at the location, if there are no names behind it, or where something is missing
or in the way. -/
inductive EndsAt (location : Location) (rest : List String) : Except Fault Place → Prop
  | found (hrest : rest = []) (entry : Entry) : EndsAt location rest (.ok (.found location entry))
  | free (place : Location) : EndsAt location rest (.ok (.free place))
  | error {fault : Fault} (hfault : fault ≠ .linkLoop) : EndsAt location rest (.error fault)

/-- A walk to a real location goes on from there or ends. -/
theorem IsReal.walkNames_cases (hreal : tree.IsReal location) (links : Nat)
    (rest : List String) :
    tree.walkNames .look links .root (location.names.map Name.text ++ rest) =
        tree.walkNames .look links location rest ∨
      EndsAt location rest
        (tree.walkNames .look links .root (location.names.map Name.text ++ rest)) := by
  induction hreal generalizing rest with
  | root => exact Or.inl rfl
  | @child here name hhere hlink ih =>
      have hspecial := name.not_namesNoEntry
      rw [Location.child, List.map_append, List.append_assoc, List.map_singleton,
        List.singleton_append]
      rcases ih (name.text :: rest) with hnext | hends
      · rw [hnext, walkNames, if_neg (fun hstay => hspecial (hstay.imp_right Or.inl)),
          if_neg (fun hparent => hspecial (Or.inr (Or.inr hparent))),
          if_neg (fun hopen => absurd hopen.1 (by decide)), Name.ofText?_text]
        split
        · exact Or.inr (.error (by decide))
        dsimp only
        split
        · split
          · exact Or.inr (.free _)
          · exact Or.inr (.error (by decide))
        · exact Or.inl rfl
        · rename_i target hentry
          exact absurd hentry (hlink target)
        · split
          · exact Or.inr (.found ‹_› _)
          · exact Or.inr (.error (by decide))
      · generalize walkNames tree .look links .root
          (here.names.map Name.text ++ name.text :: rest) = result at hends ⊢
        cases hends with
        | found hrest entry => cases hrest
        | free place => exact Or.inr (.free place)
        | error hfault => exact Or.inr (.error hfault)

theorem IsReal.endsAt_walk (hreal : tree.IsReal location) :
    EndsAt location [] (tree.walk .look .root location.text) := by
  rw [walk, if_pos location.isAbsolute_text]
  split
  · exact .error (by decide)
  split
  · exact .error (by decide)
  rw [Location.names_text, walkNames, if_pos (Or.inl rfl)]
  split
  · rename_i hroot
    obtain rfl : location = .root := Location.ext hroot
    simp only [walkNames, true_or, if_true]
    exact .found rfl _
  · rw [← List.append_nil (location.names.map Name.text)]
    rcases hreal.walkNames_cases linkLimit [] with hthere | hends
    · rw [hthere, walkNames]
      exact .found rfl _
    · exact hends

theorem IsReal.walk_of_contentAt (hreal : tree.IsReal location) {content : List UInt8}
    (hcontent : tree.contentAt .root location.text = .ok content) :
    ∃ entry, tree.walk .look .root location.text = .ok (.found location entry) := by
  have hends := hreal.endsAt_walk
  rw [contentAt] at hcontent
  generalize tree.walk .look .root location.text = result at hends hcontent ⊢
  cases hends with
  | found _ entry => exact ⟨entry, rfl⟩
  | free place => cases hcontent
  | error hfault => cases hcontent

/-- A real location that the links of a path come to passes the last look at it. -/
theorem IsReal.resolve_eq (hreal : tree.IsReal location) {limits : Limits} {directory : Directory}
    {path : String} (hlinks : tree.replaceLinks limits directory path = .ok { location }) :
    tree.resolve limits directory path = .ok { location } := by
  simp only [resolve, hlinks]
  split
  · rename_i hwalk
    have hends := hreal.endsAt_walk
    rw [show tree.walk .look .root location.text = .error .linkLoop from hwalk] at hends
    cases hends with
    | error hfault => exact absurd rfl hfault
  · rfl

/-- There is nothing left to resolve in the text of a real location. -/
theorem IsReal.resolve_text (hreal : tree.IsReal location) (limits : Limits)
    (directory : Directory) : tree.resolve limits directory location.text = .ok { location } := by
  apply hreal.resolve_eq
  have hnames := hreal.followNames_eq limits directory
    (followLinks (tree.linkAt limits directory) limits.links) [] []
  rw [List.append_nil, followNames] at hnames
  rw [replaceLinks, Location.filter_names_text, Spot.origin, if_pos location.isAbsolute_text,
    followLinks, hnames]
  rfl

/-- A single name that is no link leads to the entry of the working directory. -/
theorem IsReal.resolve_name {directory : Directory} (hdirectory : tree.IsReal directory.location)
    (hlost : directory.lost = 0) (name : Name)
    (hlink : ∀ target, tree.find? (directory.location.child name) ≠ some (.link target))
    (limits : Limits) :
    tree.resolve limits directory name.text =
      .ok { location := directory.location.child name } := by
  apply (IsReal.child hdirectory hlink).resolve_eq
  have hnames : (Path.names name.text).filter (· ≠ "") = [name.text] := by
    rw [Path.names, List.splitOn_eq_singleton name.slash_not_mem]
    simp [name.ne_empty]
  have hrelative : Path.isAbsolute name.text = false := by
    simp only [Path.isAbsolute, beq_eq_false_iff_ne]
    exact fun hslash => name.slash_not_mem (List.mem_of_mem_head? hslash)
  have hplace : (Spot.here.child name).place? directory = some (directory.location.child name) := by
    simp [Spot.here, Spot.child, Spot.place?, hlost, Location.ancestor, Location.append,
      Location.child]
  have hnone : tree.linkAt limits directory (Spot.here.child name) = none := by
    rw [linkAt, hplace, Option.bind_some]
    split
    · rfl
    · split
      · rename_i target hentry
        exact absurd hentry (hlink target)
      · rfl
  have hspecial := name.not_namesNoEntry
  rw [replaceLinks, hnames, Spot.origin, hrelative, followLinks]
  simp only [Bool.false_eq_true, if_false, followNames,
    if_neg (fun hstay => hspecial (Or.imp_right Or.inl hstay)),
    if_neg (fun hparent => hspecial (Or.inr (Or.inr hparent))), Name.ofText?_text, hnone,
    Reached.absolute, Spot.absolute?, hlost, hplace]
  rfl

end FileTree

end SqlReach
