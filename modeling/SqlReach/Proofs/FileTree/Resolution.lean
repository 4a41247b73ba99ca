import SqlReach.Proofs.FileTree.RealLocations

/-!
# Resolving in a tree without cycles

Where a path leads is a relation between locations, by which a link stands for wherever
its target leads.  A link needs another one if the other is met on the way along its
target, and a tree is without cycles if no link needs itself through others.  In such a
tree the links whose targets are being resolved at one time all differ, and none of them
is met again.  So no path is given up, and what comes out is a real location, if as many
links can be nested in each other as there are in the tree and none is overlooked.
-/

namespace SqlReach

/-! ## Counting links -/

namespace Node

mutual

/-- The names that lead to each link below a node. -/
def linkNames : Node → List (List Name)
  | directory entries => linkNamesIn entries
  | link _ => [[]]
  | file _ => []
  | sink => []

/-- The names that lead to each link below the entries of a directory. -/
def linkNamesIn : List (Name × Node) → List (List Name)
  | [] => []
  | (name, node) :: rest => node.linkNames.map (name :: ·) ++ linkNamesIn rest

end

theorem cons_mem_linkNamesIn {entries : List (Name × Node)} {name : Name} {node : Node}
    {names : List Name} (hnode : entries.lookup name = some node)
    (hnames : names ∈ node.linkNames) : name :: names ∈ linkNamesIn entries := by
  induction entries with
  | nil => cases hnode
  | cons entry rest ih =>
      obtain ⟨first, inner⟩ := entry
      rw [linkNamesIn, List.mem_append]
      rw [List.lookup_cons] at hnode
      split at hnode
      · rename_i hsame
        obtain rfl := beq_iff_eq.mp hsame
        cases hnode
        exact Or.inl (List.mem_map_of_mem hnames)
      · exact Or.inr (ih hnode)

theorem mem_linkNames {node : Node} {names : List Name} {target : String}
    (hlink : (node.at? names).map entry = some (.link target)) : names ∈ node.linkNames := by
  induction names generalizing node with
  | nil =>
      cases node with
      | link other => exact List.mem_singleton_self []
      | directory entries => cases hlink
      | file content => cases hlink
      | sink => cases hlink
  | cons name names ih =>
      cases node with
      | directory entries =>
          rw [at?, Node.entries] at hlink
          cases hinner : entries.lookup name with
          | none => simp [hinner] at hlink
          | some inner =>
              rw [hinner, Option.bind_some] at hlink
              exact cons_mem_linkNamesIn hinner (ih hlink)
      | link other => cases hlink
      | file content => cases hlink
      | sink => cases hlink

end Node

namespace FileTree

/-- How many links are in a tree. -/
def linkCount (tree : FileTree) : Nat :=
  tree.root.linkNames.length

/-- Links at different locations are not more than there are. -/
theorem length_le_linkCount (tree : FileTree) {links : List Location} (hnodup : links.Nodup)
    (hlinks : ∀ link ∈ links, ∃ target, tree.find? link = some (.link target)) :
    links.length ≤ tree.linkCount := by
  have hsubset : links.map Location.names ⊆ tree.root.linkNames := by
    intro names hnames
    obtain ⟨link, hlink, rfl⟩ := List.mem_map.mp hnames
    obtain ⟨target, hentry⟩ := hlinks link hlink
    exact Node.mem_linkNames hentry
  have hnames : (links.map Location.names).Nodup :=
    hnodup.map fun _ _ hsame => Location.ext hsame
  have hlength := (hnames.subperm hsubset).length_le
  rwa [List.length_map] at hlength

/-! ## Where names lead -/

/-- The names lead from the one location to the other. -/
inductive Follows (tree : FileTree) : Location → List String → Location → Prop
  | nil (here : Location) : Follows tree here [] here
  | stay {here there : Location} {text : String} {rest : List String}
      (htext : text = "" ∨ text = ".") (hrest : Follows tree here rest there) :
      Follows tree here (text :: rest) there
  | up {here there : Location} {rest : List String} (hrest : Follows tree here.parent rest there) :
      Follows tree here (".." :: rest) there
  | enter {here there : Location} {text : String} {name : Name} {rest : List String}
      (hname : Name.ofText? text = some name)
      (hentry : ∀ target, tree.find? (here.child name) ≠ some (.link target))
      (hrest : Follows tree (here.child name) rest there) : Follows tree here (text :: rest) there
  | link {here between there : Location} {text target : String} {name : Name} {rest : List String}
      (hname : Name.ofText? text = some name)
      (hentry : tree.find? (here.child name) = some (.link target))
      (htarget : Follows tree (Path.origin here target) (Path.names target) between)
      (hrest : Follows tree between rest there) : Follows tree here (text :: rest) there

variable {tree : FileTree} {here there between : Location} {text target : String} {name : Name}

theorem Follows.append {names rest : List String} (hnames : tree.Follows here names between)
    (hrest : tree.Follows between rest there) : tree.Follows here (names ++ rest) there := by
  induction hnames with
  | nil here => exact hrest
  | stay htext _ ih => exact .stay htext (ih hrest)
  | up _ ih => exact .up (ih hrest)
  | enter hname hentry _ ih => exact .enter hname hentry (ih hrest)
  | link hname hentry htarget _ _ ih => exact .link hname hentry htarget (ih hrest)

theorem ofText?_eq_none_of_namesNoEntry (hentry : NamesNoEntry text) :
    Name.ofText? text = none := by
  cases hname : Name.ofText? text with
  | none => rfl
  | some name =>
      rw [← Name.text_of_ofText? hname] at hentry
      exact absurd hentry name.not_namesNoEntry

/-- Names lead to one location only. -/
theorem Follows.unique {names : List String} {other : Location}
    (hthere : tree.Follows here names there) (hother : tree.Follows here names other) :
    there = other := by
  induction hthere generalizing other with
  | nil here =>
      cases hother
      rfl
  | stay htext _ ih =>
      have hnone := ofText?_eq_none_of_namesNoEntry (htext.imp_right Or.inl)
      cases hother with
      | stay _ hrest => exact ih hrest
      | up _ => simp at htext
      | enter hname _ _ => simp [hnone] at hname
      | link hname _ _ _ => simp [hnone] at hname
  | up _ ih =>
      have hnone := ofText?_eq_none_of_namesNoEntry (Or.inr (Or.inr rfl))
      cases hother with
      | stay htext _ => simp at htext
      | up hrest => exact ih hrest
      | enter hname _ _ => simp [hnone] at hname
      | link hname _ _ _ => simp [hnone] at hname
  | enter hname hentry _ ih =>
      cases hother with
      | stay htext _ =>
          simp [ofText?_eq_none_of_namesNoEntry (htext.imp_right Or.inl)] at hname
      | up _ => simp [ofText?_eq_none_of_namesNoEntry (Or.inr (Or.inr rfl))] at hname
      | enter hagain _ hrest =>
          cases hname.symm.trans hagain
          exact ih hrest
      | link hagain hlink _ _ =>
          cases hname.symm.trans hagain
          exact absurd hlink (hentry _)
  | link hname hentry _ _ ihtarget ihrest =>
      cases hother with
      | stay htext _ =>
          simp [ofText?_eq_none_of_namesNoEntry (htext.imp_right Or.inl)] at hname
      | up _ => simp [ofText?_eq_none_of_namesNoEntry (Or.inr (Or.inr rfl))] at hname
      | enter hagain hother _ =>
          cases hname.symm.trans hagain
          exact absurd hentry (hother _)
      | link hagain hlink htarget hrest =>
          cases hname.symm.trans hagain
          cases hentry.symm.trans hlink
          cases ihtarget htarget
          exact ihrest hrest

/-- A link that is met on the way along names. -/
def Meets (tree : FileTree) (here : Location) (names : List String) (link : Location) : Prop :=
  ∃ before text rest between name target, names = before ++ text :: rest ∧
    tree.Follows here before between ∧ Name.ofText? text = some name ∧ link = between.child name ∧
      tree.find? link = some (.link target)

/-- What is met behind a name is met on the way. -/
theorem Meets.cons {rest : List String} {link : Location}
    (hleads : tree.Follows here [text] there) (hmeets : tree.Meets there rest link) :
    tree.Meets here (text :: rest) link := by
  obtain ⟨before, next, later, between, name, target, rfl, hfollows, hname, hlink, hentry⟩ := hmeets
  exact ⟨text :: before, next, later, between, name, target, rfl, hleads.append hfollows, hname,
    hlink, hentry⟩

/-- A link that is met on the way along the target of another one. -/
def Needs (tree : FileTree) (link other : Location) : Prop :=
  ∃ target, tree.find? link = some (.link target) ∧
    tree.Meets (Path.origin link.parent target) (Path.names target) other

/-- Links as a file system can hold them, none of which leads back to itself. -/
structure IsAcyclic (tree : FileTree) : Prop where
  hasNull_target : ∀ link target, tree.find? link = some (.link target) →
    Path.hasNull target = false
  not_needs_self : ∀ link, ¬ Relation.TransGen tree.Needs link link

theorem SameLinks.isReal {left right : FileTree} (hlinks : left.SameLinks right)
    (hreal : left.IsReal there) : right.IsReal there := by
  induction hreal with
  | root => exact .root
  | child _ hlink ih => exact .child ih fun target hother => hlink target ((hlinks _ _).mpr hother)

/-! ## Spots and their places -/

variable {directory : Directory} {spot : Spot} {place : Location}

/-- The spot is at the place, and no directory that has been removed is on the way. -/
structure Stands (directory : Directory) (spot : Spot) (place : Location) : Prop where
  place_eq : spot.place? directory = some place
  whole : directory.lost = 0 ∨ spot.above = none

theorem Stands.child (hstands : Stands directory spot place) (name : Name) :
    Stands directory (spot.child name) (place.child name) := by
  obtain ⟨hplace, hwhole⟩ := hstands
  refine ⟨?_, hwhole⟩
  unfold Spot.place? at hplace ⊢
  dsimp only [Spot.child]
  cases habove : spot.above with
  | none =>
      simp only [habove, Option.some.injEq] at hplace
      subst hplace
      rfl
  | some levels =>
      simp only [habove, Option.ite_none_left_eq_some, Option.some.injEq] at hplace ⊢
      obtain ⟨hlevels, rfl⟩ := hplace
      refine ⟨hlevels, Location.ext ?_⟩
      simp [Location.append, Location.child]

theorem ancestor_succ (location : Location) (levels : Nat) :
    location.ancestor (levels + 1) = (location.ancestor levels).parent := by
  apply Location.ext
  simp only [Location.ancestor, Location.parent, List.dropLast_eq_take, List.take_take,
    List.length_take]
  congr 1
  omega

theorem Stands.parent (hstands : Stands directory spot place) :
    Stands directory spot.parent place.parent := by
  obtain ⟨hplace, hwhole⟩ := hstands
  obtain ⟨above, names⟩ := spot
  cases above with
  | none =>
      refine ⟨?_, Or.inr (by simp [Spot.parent]; split <;> rfl)⟩
      cases hplace
      unfold Spot.parent
      split
      · rename_i hroot
        obtain rfl : names = [] := hroot
        rfl
      · rfl
  | some levels =>
      have hlost : directory.lost = 0 := hwhole.resolve_right nofun
      refine ⟨?_, Or.inl hlost⟩
      have hall : place = (directory.location.ancestor levels).append names := by
        simpa [Spot.place?, hlost] using hplace.symm
      subst hall
      unfold Spot.parent
      split
      · rename_i hroot
        obtain rfl : names = [] := hroot
        simp [Spot.place?, hlost, ancestor_succ, Location.append, Location.parent]
      · rename_i hnames
        simp only [Spot.place?, hlost, Nat.not_lt_zero, if_false, Nat.sub_zero, Option.some.injEq]
        apply Location.ext
        simp [Location.append, Location.parent, List.dropLast_append_of_ne_nil hnames]

theorem Stands.origin (hstands : Stands directory spot place) (path : String) :
    Stands directory (spot.origin path) (Path.origin place path) := by
  rw [Spot.origin, Path.origin]
  split
  · exact ⟨rfl, Or.inr rfl⟩
  · exact hstands

theorem Stands.inj {other : Location} (hstands : Stands directory spot place)
    (hother : Stands directory spot other) : place = other :=
  Option.some.inj (hstands.place_eq.symm.trans hother.place_eq)

theorem Stands.absolute?_eq (hstands : Stands directory spot place) :
    spot.absolute? directory = some { location := place } := by
  rw [Spot.absolute?, if_neg, hstands.place_eq, Option.map_some]
  rcases hstands.whole with hlost | habove
  · simp [hlost]
  · simp [habove]

/-- Where a spot stands, a link is seen, whatever the length of the path. -/
theorem Stands.linkAt_eq_some_iff {limits : Limits} (hlimit : limits.path = none)
    (hstands : Stands directory spot place) :
    tree.linkAt limits directory spot = some target ↔
      tree.find? place = some (.link target) := by
  rw [linkAt, hlimit, Option.any_none, if_neg (by decide), hstands.place_eq, Option.bind_some]
  split
  · rename_i known hentry
    simp [hentry]
  · rename_i hother
    exact iff_of_false (by simp) (hother target)

theorem child_injective {first second : Spot} {name other : Name}
    (hchild : first.child name = second.child other) : first = second ∧ name = other := by
  obtain ⟨above, names⟩ := first
  obtain ⟨otherAbove, otherNames⟩ := second
  simp only [Spot.child, Spot.mk.injEq] at hchild
  obtain ⟨rfl, hnames⟩ := hchild
  obtain ⟨rfl, hlast⟩ := List.append_inj' hnames rfl
  exact ⟨rfl, List.singleton_inj.mp hlast⟩

/-! ## The state of the resolver -/

/-- The links whose targets are being resolved, each with its place. -/
abbrev Opened := List (Spot × Location)

/-- What holds of the links that have been met.  The open ones are all different, and a
link that is settled leads where it is said to. -/
structure Consistent (tree : FileTree) (directory : Directory) (opened : Opened)
    (links : Links) : Prop where
  stands : ∀ entry ∈ opened, Stands directory entry.1 entry.2
  nodup : (opened.map Prod.snd).Nodup
  exists_target : ∀ entry ∈ opened, ∃ target, tree.find? entry.2 = some (.link target)
  settled : ∀ spot name place there, links.lookup (spot.child name) = some (some there) →
    Stands directory spot place → ∃ location, Stands directory there location ∧
      tree.IsReal location ∧ tree.Follows place [name.text] location
  mem_opened : ∀ spot, links.lookup spot = some none → ∃ place, (spot, place) ∈ opened

/-- The open links need every link that is met along the names. -/
def Needed (tree : FileTree) (opened : Opened) (here : Location) (names : List String) : Prop :=
  ∀ entry ∈ opened, ∀ link, tree.Meets here names link → Relation.TransGen tree.Needs entry.2 link

variable {opened : Opened} {links : Links} {rest : List String}

theorem Needed.tail (hneeded : tree.Needed opened here (text :: rest))
    (hleads : tree.Follows here [text] there) : tree.Needed opened there rest :=
  fun entry hentry link hmeets => hneeded entry hentry link (hmeets.cons hleads)

theorem meets_link (hname : Name.ofText? text = some name)
    (hentry : tree.find? (here.child name) = some (.link target)) (rest : List String) :
    tree.Meets here (text :: rest) (here.child name) :=
  ⟨[], text, rest, here, name, target, rfl, .nil here, hname, rfl, hentry⟩

/-- A link that is met is not open. -/
theorem Needed.not_mem (hacyclic : tree.IsAcyclic)
    (hneeded : tree.Needed opened here (text :: rest)) (hname : Name.ofText? text = some name)
    (hentry : tree.find? (here.child name) = some (.link target)) :
    here.child name ∉ opened.map Prod.snd := by
  intro hopen
  obtain ⟨entry, hmem, hplace⟩ := List.mem_map.mp hopen
  have hcycle := hneeded entry hmem _ (meets_link hname hentry rest)
  rw [hplace] at hcycle
  exact hacyclic.not_needs_self _ hcycle

/-- While the target of a link is being resolved, the link needs what is met, and so do
those around it. -/
theorem Needed.within (hneeded : tree.Needed opened here (text :: rest))
    (hname : Name.ofText? text = some name)
    (hentry : tree.find? (here.child name) = some (.link target)) (spot : Spot) :
    tree.Needed ((spot, here.child name) :: opened) (Path.origin here target)
      (Path.names target) := by
  intro entry hmem link hmeets
  have hneeds : tree.Needs (here.child name) link := by
    refine ⟨target, hentry, ?_⟩
    rwa [Location.parent_child]
  rcases List.mem_cons.mp hmem with rfl | hmem
  · exact .single hneeds
  · exact (hneeded entry hmem _ (meets_link hname hentry rest)).tail hneeds

theorem Consistent.open (hlinks : tree.Consistent directory opened links)
    (hstands : Stands directory spot place) (hnew : place ∉ opened.map Prod.snd)
    (hentry : tree.find? place = some (.link target)) :
    tree.Consistent directory ((spot, place) :: opened) ((spot, none) :: links) where
  stands := List.forall_mem_cons.mpr ⟨hstands, hlinks.stands⟩
  nodup := List.nodup_cons.mpr ⟨hnew, hlinks.nodup⟩
  exists_target := List.forall_mem_cons.mpr ⟨⟨target, hentry⟩, hlinks.exists_target⟩
  settled other name around there hlookup := by
    rw [List.lookup_cons] at hlookup
    split at hlookup
    · cases hlookup
    · exact hlinks.settled other name around there hlookup
  mem_opened other hlookup := by
    rw [List.lookup_cons] at hlookup
    split at hlookup
    · rename_i hsame
      exact ⟨place, by simp [beq_iff_eq.mp hsame]⟩
    · obtain ⟨around, hmem⟩ := hlinks.mem_opened other hlookup
      exact ⟨around, List.mem_cons_of_mem _ hmem⟩

theorem Consistent.settle {known : Links} (hlinks : tree.Consistent directory opened known)
    (hinner : tree.Consistent directory ((spot.child name, place.child name) :: opened) links)
    (hspot : Stands directory spot place) {settled : Spot}
    (hstands : Stands directory settled there) (hreal : tree.IsReal there)
    (hleads : tree.Follows place [name.text] there) :
    tree.Consistent directory opened ((spot.child name, some settled) :: links) where
  stands := hlinks.stands
  nodup := hlinks.nodup
  exists_target := hlinks.exists_target
  settled other next around end_ hlookup hother := by
    rw [List.lookup_cons] at hlookup
    split at hlookup
    · rename_i hsame
      obtain ⟨rfl, rfl⟩ := child_injective (beq_iff_eq.mp hsame)
      cases hlookup
      obtain rfl := hspot.inj hother
      exact ⟨there, hstands, hreal, hleads⟩
    · exact hinner.settled other next around end_ hlookup hother
  mem_opened other hlookup := by
    rw [List.lookup_cons] at hlookup
    split at hlookup
    · cases hlookup
    · rename_i hother
      obtain ⟨around, hmem⟩ := hinner.mem_opened other hlookup
      rcases List.mem_cons.mp hmem with hsame | hmem
      · cases hsame
        simp at hother
      · exact ⟨around, hmem⟩

/-! ## Arriving -/

/-- What following names comes to: the real location that they lead to. -/
def Arrives (tree : FileTree) (directory : Directory) (opened : Opened) (here : Location)
    (names : List String) (result : Except ResolveError (Reached × Links)) : Prop :=
  ∃ spot place links, result = .ok (.arrived spot, links) ∧ Stands directory spot place ∧
    tree.IsReal place ∧ tree.Follows here names place ∧ tree.Consistent directory opened links

theorem Arrives.cons {result : Except ResolveError (Reached × Links)}
    (harrives : tree.Arrives directory opened there rest result)
    (hleads : tree.Follows here [text] there) :
    tree.Arrives directory opened here (text :: rest) result := by
  obtain ⟨spot, place, links, hresult, hstands, hreal, hfollows, hlinks⟩ := harrives
  exact ⟨spot, place, links, hresult, hstands, hreal, hleads.append hfollows, hlinks⟩

theorem IsReal.origin (hreal : tree.IsReal place) (path : String) :
    tree.IsReal (Path.origin place path) := by
  rw [Path.origin]
  split
  · exact .root
  · exact hreal

/-- Names that stand for entries, or for no entry. -/
def ArePlain (names : List String) : Prop :=
  ∀ text ∈ names, ¬ NamesNoEntry text → ∃ name, Name.ofText? text = some name

/-- The targets of links that are not open are followed to where they lead. -/
def FollowsTargets (tree : FileTree) (directory : Directory) (opened : Opened)
    (followTarget : Follower) : Prop :=
  ∀ spot place name target links, Stands directory spot place → tree.IsReal place →
    tree.find? (place.child name) = some (.link target) →
    place.child name ∉ opened.map Prod.snd → tree.Consistent directory opened links →
    tree.Needed ((spot.child name, place.child name) :: opened) (Path.origin place target)
      (Path.names target) →
    tree.Arrives directory ((spot.child name, place.child name) :: opened)
      (Path.origin place target) (Path.names target)
      (followTarget (spot.origin target) (Path.names target) ((spot.child name, none) :: links))

section Acyclic

variable {limits : Limits} (hacyclic : tree.IsAcyclic) (hlimit : limits.path = none)

include hacyclic hlimit

/-- The induction is on the names.  A link that is met is settled or new, since none of
the open ones is met again. -/
theorem FollowsTargets.arrives {followTarget : Follower}
    (htargets : tree.FollowsTargets directory opened followTarget) {names : List String}
    (hplain : ArePlain names) (hspot : Stands directory spot place) (hreal : tree.IsReal place)
    (hlinks : tree.Consistent directory opened links)
    (hneeded : tree.Needed opened place names) :
    tree.Arrives directory opened place names
      (followNames (tree.linkAt limits directory) followTarget spot names links) := by
  induction names generalizing spot place links with
  | nil => exact ⟨spot, place, links, rfl, hspot, hreal, .nil place, hlinks⟩
  | cons text rest ih =>
      have hrest : ArePlain rest := fun other hother => hplain other (List.mem_cons_of_mem _ hother)
      rw [followNames]
      split
      · rename_i hstay
        have hleads : tree.Follows place [text] place := .stay hstay (.nil place)
        exact (ih hrest hspot hreal hlinks (hneeded.tail hleads)).cons hleads
      rename_i hstay
      split
      · rename_i hparent
        subst hparent
        have hleads : tree.Follows place [".."] place.parent := .up (.nil _)
        exact (ih hrest hspot.parent hreal.parent hlinks (hneeded.tail hleads)).cons hleads
      rename_i hparent
      have hentry : ¬ NamesNoEntry text := by
        simpa [NamesNoEntry, ← or_assoc] using not_or.mpr ⟨hstay, hparent⟩
      obtain ⟨name, hname⟩ := hplain text List.mem_cons_self hentry
      simp only [hname]
      have htext := Name.text_of_ofText? hname
      cases hlink : tree.linkAt limits directory (spot.child name) with
      | none =>
          have hother : ∀ target, tree.find? (place.child name) ≠ some (.link target) := by
            intro target hfound
            rw [((hspot.child name).linkAt_eq_some_iff hlimit).mpr hfound] at hlink
            cases hlink
          have hleads : tree.Follows place [text] (place.child name) :=
            .enter hname hother (.nil _)
          exact (ih hrest (hspot.child name) (.child hreal hother) hlinks
            (hneeded.tail hleads)).cons hleads
      | some target =>
          have hfound := ((hspot.child name).linkAt_eq_some_iff hlimit).mp hlink
          have hnew := hneeded.not_mem hacyclic hname hfound
          dsimp only
          split
          · rename_i settled hlookup
            obtain ⟨there, hstands, hthere, hleads⟩ :=
              hlinks.settled spot name place settled hlookup hspot
            rw [htext] at hleads
            exact (ih hrest hstands hthere hlinks (hneeded.tail hleads)).cons hleads
          · rename_i hlookup
            obtain ⟨around, hopen⟩ := hlinks.mem_opened _ hlookup
            obtain rfl := (hlinks.stands _ hopen).inj (hspot.child name)
            exact absurd (List.mem_map_of_mem hopen) hnew
          · obtain ⟨settled, there, known, hresult, hstands, hthere, hfollows, hinner⟩ :=
              htargets spot place name target links hspot hreal hfound hnew hlinks
                (hneeded.within hname hfound (spot.child name))
            have hleads : tree.Follows place [text] there :=
              .link hname hfound hfollows (.nil there)
            have hsettled := hlinks.settle hinner hspot hstands hthere (by rwa [htext])
            simp only [hresult]
            exact (ih hrest hstands hthere hsettled (hneeded.tail hleads)).cons hleads

/-- The induction is on how many links can still be nested.  There is always room for one
more, as the open ones are all different. -/
theorem followsTargets_followLinks (nested : Nat)
    (hnested : tree.linkCount ≤ opened.length + nested) :
    tree.FollowsTargets directory opened (followLinks (tree.linkAt limits directory) nested) := by
  induction nested generalizing opened with
  | zero =>
      intro spot place name target links hspot hreal hfound hnew hlinks hneeded
      have hopen := hlinks.open (hspot.child name) hnew hfound
      have hlength := tree.length_le_linkCount hopen.nodup
        (List.forall_mem_map.mpr hopen.exists_target)
      simp only [List.map_cons, List.length_cons, List.length_map] at hlength
      omega
  | succ nested ih =>
      intro spot place name target links hspot hreal hfound hnew hlinks hneeded
      have hopen := hlinks.open (hspot.child name) hnew hfound
      have htargets : tree.FollowsTargets directory ((spot.child name, place.child name) :: opened)
          (followLinks (tree.linkAt limits directory) nested) := by
        apply ih
        rw [List.length_cons]
        omega
      refine htargets.arrives hacyclic hlimit ?_ (hspot.origin target) (hreal.origin target) hopen
        hneeded
      intro text htext hentry
      exact Path.exists_name_of_mem_names (hacyclic.hasNull_target _ _ hfound) htext hentry

end Acyclic

/-- Limits that no link in the tree runs into: none is overlooked, and as many can be
nested in each other as there are. -/
structure Limits.Allow (limits : Limits) (tree : FileTree) : Prop where
  path_eq : limits.path = none
  linkCount_le : tree.linkCount ≤ limits.links

/-- A path is resolved to a real location, unless it is relative to a directory that has
been removed.  Limits that allow for all links do not make a difference. -/
theorem IsAcyclic.exists_resolve_eq (hacyclic : tree.IsAcyclic)
    (hdirectory : tree.IsReal directory.location) {path : String}
    (hpath : Path.hasNull path = false)
    (hthere : directory.lost = 0 ∨ Path.isAbsolute path = true) :
    ∃ there, tree.IsReal there ∧ ∀ limits : Limits, limits.Allow tree →
      tree.resolve limits directory path = .ok { location := there } := by
  have hspot : Stands directory (Spot.here.origin path) (Path.origin directory.location path) := by
    rw [Spot.origin, Path.origin]
    split
    · exact ⟨rfl, Or.inr rfl⟩
    · have hlost := hthere.resolve_right ‹_›
      refine ⟨?_, Or.inl hlost⟩
      simp [Spot.here, Spot.place?, hlost, Location.ancestor, Location.append]
  have hlinks : tree.Consistent directory [] [] :=
    ⟨by simp, List.nodup_nil, by simp, by simp, by simp⟩
  have hplain : ArePlain ((Path.names path).filter (· ≠ "")) := by
    intro text htext hentry
    exact Path.exists_name_of_mem_names hpath (List.mem_filter.mp htext).1 hentry
  have harrives : ∀ limits : Limits, limits.Allow tree →
      tree.Arrives directory [] (Path.origin directory.location path)
        ((Path.names path).filter (· ≠ ""))
        (followLinks (tree.linkAt limits directory) (limits.links + 1) (Spot.here.origin path)
          ((Path.names path).filter (· ≠ "")) []) := by
    intro limits hallow
    have htargets : tree.FollowsTargets directory []
        (followLinks (tree.linkAt limits directory) limits.links) :=
      followsTargets_followLinks hacyclic hallow.path_eq _ (by simpa using hallow.linkCount_le)
    exact htargets.arrives hacyclic hallow.path_eq hplain hspot (hdirectory.origin path) hlinks
      (by simp [Needed])
  obtain ⟨-, there, -, -, -, hreal, hfollows, -⟩ :=
    harrives { links := tree.linkCount, path := none } ⟨rfl, le_rfl⟩
  refine ⟨there, hreal, fun limits hallow => hreal.resolve_eq ?_⟩
  obtain ⟨spot, place, links, hresult, hstands, -, hagain, -⟩ := harrives limits hallow
  obtain rfl := hfollows.unique hagain
  rw [replaceLinks, hresult]
  simp only [Reached.absolute, hstands.absolute?_eq]

end FileTree

end SqlReach
