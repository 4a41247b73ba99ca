import SqlReach.Journal.LogFile
import SqlReach.Proofs.FileTree.Keeping
import SqlReach.Proofs.FileTree.Walking

/-!
# Keeping a log file

As long as there is room in a log file, what is logged is written at its end, and nothing
else happens.  Otherwise the file and its backups change their places.  If the log file is
named without links, these places are entries of one directory, and whatever comes of it,
also if something is in the way, nothing changes apart from them.
-/

namespace SqlReach

namespace Name

theorem toList_append_number (text : String) (number : Nat) :
    (text ++ "." ++ toString number).toList = text.toList ++ '.' :: Nat.toDigits 10 number := by
  simp [String.toList_append]

variable (name : Name) (number : Nat)

theorem two_lt_length_append_number :
    2 < (name.text ++ "." ++ toString number).toList.length := by
  have hname : name.text.toList ≠ [] := by simpa using name.ne_empty
  have hfirst := List.length_pos_iff.mpr hname
  have hlast : 0 < (Nat.toDigits 10 number).length := Nat.length_toDigits_pos
  rw [toList_append_number, List.length_append, List.length_cons]
  omega

theorem not_mem_append_number {char : Char} (hname : char ∉ name.text.toList)
    (hpoint : char ≠ '.') (hdigit : char.isDigit = false) :
    char ∉ (name.text ++ "." ++ toString number).toList := by
  rw [toList_append_number]
  simp only [List.mem_append, List.mem_cons, not_or]
  refine ⟨hname, hpoint, fun hmem => ?_⟩
  rw [Nat.isDigit_of_mem_toDigits (by decide) (by decide) hmem] at hdigit
  cases hdigit

/-- The name of a backup. -/
def numbered : Name where
  text := name.text ++ "." ++ toString number
  ne_empty hempty := by
    have hlength := name.two_lt_length_append_number number
    rw [hempty] at hlength
    exact absurd hlength (by decide)
  ne_here hhere := by
    have hlength := name.two_lt_length_append_number number
    rw [hhere] at hlength
    exact absurd hlength (by decide)
  ne_parent hparent := by
    have hlength := name.two_lt_length_append_number number
    rw [hparent] at hlength
    exact absurd hlength (by decide)
  slash_not_mem := name.not_mem_append_number number name.slash_not_mem (by decide) (by decide)
  null_not_mem := name.not_mem_append_number number name.null_not_mem (by decide) (by decide)

variable {name number}

theorem numbered_ne : name.numbered number ≠ name := by
  intro hsame
  have htext := congrArg (String.toList ∘ Name.text) hsame
  rw [Function.comp_apply, numbered, toList_append_number] at htext
  have hlength := congrArg List.length htext
  simp at hlength

theorem numbered_inj {other : Nat} (hsame : name.numbered number = name.numbered other) :
    number = other := by
  have htext := congrArg (String.toList ∘ Name.text) hsame
  simp only [Function.comp_apply, numbered, toList_append_number] at htext
  have hdigits := (List.cons.inj (List.append_cancel_left htext)).2
  rw [← Nat.ofDigitChars_ten_toDigits (n := number), hdigits, Nat.ofDigitChars_ten_toDigits]

end Name

namespace Disk

open FileTree

/-- Apart from the places the disks are the same, and so is the working directory if it is
apart from them. -/
structure SameApart (places : List Location) (before after : Disk) : Prop where
  find?_eq : ∀ location, IsApart places location →
    after.tree.find? location = before.tree.find? location
  directory_eq : IsApart places before.directory.location → after.directory = before.directory

variable {places more : List Location} {before between after : Disk} {location source : Location}

theorem sameApart_refl (places : List Location) (disk : Disk) : SameApart places disk disk :=
  ⟨fun _ _ => rfl, fun _ => rfl⟩

theorem SameApart.trans (hfirst : SameApart places before between)
    (hsecond : SameApart places between after) : SameApart places before after where
  find?_eq location hapart :=
    (hsecond.find?_eq location hapart).trans (hfirst.find?_eq location hapart)
  directory_eq hapart := by
    have hsame := hfirst.directory_eq hapart
    rw [hsecond.directory_eq (by rwa [hsame]), hsame]

theorem SameApart.mono (hsame : SameApart places before after) (hmore : places ⊆ more) :
    SameApart more before after where
  find?_eq location hapart :=
    hsame.find?_eq location fun place hplace => hapart place (hmore hplace)
  directory_eq hapart := hsame.directory_eq fun place hplace => hapart place (hmore hplace)

theorem sameApart_fill (disk : Disk) (hplace : location ∈ places) (entry : Entry) :
    SameApart places disk (disk.fill location entry) := by
  unfold fill
  split
  · exact ⟨fun other hapart => find?_alter_of_not_within (hapart location hplace), fun _ => rfl⟩
  · exact sameApart_refl places disk

theorem sameApart_append (disk : Disk) (hplace : location ∈ places) (bytes : List UInt8) :
    SameApart places disk (disk.append location bytes) := by
  unfold append
  split
  · exact ⟨fun other hapart => find?_alter_of_not_within (hapart location hplace), fun _ => rfl⟩
  · exact sameApart_refl places disk

theorem sameApart_discard (disk : Disk) (hplace : location ∈ places) :
    SameApart places disk (disk.discard location) := by
  unfold discard
  split
  · exact sameApart_refl places disk
  · exact ⟨fun other hapart => find?_alter_of_not_within (hapart location hplace), fun _ => rfl⟩

theorem sameApart_move (disk : Disk) (hsource : source ∈ places) (htarget : location ∈ places) :
    SameApart places disk (disk.move source location) := by
  unfold move
  split
  · refine ⟨fun other hapart =>
      find?_move_of_not_within (hapart source hsource) (hapart location htarget), fun hapart => ?_⟩
    dsimp only
    rw [Location.relocate, if_neg (hapart source hsource)]
  · exact sameApart_refl places disk

/-- What is moved is no longer where it was, unless it cannot be moved. -/
theorem find?_move_cases {disk : Disk} {entry : Entry}
    (hentry : disk.tree.find? source = some entry) (hleaf : entry ≠ .directory)
    (hother : location ≠ source) :
    (disk.move source location).tree.find? source = some entry ∨
      (disk.move source location).tree.find? source = none := by
  unfold move
  split
  · rename_i hplace
    right
    rw [find?_move hentry hleaf hplace.1 hplace.2.1 hother, if_neg hother.symm, if_pos rfl]
  · exact Or.inl hentry

end Disk

namespace LogFile

open FileTree

/-! ## As long as there is room -/

/-- The lines find room in a log file of a size, one after the other. -/
def Fits : Nat → List String → Prop
  | _, [] => True
  | size, line :: lines =>
      size + line.length < sizeLimit ∧ Fits (size + (Utf8.encode line).length) lines

/-- The lines find room where the log file is.  There is always room in a device. -/
def HasRoom (tree : FileTree) (location : Location) (lines : List String) : Prop :=
  tree.find? location = some .sink ∨ Fits (tree.bytesAt location).length lines

variable {base : AbsolutePath} {location : Location} {line : String} {lines : List String}
variable {disk : Disk}

theorem Fits.of_append {size : Nat} {more : List String} (hfits : Fits size (lines ++ more)) :
    Fits size lines := by
  induction lines generalizing size with
  | nil => exact trivial
  | cons line lines ih => exact ⟨hfits.1, ih hfits.2⟩

theorem HasRoom.of_append {tree : FileTree} {more : List String}
    (hroom : HasRoom tree location (lines ++ more)) : HasRoom tree location lines :=
  hroom.imp_right Fits.of_append

theorem log_of_room (hopens : disk.tree.OpensAt base.text location)
    (hroom : HasRoom disk.tree location (line :: lines)) :
    log base line disk = (disk.append location (Utf8.encode line), none) := by
  have hfull : isFull disk location line = false := by
    rw [isFull]
    split
    · rename_i content hfile
      rcases hroom with hsink | hfits
      · rw [hsink] at hfile
        cases hfile
      · have hsize := hfits.1
        rw [bytesAt, hfile] at hsize
        exact decide_eq_false (Nat.not_le.mpr hsize)
    · rfl
  rw [log, Disk.openAppend_of_opensAt hopens]
  simp only [hfull]
  rfl

/-- The lines behind the first one find room once that has been written. -/
theorem hasRoom_append (hopens : disk.tree.OpensAt base.text location)
    (hroom : HasRoom disk.tree location (line :: lines)) :
    HasRoom (disk.append location (Utf8.encode line)).tree location lines := by
  rcases hopens.find?_cases with hfile | hsink
  · right
    rcases hroom with hsink | hfits
    · obtain ⟨content, hfile⟩ := hfile
      rw [hsink] at hfile
      cases hfile
    · rw [Disk.bytesAt_append hfile, List.length_append]
      exact hfits.2
  · left
    rwa [Disk.append_of_not_file (by simp [hsink])]

/-- All lines have been logged, one after the other, and nothing was in the way. -/
def Logs (base : AbsolutePath) : List String → Disk → Disk → Prop
  | [], before, after => after = before
  | line :: lines, before, after =>
      ∃ between, log base line before = (between, none) ∧ Logs base lines between after

/-- As long as there is room, all that happens is that the lines are written at the end of
the log file, unless a device stands in its place, which keeps nothing. -/
theorem exists_logs_of_room (hopens : disk.tree.OpensAt base.text location)
    (hroom : HasRoom disk.tree location lines) :
    ∃ after, Logs base lines disk after ∧ after.directory = disk.directory ∧
      disk.tree.Keeps [] (some location) after.tree ∧ after.tree.OpensAt base.text location ∧
      (after.tree.find? location = some .sink ∨
        after.tree.find? location =
          some (.file (disk.tree.bytesAt location ++ lines.flatMap Utf8.encode))) := by
  induction lines generalizing disk with
  | nil =>
      refine ⟨disk, rfl, rfl, keeps_refl _ _, hopens, ?_⟩
      rcases hopens.find?_cases with ⟨content, hfile⟩ | hsink
      · exact Or.inr (by simp [hfile, bytesAt])
      · exact Or.inl hsink
  | cons line lines ih =>
      have halike := disk.alike_append location (Utf8.encode line)
      obtain ⟨after, hlogs, hdirectory, hkeeps, hafter, hheld⟩ :=
        ih (hopens.of_alike halike.1) (hasRoom_append hopens hroom)
      refine ⟨after, ⟨_, log_of_room hopens hroom, hlogs⟩, hdirectory.trans halike.2,
        (keeps_append disk location _).trans hkeeps, hafter, ?_⟩
      rcases hheld with hsink | hfile
      · exact Or.inl hsink
      · rcases hopens.find?_cases with hbefore | hdevice
        · right
          rw [hfile, Disk.bytesAt_append hbefore, List.flatMap_cons, List.append_assoc]
        · -- A device stays what it is.
          have hboth := (keeps_append disk location (Utf8.encode line)).trans hkeeps
          obtain ⟨other, hother, hkept⟩ := hboth.exists_kept location List.not_mem_nil _ hdevice
          cases hkept
          exact Or.inl hother

/-! ## The places of a log file -/

/-- Where a backup is.  The log file itself comes first. -/
def slot (base : Location) (number : Nat) : Location :=
  if number = 0 then base
  else ⟨base.names.dropLast ++ (base.names.getLast?.map (Name.numbered · number)).toList⟩

/-- The places of a log file and its backups, if its path names it without links. -/
def places (base : AbsolutePath) : List Location :=
  (List.range (backups + 1)).map (slot base.location)

theorem slot_zero (base : Location) : slot base 0 = base := rfl

theorem slot_mem_places (base : AbsolutePath) {number : Nat} (hnumber : number ≤ backups) :
    slot base.location number ∈ places base :=
  List.mem_map_of_mem (List.mem_range.mpr (Nat.lt_succ_of_le hnumber))

/-- The log file itself is among them. -/
theorem location_mem_places (base : AbsolutePath) : base.location ∈ places base :=
  slot_mem_places base (Nat.zero_le backups)

/-- The path of a backup, as a path. -/
def pathOf (base : AbsolutePath) (number : Nat) : AbsolutePath :=
  { base with location := slot base.location number }

theorem exists_child (hroot : location ≠ .root) :
    ∃ (around : Location) (name : Name), location = around.child name := by
  have hnames : location.names ≠ [] := fun hnil => hroot (Location.ext hnil)
  exact ⟨location.parent, location.names.getLast hnames,
    Location.ext (List.dropLast_concat_getLast hnames).symm⟩

theorem slot_child (around : Location) (name : Name) (number : Nat) :
    slot (around.child name) number =
      around.child (if number = 0 then name else name.numbered number) := by
  rw [slot]
  split
  · rfl
  · simp [Location.child]

theorem text_append {around : Location} {name other : Name} {text : String}
    (hother : other.text = name.text ++ text) :
    (around.child other).text = (around.child name).text ++ text := by
  have hnames : ∀ names : List String,
      "/".intercalate (names ++ [other.text]) = "/".intercalate (names ++ [name.text]) ++ text := by
    intro names
    by_cases hnil : names = []
    · simp [hnil, hother]
    · rw [String.intercalate_append_of_ne_nil hnil (by simp),
        String.intercalate_append_of_ne_nil hnil (by simp), String.intercalate_singleton,
        String.intercalate_singleton, hother]
      simp only [String.append_assoc]
  simp only [Location.text, Location.child, List.map_append, List.map_singleton, hnames,
    String.append_assoc]

section InDirectory

variable (hroot : base.location ≠ .root)

include hroot

theorem slot_ne_root (number : Nat) : slot base.location number ≠ .root := by
  obtain ⟨around, name, hbase⟩ := exists_child hroot
  rw [hbase, slot_child]
  intro hsame
  simpa [Location.child, Location.root] using congrArg Location.names hsame

theorem slot_parent (number : Nat) :
    (slot base.location number).parent = base.location.parent := by
  obtain ⟨around, name, hbase⟩ := exists_child hroot
  rw [hbase, slot_child, Location.parent_child, Location.parent_child]

theorem part_eq (number : Nat) : part base number = (pathOf base number).text := by
  obtain ⟨around, name, hbase⟩ := exists_child hroot
  rw [part]
  split
  · rename_i hnumber
    rw [hnumber]
    rfl
  · rename_i hnumber
    have hslot : (slot base.location number).text =
        base.location.text ++ ("." ++ toString number) := by
      rw [hbase, slot_child, if_neg hnumber]
      exact text_append (String.append_assoc ..)
    simp only [pathOf, AbsolutePath.text, hslot]
    split <;> simp only [String.append_assoc]

theorem slot_inj {number other : Nat}
    (hsame : slot base.location number = slot base.location other) : number = other := by
  obtain ⟨around, name, hbase⟩ := exists_child hroot
  rw [hbase, slot_child, slot_child] at hsame
  have hname := (Location.child_inj hsame).2
  split at hname
  · split at hname
    · rw [‹number = 0›, ‹other = 0›]
    · exact absurd hname.symm Name.numbered_ne
  · split at hname
    · exact absurd hname Name.numbered_ne
    · exact Name.numbered_inj hname

/-- The places are side by side. -/
theorem not_isWithin_slot {number other : Nat} (hother : number ≠ other) :
    ¬ (slot base.location number).IsWithin (slot base.location other) := by
  intro hwithin
  apply hother
  apply slot_inj hroot
  obtain ⟨around, name, hbase⟩ := exists_child hroot
  rw [hbase, slot_child, slot_child] at hwithin ⊢
  exact Location.ext (hwithin.eq_of_length (by simp [Location.child])).symm

/-- The directory of the log file is apart from its places. -/
theorem isApart_parent (numbers : List Nat) :
    IsApart (numbers.map (slot base.location)) base.location.parent := by
  intro place hplace hwithin
  obtain ⟨number, -, rfl⟩ := List.mem_map.mp hplace
  have hlength := hwithin.length_le
  obtain ⟨around, name, hbase⟩ := exists_child hroot
  rw [hbase, slot_child, Location.parent_child] at hlength
  simp [Location.child] at hlength

/-! ## What a rollover changes -/

variable (haround : disk.tree.find? base.location.parent = some .directory)

include haround

theorem walk_part (number : Nat) :
    disk.tree.walk .change .root (part base number) =
      if IsWalkable (pathOf base number) then
        match disk.tree.find? (slot base.location number) with
        | none => .ok (.free (slot base.location number))
        | some entry => .ok (.found (slot base.location number) entry)
      else .error .nameTooLong := by
  rw [part_eq hroot]
  apply walk_eq
  · rwa [pathOf, slot_parent hroot]
  · exact slot_ne_root hroot number
  · exact Or.inl rfl

/-- Every walk along the path of a backup ends at its place. -/
theorem location_of_walk_part {number : Nat} {place : Place}
    (hwalk : disk.tree.walk .change .root (part base number) = .ok place) :
    place.location = slot base.location number := by
  rw [walk_part hroot haround] at hwalk
  by_cases hwalkable : IsWalkable (pathOf base number)
  · rw [if_pos hwalkable] at hwalk
    cases hentry : disk.tree.find? (slot base.location number) with
    | none =>
        simp only [hentry] at hwalk
        cases hwalk
        rfl
    | some entry =>
        simp only [hentry] at hwalk
        cases hwalk
        rfl
  · rw [if_neg hwalkable] at hwalk
    cases hwalk

theorem sameApart_unlink (number : Nat) :
    Disk.SameApart [slot base.location number] disk (disk.unlink (part base number)).1 := by
  unfold Disk.unlink
  split
  · exact Disk.sameApart_refl _ disk
  · exact Disk.sameApart_refl _ disk
  · exact Disk.sameApart_refl _ disk
  · rename_i place entry hentry hwalk
    obtain rfl : place = _ := location_of_walk_part hroot haround hwalk
    exact Disk.sameApart_discard disk List.mem_cons_self

theorem rename_cases (source target : Nat) :
    (disk.rename (part base source) (part base target)).1 = disk ∨
      (disk.rename (part base source) (part base target)).1 =
        disk.move (slot base.location source) (slot base.location target) := by
  unfold Disk.rename
  split
  · exact Or.inl rfl
  · exact Or.inl rfl
  · exact Or.inl rfl
  · exact Or.inl rfl
  · exact Or.inl rfl
  · rename_i place entry next other hother hentry hsource htarget
    obtain rfl : place = _ := location_of_walk_part hroot haround hsource
    obtain rfl : next = _ := location_of_walk_part hroot haround htarget
    exact Or.inr rfl
  · rename_i place entry next hsource htarget
    obtain rfl : place = _ := location_of_walk_part hroot haround hsource
    obtain rfl : next = _ := location_of_walk_part hroot haround htarget
    exact Or.inr rfl

theorem sameApart_clear (number : Nat) :
    Disk.SameApart [slot base.location number] disk (clear (part base number) disk).1 := by
  rw [clear]
  split
  · exact sameApart_unlink hroot haround number
  · exact Disk.sameApart_refl _ disk

theorem sameApart_rename (source target : Nat) :
    Disk.SameApart [slot base.location source, slot base.location target] disk
      (disk.rename (part base source) (part base target)).1 := by
  rcases rename_cases hroot haround source target with hsame | hmove
  · rw [hsame]
    exact Disk.sameApart_refl _ disk
  · rw [hmove]
    exact Disk.sameApart_move disk (by simp) (by simp)

end InDirectory

/-- The directory of the log file is still there when its places have changed. -/
theorem find?_parent_of_sameApart {numbers : List Nat} {after : Disk}
    (hroot : base.location ≠ .root)
    (haround : disk.tree.find? base.location.parent = some .directory)
    (hsame : Disk.SameApart (numbers.map (slot base.location)) disk after) :
    after.tree.find? base.location.parent = some .directory := by
  rw [hsame.find?_eq _ (isApart_parent hroot numbers), haround]

section Rollover

variable (hroot : base.location ≠ .root)

include hroot

/-- A backup is moved in two steps, the second of which is taken only if the first one has
made room. -/
theorem sameApart_shift (haround : disk.tree.find? base.location.parent = some .directory)
    (number : Nat) :
    Disk.SameApart ([number, number + 1].map (slot base.location)) disk
      (shift base number disk).1 := by
  have hclear : Disk.SameApart ([number, number + 1].map (slot base.location)) disk
      (clear (part base (number + 1)) disk).1 :=
    (sameApart_clear hroot haround (number + 1)).mono (by simp)
  rw [shift]
  split
  · generalize hcleared : clear (part base (number + 1)) disk = cleared at hclear
    obtain ⟨between, failure⟩ := cleared
    cases failure with
    | some fault => exact hclear
    | none =>
        have hthere := find?_parent_of_sameApart hroot haround hclear
        exact hclear.trans (sameApart_rename hroot hthere number (number + 1))
  · exact Disk.sameApart_refl _ disk

theorem sameApart_shiftAll (haround : disk.tree.find? base.location.parent = some .directory)
    (number : Nat) :
    Disk.SameApart ((List.range' 1 (number + 1)).map (slot base.location)) disk
      (shiftAll base number disk).1 := by
  induction number generalizing disk with
  | zero => exact Disk.sameApart_refl _ disk
  | succ number ih =>
      have hshift : Disk.SameApart ((List.range' 1 (number + 1 + 1)).map (slot base.location)) disk
          (shift base (number + 1) disk).1 := by
        refine (sameApart_shift hroot haround (number + 1)).mono (List.map_subset _ ?_)
        intro other hother
        simp only [List.mem_cons, List.not_mem_nil, or_false] at hother
        rw [List.mem_range'_1]
        omega
      rw [shiftAll]
      generalize hshifted : shift base (number + 1) disk = shifted at hshift
      obtain ⟨between, failure⟩ := shifted
      cases failure with
      | some fault => exact hshift
      | none =>
          have hthere := find?_parent_of_sameApart hroot haround hshift
          refine hshift.trans ((ih hthere).mono (List.map_subset _ ?_))
          intro other hother
          rw [List.mem_range'_1] at hother ⊢
          omega

theorem isApart_location {numbers : List Nat} (hnumbers : 0 ∉ numbers) :
    IsApart (numbers.map (slot base.location)) base.location := by
  intro place hplace
  obtain ⟨number, hnumber, rfl⟩ := List.mem_map.mp hplace
  rw [← slot_zero base.location]
  exact not_isWithin_slot hroot fun hzero => hnumbers (hzero ▸ hnumber)

/-- The log file is moved, or it stays where it is because something is in the way. -/
theorem sameApart_retire (haround : disk.tree.find? base.location.parent = some .directory)
    {content : List UInt8} (hfile : disk.tree.find? base.location = some (.file content)) :
    Disk.SameApart ([0, 1].map (slot base.location)) disk (retire base disk).1 ∧
      ((retire base disk).1.tree.find? base.location = some (.file content) ∨
        (retire base disk).1.tree.find? base.location = none) := by
  have hclear : Disk.SameApart ([1].map (slot base.location)) disk (clear (part base 1) disk).1 :=
    sameApart_clear hroot haround 1
  rw [retire]
  generalize clear (part base 1) disk = cleared at hclear
  obtain ⟨between, failure⟩ := cleared
  have hboth : Disk.SameApart ([0, 1].map (slot base.location)) disk between :=
    hclear.mono (List.subset_cons_self _ _)
  have hthere : between.tree.find? base.location = some (.file content) := by
    rw [hclear.find?_eq _ (isApart_location hroot (by simp)), hfile]
  cases failure with
  | some fault => exact ⟨hboth, Or.inl hthere⟩
  | none =>
      have hparent := find?_parent_of_sameApart hroot haround hclear
      dsimp only
      split
      · refine ⟨hboth.trans (sameApart_rename hroot hparent 0 1), ?_⟩
        rcases rename_cases hroot hparent 0 1 with hsame | hmove
        · rw [show base.text = part base 0 from rfl, hsame]
          exact Or.inl hthere
        · rw [show base.text = part base 0 from rfl, hmove]
          refine Disk.find?_move_cases hthere nofun fun hother => ?_
          exact absurd (slot_inj hroot (hother.trans (slot_zero base.location).symm)) (by decide)
      · exact ⟨hboth, Or.inl hthere⟩

theorem sameApart_rollOver (haround : disk.tree.find? base.location.parent = some .directory)
    {content : List UInt8} (hfile : disk.tree.find? base.location = some (.file content)) :
    Disk.SameApart (places base) disk (rollOver base disk).1 ∧
      ((rollOver base disk).1.tree.find? base.location = some (.file content) ∨
        (rollOver base disk).1.tree.find? base.location = none) := by
  have hshift := sameApart_shiftAll hroot haround (backups - 1)
  rw [rollOver]
  generalize shiftAll base (backups - 1) disk = shifted at hshift
  obtain ⟨between, failure⟩ := shifted
  have hall : Disk.SameApart (places base) disk between :=
    hshift.mono (List.map_subset _ (by decide))
  have hthere : between.tree.find? base.location = some (.file content) := by
    rw [hshift.find?_eq _ (isApart_location hroot (by decide)), hfile]
  cases failure with
  | some fault => exact ⟨hall, Or.inl hthere⟩
  | none =>
      have hparent := find?_parent_of_sameApart hroot haround hshift
      obtain ⟨hretire, hlog⟩ := sameApart_retire hroot hparent hthere
      exact ⟨hall.trans (hretire.mono (List.map_subset _ (by decide))), hlog⟩

end Rollover

/-! ## What logging changes -/

/-- The log file is named without links: it is in a directory, and it is no link itself. -/
structure IsPlain (base : AbsolutePath) (tree : FileTree) : Prop where
  ne_root : base.location ≠ .root
  parent_eq : tree.find? base.location.parent = some .directory
  ne_link : ∀ target, tree.find? base.location ≠ some (.link target)

theorem isPlain_of_opensAt {tree : FileTree} (hopens : tree.OpensAt base.text base.location) :
    IsPlain base tree := by
  rcases hopens.find?_cases with ⟨content, hfile⟩ | hsink
  · refine ⟨?_, find?_parent hfile, by simp [hfile]⟩
    intro hroot
    rw [hroot] at hfile
    cases hfile
  · refine ⟨?_, find?_parent hsink, by simp [hsink]⟩
    intro hroot
    rw [hroot] at hsink
    cases hsink

theorem IsPlain.location_of_walk {tree : FileTree} (hplain : IsPlain base tree) {place : Place}
    (hwalk : tree.walk .openFile .root base.text = .ok place) :
    place.location = base.location := by
  rw [walk_eq hplain.parent_eq hplain.ne_root (Or.inr hplain.ne_link)] at hwalk
  by_cases hwalkable : IsWalkable base
  · rw [if_pos hwalkable] at hwalk
    cases hentry : tree.find? base.location with
    | none =>
        simp only [hentry] at hwalk
        cases hwalk
        rfl
    | some entry =>
        simp only [hentry] at hwalk
        cases hwalk
        rfl
  · rw [if_neg hwalkable] at hwalk
    cases hwalk

/-- The log file is opened where it is named. -/
theorem IsPlain.of_openAppend (hplain : IsPlain base disk.tree) {opened : Disk}
    (hopen : disk.openAppend base.text = .ok (opened, location)) :
    location = base.location ∧ Disk.SameApart (places base) disk opened ∧
      opened.tree.OpensAt base.text base.location := by
  obtain ⟨-, hopens⟩ := Disk.openAppend_eq_ok hopen
  unfold Disk.openAppend at hopen
  split at hopen
  · cases hopen
  · rename_i hwalk
    cases hopen
    obtain rfl : location = base.location := hplain.location_of_walk hwalk
    exact ⟨rfl, Disk.sameApart_fill disk (location_mem_places base) _, hopens⟩
  · rename_i hwalk
    cases hopen
    obtain rfl : location = base.location := hplain.location_of_walk hwalk
    exact ⟨rfl, Disk.sameApart_refl _ disk, hopens⟩
  · rename_i hwalk
    cases hopen
    obtain rfl : location = base.location := hplain.location_of_walk hwalk
    exact ⟨rfl, Disk.sameApart_refl _ disk, hopens⟩
  · cases hopen

theorem isPlain_append (hopens : disk.tree.OpensAt base.text base.location)
    (bytes : List UInt8) : IsPlain base (disk.append base.location bytes).tree :=
  isPlain_of_opensAt (hopens.of_alike (disk.alike_append base.location bytes).1)

theorem IsPlain.write (hplain : IsPlain base disk.tree) (line : String) :
    Disk.SameApart (places base) disk (LogFile.write base line disk).1 ∧
      IsPlain base (LogFile.write base line disk).1.tree := by
  rw [LogFile.write]
  cases hopen : disk.openAppend base.text with
  | error fault => exact ⟨Disk.sameApart_refl _ disk, hplain⟩
  | ok reached =>
      obtain ⟨opened, location⟩ := reached
      obtain ⟨rfl, hsame, hopens⟩ := hplain.of_openAppend hopen
      exact ⟨hsame.trans (Disk.sameApart_append opened (location_mem_places base) _),
        isPlain_append hopens _⟩

/-- Whatever comes of logging a line, it does not touch anything but the log file and its
backups, and the log file is still named without links. -/
theorem IsPlain.log (hplain : IsPlain base disk.tree) (line : String) :
    Disk.SameApart (places base) disk (LogFile.log base line disk).1 ∧
      IsPlain base (LogFile.log base line disk).1.tree := by
  rw [LogFile.log]
  cases hopen : disk.openAppend base.text with
  | error fault => exact ⟨Disk.sameApart_refl _ disk, hplain⟩
  | ok reached =>
      obtain ⟨opened, location⟩ := reached
      obtain ⟨rfl, hsame, hopens⟩ := hplain.of_openAppend hopen
      dsimp only
      split
      · rename_i hfull
        obtain ⟨content, hfile⟩ :
            ∃ content, opened.tree.find? base.location = some (.file content) := by
          refine hopens.find?_cases.resolve_right fun hsink => ?_
          rw [isFull, hsink] at hfull
          cases hfull
        have hopened := isPlain_of_opensAt hopens
        obtain ⟨hroll, hlog⟩ := sameApart_rollOver hopened.ne_root hopened.parent_eq hfile
        have hrolled : IsPlain base (rollOver base opened).1.tree := by
          refine ⟨hopened.ne_root, ?_, ?_⟩
          · exact find?_parent_of_sameApart hopened.ne_root hopened.parent_eq hroll
          · rcases hlog with hstays | hmoved
            · simp [hstays]
            · simp [hmoved]
        generalize rollOver base opened = rolled at hroll hrolled
        obtain ⟨rolled, failure⟩ := rolled
        cases failure with
        | some fault => exact ⟨hsame.trans hroll, hrolled⟩
        | none =>
            obtain ⟨hwrite, hwritten⟩ := hrolled.write line
            exact ⟨(hsame.trans hroll).trans hwrite, hwritten⟩
      · exact ⟨hsame.trans (Disk.sameApart_append opened (location_mem_places base) _),
          isPlain_append hopens _⟩

end LogFile

end SqlReach
