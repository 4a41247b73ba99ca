import SqlReach.Proofs.Journal.LogFile

/-!
# The backups of a log file

A log file and its backups hold one history, which begins with the oldest backup and ends
with the log file.  If there is nothing but files in their places, logging never fails,
and every line is added once, at the end of the history.  A rollover takes something away
only from its beginning.
-/

namespace SqlReach.LogFile

open FileTree

/-- What the places up to a number hold, the last one first. -/
def joined (bytes : Nat → List UInt8) : Nat → List UInt8
  | 0 => bytes 0
  | number + 1 => bytes (number + 1) ++ joined bytes number

/-- All that has been logged and is still there, the oldest first. -/
def history (base : AbsolutePath) (tree : FileTree) : List UInt8 :=
  joined (fun number => tree.bytesAt (slot base.location number)) backups

/-- What the log file and its backups hold, by their numbers: there is nothing but files in
their places, and no path of them is too long. -/
structure Holds (base : AbsolutePath) (tree : FileTree)
    (contents : Nat → Option (List UInt8)) : Prop where
  ne_root : base.location ≠ .root
  parent_eq : tree.find? base.location.parent = some .directory
  isWalkable : ∀ number ≤ backups, IsWalkable (pathOf base number)
  find?_eq : ∀ number ≤ backups,
    tree.find? (slot base.location number) = (contents number).map Entry.file

variable {base : AbsolutePath} {disk : Disk} {contents : Nat → Option (List UInt8)}
variable {number : Nat} {content : List UInt8}

theorem Holds.congr {other : Nat → Option (List UInt8)} {tree : FileTree}
    (hholds : Holds base tree contents)
    (hsame : ∀ number ≤ backups, other number = contents number) : Holds base tree other :=
  { hholds with
    find?_eq := fun number hnumber => by rw [hsame number hnumber, hholds.find?_eq number hnumber] }

/-- Nothing else is new, if the places are filled otherwise. -/
theorem Holds.of_find? {tree after : FileTree} {other : Nat → Option (List UInt8)}
    (hholds : Holds base tree contents)
    (hparent : after.find? base.location.parent = tree.find? base.location.parent)
    (hfind : ∀ number ≤ backups,
      after.find? (slot base.location number) = (other number).map Entry.file) :
    Holds base after other :=
  ⟨hholds.ne_root, hparent.trans hholds.parent_eq, hholds.isWalkable, hfind⟩

section Places

variable (hholds : Holds base disk.tree contents) (hnumber : number ≤ backups)

include hholds hnumber

theorem Holds.walk (purpose : Purpose) :
    disk.tree.walk purpose .root (part base number) =
      match contents number with
      | none => .ok (.free (slot base.location number))
      | some content => .ok (.found (slot base.location number) (.file content)) := by
  have hparent : disk.tree.find? (pathOf base number).location.parent = some .directory := by
    rw [pathOf, slot_parent hholds.ne_root, hholds.parent_eq]
  have hfind : disk.tree.find? (pathOf base number).location =
      (contents number).map Entry.file := hholds.find?_eq number hnumber
  have hlink : ∀ target, disk.tree.find? (pathOf base number).location ≠ some (.link target) := by
    intro target
    rw [hfind]
    cases contents number <;> simp
  rw [part_eq hholds.ne_root,
    walk_eq hparent (slot_ne_root hholds.ne_root number) (Or.inr hlink),
    if_pos (hholds.isWalkable number hnumber), hfind]
  cases contents number <;> rfl

theorem Holds.leads : disk.leads (part base number) = (contents number).isSome := by
  rw [Disk.leads, lookAt, hholds.walk hnumber]
  cases contents number <;> rfl

end Places

/-! ## A rollover -/

/-- A place that is emptied, or was empty before. -/
theorem Holds.clear (hholds : Holds base disk.tree contents) (hnumber : number ≤ backups) :
    ∃ after, LogFile.clear (part base number) disk = (after, none) ∧
      Holds base after.tree (Function.update contents number none) := by
  rw [LogFile.clear, hholds.leads hnumber]
  cases hcontent : contents number with
  | none =>
      refine ⟨disk, rfl, ?_⟩
      rwa [Function.update_eq_self_iff.mpr hcontent.symm]
  | some content =>
      have hfile : disk.tree.find? (slot base.location number) = some (.file content) := by
        rw [hholds.find?_eq number hnumber, hcontent]
        rfl
      refine ⟨disk.discard (slot base.location number), ?_, ?_⟩
      · simp only [Disk.unlink, hholds.walk hnumber, hcontent]
        rfl
      · have hsame : Disk.SameApart ([number].map (slot base.location)) disk
            (disk.discard (slot base.location number)) :=
          Disk.sameApart_discard disk List.mem_cons_self
        refine hholds.of_find? (hsame.find?_eq _ (isApart_parent hholds.ne_root _)) ?_
        intro other hother
        rw [Disk.discard, dif_neg (by simp [hfile]), find?_remove hfile (by simp)]
        by_cases hplace : other = number
        · rw [hplace, if_pos rfl, Function.update_self]
          rfl
        · rw [if_neg fun hslot => hplace (slot_inj hholds.ne_root hslot),
            Function.update_of_ne hplace, hholds.find?_eq other hother]

/-- A file that is moved to where there is none. -/
theorem Holds.rename {source target : Nat} (hholds : Holds base disk.tree contents)
    (hsource : source ≤ backups) (htarget : target ≤ backups) (hother : target ≠ source)
    (hcontent : contents source = some content) (hfree : contents target = none) :
    ∃ after, disk.rename (part base source) (part base target) = (after, none) ∧
      Holds base after.tree
        (Function.update (Function.update contents source none) target (some content)) := by
  have hroot := hholds.ne_root
  have hfile : disk.tree.find? (slot base.location source) = some (.file content) := by
    rw [hholds.find?_eq source hsource, hcontent]
    rfl
  have hnone : disk.tree.find? (slot base.location target) = none := by
    rw [hholds.find?_eq target htarget, hfree]
    rfl
  have hparent : disk.tree.find? (slot base.location target).parent = some .directory := by
    rw [slot_parent hroot, hholds.parent_eq]
  refine ⟨disk.move (slot base.location source) (slot base.location target), ?_, ?_⟩
  · simp only [Disk.rename, hholds.walk hsource, hholds.walk htarget, hcontent, hfree]
  · have hsame : Disk.SameApart ([source, target].map (slot base.location)) disk
        (disk.move (slot base.location source) (slot base.location target)) :=
      Disk.sameApart_move disk (by simp) (by simp)
    refine hholds.of_find? (hsame.find?_eq _ (isApart_parent hroot _)) ?_
    intro number hnumber
    rw [Disk.move, dif_pos ⟨hparent, by simp [hnone], not_isWithin_slot hroot hother⟩,
      find?_move hfile nofun hparent (by simp [hnone]) fun hslot => hother (slot_inj hroot hslot)]
    by_cases hthere : number = target
    · rw [hthere, if_pos rfl, Function.update_self]
      rfl
    · rw [if_neg fun hslot => hthere (slot_inj hroot hslot), Function.update_of_ne hthere]
      by_cases hhere : number = source
      · rw [hhere, if_pos rfl, Function.update_self]
        rfl
      · rw [if_neg fun hslot => hhere (slot_inj hroot hslot), Function.update_of_ne hhere,
          hholds.find?_eq number hnumber]

/-- What is held once the content of one place has been moved to the next, unless there
was none. -/
def shifted (contents : Nat → Option (List UInt8)) (number : Nat) : Nat → Option (List UInt8) :=
  Function.update (Function.update contents number none) (number + 1)
    ((contents number).or (contents (number + 1)))

theorem Holds.move (hholds : Holds base disk.tree contents) (hnumber : number < backups)
    (hcontent : contents number = some content) :
    ∃ cleared after, LogFile.clear (part base (number + 1)) disk = (cleared, none) ∧
      cleared.leads (part base number) = true ∧
      cleared.rename (part base number) (part base (number + 1)) = (after, none) ∧
      Holds base after.tree (shifted contents number) := by
  obtain ⟨cleared, hclear, hcleared⟩ := hholds.clear (Nat.succ_le_of_lt hnumber)
  have hstill : Function.update contents (number + 1) none number = some content := by
    rw [Function.update_of_ne (by omega), hcontent]
  obtain ⟨after, hrename, hafter⟩ := hcleared.rename hnumber.le (Nat.succ_le_of_lt hnumber)
    (by omega) hstill (Function.update_self ..)
  refine ⟨cleared, after, hclear, ?_, hrename, hafter.congr fun other _ => ?_⟩
  · rw [hcleared.leads hnumber.le, hstill]
    rfl
  · rw [shifted, hcontent, Option.some_or]
    by_cases hnext : other = number + 1
    · rw [hnext, Function.update_self, Function.update_self]
    · simp only [Function.update_of_ne hnext]
      by_cases hsame : other = number
      · rw [hsame, Function.update_self, Function.update_self]
      · simp only [Function.update_of_ne hsame, Function.update_of_ne hnext]

theorem Holds.shift (hholds : Holds base disk.tree contents) (hnumber : number < backups) :
    ∃ after, LogFile.shift base number disk = (after, none) ∧
      Holds base after.tree (shifted contents number) := by
  rw [LogFile.shift, hholds.leads hnumber.le]
  cases hcontent : contents number with
  | none =>
      refine ⟨disk, rfl, ?_⟩
      have hsame : Function.update contents number none = contents :=
        Function.update_eq_self_iff.mpr hcontent.symm
      rwa [shifted, hsame, hcontent, Option.none_or, Function.update_eq_self]
  | some content =>
      obtain ⟨cleared, after, hclear, -, hrename, hafter⟩ := hholds.move hnumber hcontent
      refine ⟨after, ?_, hafter⟩
      simp only [Option.isSome_some, if_true, hclear, hrename]

/-- What is held once all places up to a number have been shifted, the last one first. -/
def shiftedAll (contents : Nat → Option (List UInt8)) : Nat → Nat → Option (List UInt8)
  | 0 => contents
  | number + 1 => shiftedAll (shifted contents (number + 1)) number

theorem Holds.shiftAll (hholds : Holds base disk.tree contents) (hnumber : number < backups) :
    ∃ after, LogFile.shiftAll base number disk = (after, none) ∧
      Holds base after.tree (shiftedAll contents number) := by
  induction number generalizing disk contents with
  | zero => exact ⟨disk, rfl, hholds⟩
  | succ number ih =>
      obtain ⟨between, hshift, hbetween⟩ := hholds.shift hnumber
      obtain ⟨after, hall, hafter⟩ := ih hbetween (by omega)
      refine ⟨after, ?_, hafter⟩
      simp only [LogFile.shiftAll, hshift, hall]

theorem Holds.retire (hholds : Holds base disk.tree contents)
    (hcontent : contents 0 = some content) :
    ∃ after, LogFile.retire base disk = (after, none) ∧
      Holds base after.tree (shifted contents 0) := by
  obtain ⟨cleared, after, hclear, hleads, hrename, hafter⟩ := hholds.move (by decide) hcontent
  refine ⟨after, ?_, hafter⟩
  have hbase : base.text = part base 0 := rfl
  simp only [LogFile.retire, hclear, hbase, hleads, hrename, if_true]

/-! ## The history -/

/-- What the places hold, the last one first. -/
def recorded (contents : Nat → Option (List UInt8)) : List UInt8 :=
  joined (fun number => (contents number).getD []) backups

theorem Holds.history_eq {tree : FileTree} (hholds : Holds base tree contents) :
    history base tree = recorded contents := by
  have hjoined : ∀ number ≤ backups,
      joined (fun number => tree.bytesAt (slot base.location number)) number =
        joined (fun number => (contents number).getD []) number := by
    intro number hnumber
    have hbytes : ∀ number ≤ backups,
        tree.bytesAt (slot base.location number) = (contents number).getD [] := by
      intro number hnumber
      rw [bytesAt, hholds.find?_eq number hnumber]
      cases contents number <;> rfl
    induction number with
    | zero => exact hbytes 0 hnumber
    | succ number ih => rw [joined, joined, hbytes _ hnumber, ih (by omega)]
  exact hjoined backups (Nat.le_refl _)

/-- Bytes may move from a place to the next one. -/
theorem joined_congr {bytes other : Nat → List UInt8} {number : Nat}
    (hsame : ∀ place, place ≠ number → place ≠ number + 1 → other place = bytes place)
    (hmoved : other (number + 1) ++ other number = bytes (number + 1) ++ bytes number)
    {last : Nat} (hlast : number < last) : joined other last = joined bytes last := by
  induction last with
  | zero => omega
  | succ last ih =>
      by_cases hnumber : number = last
      · subst hnumber
        cases number with
        | zero => exact hmoved
        | succ number =>
            have hbelow : ∀ place ≤ number, joined other place = joined bytes place := by
              intro place hplace
              induction place with
              | zero => exact hsame 0 (by omega) (by omega)
              | succ place ih => rw [joined, joined, hsame _ (by omega) (by omega), ih (by omega)]
            simp only [joined, ← List.append_assoc, hmoved, hbelow number (Nat.le_refl _)]
      · rw [joined, joined, hsame _ (by omega) (by omega), ih (by omega)]

theorem shifted_self (contents : Nat → Option (List UInt8)) (number : Nat) :
    shifted contents number number = none := by
  rw [shifted, Function.update_of_ne (by omega), Function.update_self]

theorem shifted_of_ne {place : Nat} (hplace : place ≠ number) (hnext : place ≠ number + 1) :
    shifted contents number place = contents place := by
  rw [shifted, Function.update_of_ne hnext, Function.update_of_ne hplace]

theorem shifted_next (contents : Nat → Option (List UInt8)) (number : Nat) :
    shifted contents number (number + 1) = (contents number).or (contents (number + 1)) := by
  rw [shifted, Function.update_self]

/-- Nothing is lost if there was nothing in the next place. -/
theorem recorded_shifted (hfree : contents (number + 1) = none) (hnumber : number < backups) :
    recorded (shifted contents number) = recorded contents := by
  apply joined_congr _ _ hnumber
  · intro place hplace hnext
    rw [shifted_of_ne hplace hnext]
  · simp only [shifted_next, shifted_self, hfree, Option.or_none, Option.getD_none, List.append_nil,
      List.nil_append]

/-- What is in the last place is lost if there is something to replace it. -/
theorem exists_lost_shifted (contents : Nat → Option (List UInt8)) :
    ∃ lost, lost ++ recorded (shifted contents (backups - 1)) = recorded contents := by
  cases hcontent : contents (backups - 1) with
  | none =>
      have hsame : Function.update contents (backups - 1) none = contents :=
        Function.update_eq_self_iff.mpr hcontent.symm
      refine ⟨[], ?_⟩
      rw [shifted, hsame, hcontent, Option.none_or, Function.update_eq_self, List.nil_append]
  | some content =>
      -- It is as if the last place had been emptied before.
      have hstill : Function.update contents backups none (backups - 1) = some content := by
        rw [Function.update_of_ne (by decide), hcontent]
      have hempty : shifted contents (backups - 1) =
          shifted (Function.update contents backups none) (backups - 1) := by
        funext place
        by_cases hlast : place = backups - 1 + 1
        · rw [hlast, shifted_next, shifted_next, hcontent, hstill]
          rfl
        · by_cases hplace : place = backups - 1
          · rw [hplace, shifted_self, shifted_self]
          · rw [shifted_of_ne hplace hlast, shifted_of_ne hplace hlast]
            exact (Function.update_of_ne hlast ..).symm
      have hfree : Function.update contents backups none (backups - 1 + 1) = none :=
        Function.update_self ..
      refine ⟨(contents backups).getD [], ?_⟩
      rw [hempty, recorded_shifted hfree (by decide)]
      rfl

theorem shiftedAll_of_free (hfree : contents (number + 1) = none) (hnumber : number < backups) :
    recorded (shiftedAll contents number) = recorded contents ∧
      shiftedAll contents number 0 = contents 0 ∧ shiftedAll contents number 1 = none := by
  induction number generalizing contents with
  | zero => exact ⟨rfl, rfl, hfree⟩
  | succ number ih =>
      obtain ⟨hrecorded, hzero, hone⟩ := ih (shifted_self contents (number + 1)) (by omega)
      refine ⟨hrecorded.trans (recorded_shifted hfree hnumber), hzero.trans ?_, hone⟩
      exact shifted_of_ne (by omega) (by omega)

/-- A rollover makes room for a new log file, and it loses at most the beginning of the
history. -/
theorem Holds.rollOver (hholds : Holds base disk.tree contents)
    (hcontent : contents 0 = some content) :
    ∃ after rolled, LogFile.rollOver base disk = (after, none) ∧
      Holds base after.tree rolled ∧ rolled 0 = none ∧
      ∃ lost, lost ++ recorded rolled = recorded contents := by
  obtain ⟨between, hshift, hbetween⟩ := hholds.shiftAll (show backups - 1 < backups by decide)
  obtain ⟨lost, hlost⟩ := exists_lost_shifted contents
  obtain ⟨hrecorded, hzero, hone⟩ :
      recorded (shiftedAll contents (backups - 1)) =
          recorded (shifted contents (backups - 1)) ∧
        shiftedAll contents (backups - 1) 0 = shifted contents (backups - 1) 0 ∧
        shiftedAll contents (backups - 1) 1 = none :=
    shiftedAll_of_free (shifted_self contents (backups - 1)) (by decide)
  rw [shifted_of_ne (by decide) (by decide), hcontent] at hzero
  obtain ⟨after, hretire, hafter⟩ := hbetween.retire hzero
  refine ⟨after, _, ?_, hafter, shifted_self _ 0, lost, ?_⟩
  · simp only [LogFile.rollOver, hshift, hretire]
  · rw [recorded_shifted hone (by decide), hrecorded, hlost]

/-! ## Logging a line -/

theorem joined_append (bytes : Nat → List UInt8) (more : List UInt8) (number : Nat) :
    joined (Function.update bytes 0 (bytes 0 ++ more)) number = joined bytes number ++ more := by
  induction number with
  | zero => rw [joined, joined, Function.update_self]
  | succ number ih =>
      rw [joined, joined, ih, Function.update_of_ne (by omega), List.append_assoc]

theorem recorded_append (contents : Nat → Option (List UInt8)) (more : List UInt8) :
    recorded (Function.update contents 0 (some ((contents 0).getD [] ++ more))) =
      recorded contents ++ more := by
  rw [recorded, recorded, ← joined_append]
  congr 1
  funext number
  by_cases hzero : number = 0
  · rw [hzero, Function.update_self, Function.update_self]
    rfl
  · rw [Function.update_of_ne hzero, Function.update_of_ne hzero]

theorem Holds.put (hholds : Holds base disk.tree contents) {after : Disk}
    (hafter : after.tree = disk.tree.put base.location (.file content)) :
    Holds base after.tree (Function.update contents 0 (some content)) := by
  have hroot := hholds.ne_root
  have hplace : disk.tree.find? base.location ≠ some .directory := by
    have hzero := hholds.find?_eq 0 (Nat.zero_le _)
    rw [slot_zero] at hzero
    rw [hzero]
    cases contents 0 <;> simp
  have hparent : base.location.parent ≠ base.location := by
    intro hsame
    rw [← hsame] at hplace
    exact hplace hholds.parent_eq
  rw [hafter]
  refine hholds.of_find? ?_ fun number hnumber => ?_
  · rw [find?_put hholds.parent_eq hplace, if_neg hparent]
  · rw [find?_put hholds.parent_eq hplace]
    by_cases hzero : number = 0
    · rw [hzero, slot_zero, if_pos rfl, Function.update_self]
      rfl
    · have hother : slot base.location number ≠ base.location := by
        rw [← slot_zero base.location]
        exact fun hslot => hzero (slot_inj hroot hslot)
      rw [if_neg hother, Function.update_of_ne hzero, hholds.find?_eq number hnumber]

theorem Holds.openAppend (hholds : Holds base disk.tree contents) :
    ∃ opened, disk.openAppend base.text = .ok (opened, base.location) ∧
      Holds base opened.tree (Function.update contents 0 (some ((contents 0).getD []))) := by
  have hwalk := hholds.walk (Nat.zero_le _) .openFile
  rw [show part base 0 = base.text from rfl] at hwalk
  cases hcontent : contents 0 with
  | none =>
      rw [hcontent] at hwalk
      have hfree : disk.tree.find? base.location = none := by
        have hzero := hholds.find?_eq 0 (Nat.zero_le _)
        rwa [hcontent] at hzero
      refine ⟨disk.fill base.location (.file []), ?_, ?_⟩
      · simp only [Disk.openAppend, hwalk]
        rfl
      · exact hholds.put (Disk.fill_of_free hfree _).1
  | some content =>
      rw [hcontent] at hwalk
      refine ⟨disk, ?_, ?_⟩
      · simp only [Disk.openAppend, hwalk]
        rfl
      · rwa [Option.getD_some, Function.update_eq_self_iff.mpr hcontent.symm]

theorem Holds.append (hholds : Holds base disk.tree contents) (hcontent : contents 0 = some content)
    (bytes : List UInt8) :
    Holds base (disk.append base.location bytes).tree
      (Function.update contents 0 (some (content ++ bytes))) := by
  have hzero := hholds.find?_eq 0 (Nat.zero_le _)
  rw [slot_zero, hcontent] at hzero
  exact hholds.put (Disk.append_of_file hzero bytes).1

/-- A line is written at the end of the log file, which is made if it is not there. -/
theorem Holds.write (hholds : Holds base disk.tree contents) (line : String) :
    ∃ after, LogFile.write base line disk = (after, none) ∧
      Holds base after.tree
        (Function.update contents 0 (some ((contents 0).getD [] ++ Utf8.encode line))) := by
  obtain ⟨opened, hopen, hopened⟩ := hholds.openAppend
  have hafter := hopened.append (Function.update_self ..) (Utf8.encode line)
  rw [Function.update_idem] at hafter
  refine ⟨_, ?_, hafter⟩
  rw [LogFile.write, hopen]

/-- The places of the log file hold nothing but files, and their paths are not too long. -/
structure IsRegular (base : AbsolutePath) (tree : FileTree) : Prop where
  ne_root : base.location ≠ .root
  parent_eq : tree.find? base.location.parent = some .directory
  isWalkable : ∀ number ≤ backups, IsWalkable (pathOf base number)
  file_or_none : ∀ number ≤ backups, tree.find? (slot base.location number) = none ∨
    ∃ content, tree.find? (slot base.location number) = some (.file content)

theorem IsRegular.holds {tree : FileTree} (hregular : IsRegular base tree) :
    ∃ contents, Holds base tree contents := by
  have hcontent : ∀ number, ∃ content : Option (List UInt8), number ≤ backups →
      tree.find? (slot base.location number) = content.map .file := by
    intro number
    by_cases hnumber : number ≤ backups
    · rcases hregular.file_or_none number hnumber with hnone | ⟨content, hfile⟩
      · exact ⟨none, fun _ => hnone⟩
      · exact ⟨some content, fun _ => hfile⟩
    · exact ⟨none, fun hother => absurd hother hnumber⟩
  choose contents hcontents using hcontent
  exact ⟨contents, hregular.ne_root, hregular.parent_eq, hregular.isWalkable, hcontents⟩

theorem Holds.isRegular {tree : FileTree} (hholds : Holds base tree contents) :
    IsRegular base tree := by
  refine ⟨hholds.ne_root, hholds.parent_eq, hholds.isWalkable, fun number hnumber => ?_⟩
  rw [hholds.find?_eq number hnumber]
  cases contents number with
  | none => exact Or.inl rfl
  | some content => exact Or.inr ⟨content, rfl⟩

/-- Logging a line does not fail, and the line is added once, at the end of the history,
which may lose something of its beginning. -/
theorem Holds.log (hholds : Holds base disk.tree contents) (line : String) :
    ∃ after logged lost, LogFile.log base line disk = (after, none) ∧
      Holds base after.tree logged ∧
      lost ++ recorded logged = recorded contents ++ Utf8.encode line := by
  obtain ⟨opened, hopen, hopened⟩ := hholds.openAppend
  have hrecorded : recorded (Function.update contents 0 (some ((contents 0).getD []))) =
      recorded contents := by
    rw [← List.append_nil ((contents 0).getD []), recorded_append, List.append_nil]
  have hzero : Function.update contents 0 (some ((contents 0).getD [])) 0 =
      some ((contents 0).getD []) := Function.update_self ..
  generalize Function.update contents 0 (some ((contents 0).getD [])) = current
    at hopened hrecorded hzero
  cases hfull : isFull opened base.location line with
  | false =>
      refine ⟨_, _, [], ?_, hopened.append hzero (Utf8.encode line), ?_⟩
      · simp only [LogFile.log, hopen, hfull]
        rfl
      · have happend := recorded_append current (Utf8.encode line)
        rw [hzero, Option.getD_some] at happend
        rw [List.nil_append, happend, hrecorded]
  | true =>
      obtain ⟨between, rolled, hroll, hbetween, -, lost, hlost⟩ := hopened.rollOver hzero
      obtain ⟨after, hwrite, hafter⟩ := hbetween.write line
      refine ⟨after, _, lost, ?_, hafter, ?_⟩
      · simp only [LogFile.log, hopen, hfull, hroll, hwrite]
        rfl
      · rw [recorded_append, ← List.append_assoc, hlost, hrecorded]

/-- However many lines are logged, each of them is added once to the history. -/
theorem IsRegular.exists_logs (hregular : IsRegular base disk.tree) (lines : List String) :
    ∃ after, Logs base lines disk after ∧ IsRegular base after.tree ∧
      ∃ lost, lost ++ history base after.tree =
        history base disk.tree ++ lines.flatMap Utf8.encode := by
  induction lines generalizing disk with
  | nil =>
      refine ⟨disk, rfl, hregular, [], ?_⟩
      rw [List.nil_append, List.flatMap_nil, List.append_nil]
  | cons line lines ih =>
      obtain ⟨contents, hholds⟩ := hregular.holds
      obtain ⟨between, logged, early, hlog, hlogged, hearly⟩ := hholds.log line
      obtain ⟨after, hlogs, hafter, late, hlate⟩ := ih hlogged.isRegular
      refine ⟨after, ⟨between, hlog, hlogs⟩, hafter, early ++ late, ?_⟩
      rw [List.append_assoc, hlate, hlogged.history_eq, ← List.append_assoc, hearly,
        hholds.history_eq, List.flatMap_cons, List.append_assoc]

/-! ## Links around a log file -/

theorem IsRegular.isPlain {tree : FileTree} (hregular : IsRegular base tree) :
    IsPlain base tree := by
  refine ⟨hregular.ne_root, hregular.parent_eq, fun target hlink => ?_⟩
  have hzero := hregular.file_or_none 0 (Nat.zero_le _)
  rw [slot_zero, hlink] at hzero
  simp at hzero

theorem IsRegular.exists_file {tree : FileTree} (hregular : IsRegular base tree) {entry : Entry}
    (hplace : location ∈ places base) (hentry : tree.find? location = some entry) :
    ∃ content, entry = .file content := by
  obtain ⟨number, hnumber, rfl⟩ := List.mem_map.mp hplace
  have hslot := hregular.file_or_none number (Nat.le_of_lt_succ (List.mem_range.mp hnumber))
  simpa [hentry] using hslot

/-- There is nothing below the places of the log file. -/
theorem IsRegular.isApart {tree : FileTree} (hregular : IsRegular base tree) {entry : Entry}
    (hentry : tree.find? location = some entry) (hplace : location ∉ places base) :
    IsApart (places base) location := by
  intro place hmem hwithin
  have hother : location ≠ place := fun hsame => hplace (hsame ▸ hmem)
  obtain ⟨content, hcontent⟩ :=
    hregular.exists_file hmem (isDirectory_of_isWithin hentry hwithin hother)
  cases hcontent

theorem IsRegular.isApart_of_ne_file {tree : FileTree} (hregular : IsRegular base tree)
    {entry : Entry} (hentry : tree.find? location = some entry)
    (hfile : ∀ content, entry ≠ .file content) : IsApart (places base) location := by
  apply hregular.isApart hentry
  intro hplace
  obtain ⟨content, hcontent⟩ := hregular.exists_file hplace hentry
  exact hfile content hcontent

section Regular

variable {before after : Disk} (hbefore : IsRegular base before.tree)
variable (hafter : IsRegular base after.tree) (hsame : Disk.SameApart (places base) before after)

include hbefore hafter hsame

/-- Where there are files only, nothing that leads anywhere is moved. -/
theorem IsRegular.leadsAlike : before.LeadsAlike after where
  sameLinks location target := by
    constructor
    · intro hlink
      rw [hsame.find?_eq location (hbefore.isApart_of_ne_file hlink nofun), hlink]
    · intro hlink
      rwa [hsame.find?_eq location (hafter.isApart_of_ne_file hlink nofun)] at hlink
  directory_eq := hsame.directory_eq (hbefore.isApart_of_ne_file before.standing nofun)

theorem IsRegular.keeps : before.tree.Keeps (places base) none after.tree where
  sameLinks := (hbefore.leadsAlike hafter hsame).sameLinks
  exists_file location hplace entry hentry := hbefore.exists_file hplace hentry
  exists_kept location hplace entry hentry := by
    refine ⟨entry, ?_, .same entry⟩
    rw [hsame.find?_eq location (hbefore.isApart hentry hplace), hentry]

end Regular

end SqlReach.LogFile
