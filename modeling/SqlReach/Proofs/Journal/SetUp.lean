import SqlReach.Journal
import SqlReach.Proofs.FileTree.Opening

/-!
# Setting up the journal

Setting up a journal can fail at two places, and it leaves different things behind.  If
the level is unknown there is no journal at all.  If the log file cannot be opened there
is a journal with the level and the terminal, but without the file.  In every case the
file tree only grows, and the working directory stays.
-/

namespace SqlReach.Journal

open FileTree

theorem grows_makeLogDirectory (limits : Limits) (disk : Disk) (path : String) :
    disk.Grows (makeLogDirectory limits disk path).1 := by
  have hmake := disk.grows_makeDirectories limits.directories (Path.split path).1
  unfold makeLogDirectory
  dsimp only
  split
  · exact disk.grows_refl
  · split <;> simp_all

/-- Whether or not the log file can be opened, the tree only grows; and what has been
opened can be written to. -/
theorem grows_openLog (limits : Limits) (disk : Disk) (path : String) :
    disk.Grows (openLog limits disk path).1 ∧
      ∀ base, (openLog limits disk path).2 = .ok base →
        ∃ location, (openLog limits disk path).1.tree.OpensAt base.text location := by
  have hdirectory := grows_makeLogDirectory limits disk path
  unfold openLog
  generalize makeLogDirectory limits disk path = made at hdirectory ⊢
  obtain ⟨made, failure⟩ := made
  cases failure with
  | some cause => exact ⟨hdirectory, nofun⟩
  | none =>
      dsimp only
      split
      · exact ⟨hdirectory, nofun⟩
      split
      · exact ⟨hdirectory, nofun⟩
      · rename_i base hbase
        cases hopen : made.openAppend base.text with
        | error fault => exact ⟨hdirectory, nofun⟩
        | ok opened =>
            obtain ⟨opened, location⟩ := opened
            obtain ⟨hgrown, hopens⟩ := Disk.openAppend_eq_ok hopen
            refine ⟨hdirectory.trans hgrown, ?_⟩
            rintro known ⟨⟩
            exact ⟨location, hopens⟩

/-! ## What a journal is set up as -/

theorem logPath?_eq_some_iff {settings : Settings} {path : String} :
    logPath? settings = some path ↔ settings.logFile = some path ∧ path ≠ "" := by
  simp [logPath?, Option.filter_eq_some_iff]

/-- The settings ask for a log file at a non-empty path, and it can be opened under its
absolute path. -/
def OpensLog (limits : Limits) (disk : Disk) (settings : Settings) (base : AbsolutePath) :
    Prop :=
  ∃ path, settings.logFile = some path ∧ path ≠ "" ∧ (openLog limits disk path).2 = .ok base

/-- A level that is not known leaves no journal behind. -/
theorem setUp_of_unknown {settings : Settings} (hlevel : threshold? settings.logLevel = none)
    (limits : Limits) (disk : Disk) :
    setUp limits disk settings =
      { disk, journal := none, failure := some (.unknownLevel settings.logLevel) } := by
  rw [setUp, hlevel]

section KnownLevel

variable {settings : Settings} {threshold : Nat}
variable (hlevel : threshold? settings.logLevel = some threshold)
variable (limits : Limits) (disk : Disk)

include hlevel

theorem setUp_of_no_path (hpath : logPath? settings = none) :
    setUp limits disk settings = { disk, journal := some ⟨threshold, none⟩ } := by
  rw [setUp, hlevel, hpath]

/-- A log file that cannot be opened is left out. -/
theorem setUp_of_path {path : String} (hpath : logPath? settings = some path) :
    (setUp limits disk settings).disk = (openLog limits disk path).1 ∧
      (setUp limits disk settings).journal =
        some ⟨threshold, (openLog limits disk path).2.toOption⟩ := by
  simp only [setUp, hlevel, hpath]
  generalize openLog limits disk path = opening
  obtain ⟨opened, result⟩ := opening
  cases result with
  | error cause => exact ⟨rfl, rfl⟩
  | ok base => exact ⟨rfl, rfl⟩

end KnownLevel

theorem toOption_eq_some_iff {ε α : Type} {result : Except ε α} {value : α} :
    result.toOption = some value ↔ result = .ok value := by
  cases result <;> simp [Except.toOption]

/-- A known level gives a journal with its threshold, and with a log file if and only if
one is asked for and can be opened. -/
theorem setUp_of_known {settings : Settings} {threshold : Nat}
    (hlevel : threshold? settings.logLevel = some threshold) (limits : Limits) (disk : Disk) :
    ∃ file, (setUp limits disk settings).journal = some ⟨threshold, file⟩ ∧
      ∀ base, file = some base ↔ OpensLog limits disk settings base := by
  cases hpath : logPath? settings with
  | none =>
      rw [setUp_of_no_path hlevel limits disk hpath]
      refine ⟨none, rfl, fun base => ⟨nofun, ?_⟩⟩
      rintro ⟨path, hfile, hnonempty, -⟩
      rw [logPath?_eq_some_iff.mpr ⟨hfile, hnonempty⟩] at hpath
      cases hpath
  | some path =>
      obtain ⟨hfile, hnonempty⟩ := logPath?_eq_some_iff.mp hpath
      refine ⟨_, (setUp_of_path hlevel limits disk hpath).2, fun base => ?_⟩
      rw [toOption_eq_some_iff]
      constructor
      · exact fun hopen => ⟨path, hfile, hnonempty, hopen⟩
      · rintro ⟨other, hother, -, hopen⟩
        rw [hfile] at hother
        cases hother
        exact hopen

/-- There is a journal exactly if the level is known. -/
theorem setUp_journal_iff {limits : Limits} {disk : Disk} {settings : Settings}
    {journal : Journal} :
    (setUp limits disk settings).journal = some journal ↔
      threshold? settings.logLevel = some journal.threshold ∧
        ∀ base, journal.file = some base ↔ OpensLog limits disk settings base := by
  cases hlevel : threshold? settings.logLevel with
  | none =>
      rw [setUp_of_unknown hlevel]
      exact ⟨nofun, fun hknown => nomatch hknown.1⟩
  | some threshold =>
      obtain ⟨file, hjournal, hfile⟩ := setUp_of_known hlevel limits disk
      rw [hjournal]
      constructor
      · rintro ⟨⟩
        exact ⟨rfl, hfile⟩
      · rintro ⟨hthreshold, hsame⟩
        obtain ⟨known, other⟩ := journal
        cases hthreshold
        have hother : file = other :=
          Option.ext fun base => (hfile base).trans (hsame base).symm
        rw [hother]

/-- Setting up a journal loses nothing on the disk, and its log file can be written to. -/
theorem grows_setUp (limits : Limits) (disk : Disk) (settings : Settings) :
    disk.Grows (setUp limits disk settings).disk ∧
      ∀ journal ∈ (setUp limits disk settings).journal, ∀ base ∈ journal.file,
        ∃ location, (setUp limits disk settings).disk.tree.OpensAt base.text location := by
  cases hlevel : threshold? settings.logLevel with
  | none =>
      rw [setUp_of_unknown hlevel]
      exact ⟨disk.grows_refl, nofun⟩
  | some threshold =>
      cases hpath : logPath? settings with
      | none =>
          rw [setUp_of_no_path hlevel limits disk hpath]
          refine ⟨disk.grows_refl, ?_⟩
          rintro journal ⟨⟩ base ⟨⟩
      | some path =>
          obtain ⟨hgrows, hopens⟩ := grows_openLog limits disk path
          obtain ⟨htree, hjournal⟩ := setUp_of_path hlevel limits disk hpath
          generalize openLog limits disk path = opening at hgrows hopens htree hjournal
          rw [htree, hjournal]
          refine ⟨hgrows, ?_⟩
          rintro journal ⟨⟩ base hbase
          exact hopens base (toOption_eq_some_iff.mp hbase)

end SqlReach.Journal
