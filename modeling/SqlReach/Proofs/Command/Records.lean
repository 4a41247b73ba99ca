import SqlReach.Proofs.Command.ExitStatus
import SqlReach.Proofs.Command.Reading
import SqlReach.Proofs.Journal.Events
import SqlReach.Proofs.Source.Files

/-!
# What a run records

The first run of a process sets up the journal and then analyzes its source.  What it
records is the part of one and the same list of events that is grave enough for its
level, and the terminal and the log file get the same lines.  Neither the level nor the
log file has an influence on the report and the exit status: setting up the journal adds
to the file tree without getting in the way of the source, unless the source is a file of
the log.  These are the log file and, when it is rolled over, its backups.
-/

namespace SqlReach

/-- The lines of the events that reach a threshold. -/
def linesFrom (threshold : Nat) (stamp : String) (events : List Event) : List String :=
  (events.filter fun event => threshold ≤ event.severity.rank).map (Event.line stamp)

theorem linesFrom_append (threshold : Nat) (stamp : String) (first second : List Event) :
    linesFrom threshold stamp (first ++ second) =
      linesFrom threshold stamp first ++ linesFrom threshold stamp second := by
  rw [linesFrom, List.filter_append, List.map_append, linesFrom, linesFrom]

namespace Remark

variable (stamp : String) (journal : Journal)

theorem lines_events (events : List Event) :
    lines stamp (some journal) (events.map .event) =
      linesFrom journal.threshold stamp events := by
  induction events with
  | nil => rfl
  | cons event events ih =>
      rw [lines, linesFrom] at ih
      rw [lines, linesFrom, List.map_cons, List.filterMap_cons, List.filter_cons, ih]
      by_cases haccepted : journal.threshold ≤ event.severity.rank
      · simp [line?, Journal.accepts, haccepted]
      · simp [line?, Journal.accepts, haccepted]

theorem shownAll_events (events : List Event) :
    shownAll stamp (some journal) (events.map .event) =
      String.join (linesFrom journal.threshold stamp events) := by
  induction events with
  | nil => rfl
  | cons event events ih =>
      rw [List.map_cons, shownAll_cons, ih, linesFrom, linesFrom, List.filter_cons]
      by_cases haccepted : journal.threshold ≤ event.severity.rank
      · simp [shown, Journal.accepts, haccepted]
      · simp [shown, Journal.accepts, haccepted]

/-- What the report says on the terminal goes nowhere else. -/
theorem lines_events_report (events : List Event) (format : Option Format)
    (analysis : Analysis) :
    lines stamp (some journal) (events.map .event ++ Command.reportRemarks format analysis) =
      linesFrom journal.threshold stamp events := by
  have hsilent : lines stamp (some journal) (Command.reportRemarks format analysis) = [] := by
    rw [Command.reportRemarks]
    split <;> rfl
  rw [lines, List.filterMap_append, ← lines, ← lines, lines_events, hsilent, List.append_nil]

theorem shownAll_events_report (events : List Event) (format : Option Format)
    (analysis : Analysis) :
    shownAll stamp (some journal) (events.map .event ++ Command.reportRemarks format analysis) =
      String.join (linesFrom journal.threshold stamp events) ++
        (if format = some .text ∧ analysis.usesSql = true then
          "ERROR: EXEC SQL found in the call tree.\n" else "") := by
  have hreport : shownAll stamp (some journal) (Command.reportRemarks format analysis) =
      if format = some .text ∧ analysis.usesSql = true then
        "ERROR: EXEC SQL found in the call tree.\n" else "" := by
    rw [Command.reportRemarks]
    split
    · exact String.empty_append
    · rfl
  rw [shownAll, List.map_append, String.join_append, ← shownAll, ← shownAll, shownAll_events,
    hreport]

end Remark

namespace Session

variable {session : Session} {lines more : List String}

theorem RoomFor.of_append {log : Option Location} (hroom : session.RoomFor (lines ++ more) log) :
    session.RoomFor lines log := by
  cases hroom with
  | terminal hfile => exact .terminal hfile
  | file hjournal hfile hopens hroom =>
      exact .file hjournal hfile hopens (LogFile.HasRoom.of_append hroom)

theorem LogsWithin.of_append {places : List Location} {log : Option Location}
    (hlogs : session.LogsWithin (lines ++ more) places log) :
    session.LogsWithin lines places log := by
  cases hlogs with
  | room hroom => exact .room hroom.of_append
  | regular hfile hregular => exact .regular hfile hregular

/-- Logging lines leaves a file alone: there is room for them and the file is not the log
file, or there are only files in the places of the log file and the file is in none of
them. -/
def Spares (session : Session) (lines : List String) (place : Location) : Prop :=
  ∃ places log, session.LogsWithin lines places log ∧ place ∉ places ∧ log ≠ some place

/-- Lines have been written to the terminal, with a text behind them, and to the log file:
at its end if there is room for them, and else at the end of its history, which may lose
something of its beginning. -/
structure Writes (lines : List String) (text : String) (before after : Session) : Prop where
  err_eq : ∀ places log, before.LogsWithin lines places log →
    after.err = before.err ++ String.join lines ++ text
  find?_log : ∀ location, before.RoomFor lines (some location) →
    after.world.tree.find? location = some .sink ∨
      after.world.tree.find? location =
        some (.file (before.world.tree.bytesAt location ++ lines.flatMap Utf8.encode))
  exists_lost : ∀ base, before.world.journal.bind Journal.file = some base →
    LogFile.IsRegular base before.world.tree →
      ∃ lost, lost ++ LogFile.history base after.world.tree =
        LogFile.history base before.world.tree ++ lines.flatMap Utf8.encode

theorem Says.writes {start : Command.Start} {before after : Session} {journal : Journal}
    (hjournal : before.world.journal = some journal) {events : List Event}
    {format : Option Format} {analysis : Analysis}
    (hmakes : Says start (events.map .event ++ Command.reportRemarks format analysis) before
      after) :
    Writes (linesFrom journal.threshold start.stamp events)
      (if format = some .text ∧ analysis.usesSql = true then
        "ERROR: EXEC SQL found in the call tree.\n" else "") before after := by
  have hlines := Remark.lines_events_report start.stamp journal events format analysis
  have hshown := Remark.shownAll_events_report start.stamp journal events format analysis
  have hrecords := hmakes.records
  constructor
  · intro places log hlogs
    rw [String.append_assoc, ← hshown]
    cases hlogs with
    | room hroom =>
        rw [← hlines, ← hjournal] at hroom
        rw [(hrecords.of_roomFor hroom).1, hjournal]
    | regular hfile hregular =>
        rw [hjournal, Option.bind_some] at hfile
        exact (hrecords.of_regular journal _ hjournal hfile hregular).1
  · intro location hroom
    rw [← hlines, ← hjournal] at hroom ⊢
    exact (hrecords.of_roomFor hroom).2.2.2 location rfl
  · intro base hfile hregular
    rw [hjournal, Option.bind_some] at hfile
    rw [← hlines]
    exact (hrecords.of_regular journal base hjournal hfile hregular).2.2

end Session

namespace Command

variable {start : Start} {settings : Settings} {arguments : List String} {session : Session}
variable {world : World} {threshold : Nat} {file : Option AbsolutePath}

/-! ## The journal of a first run -/

/-- The settings ask for a known level, and for no log file or for one that can be
opened. -/
structure SetsJournal (start : Start) (world : World) (settings : Settings) (threshold : Nat)
    (file : Option AbsolutePath) : Prop where
  threshold_eq : Journal.threshold? settings.logLevel = some threshold
  file_eq : file = none ∧ Journal.logPath? settings = none ∨
    ∃ base, file = some base ∧
      Journal.OpensLog start.machine.limits world.toDisk settings base

theorem SetsJournal.setUp_eq (hsets : SetsJournal start world settings threshold file) :
    (Journal.setUp start.machine.limits world.toDisk settings).journal = some ⟨threshold, file⟩ ∧
      (Journal.setUp start.machine.limits world.toDisk settings).failure = none := by
  rcases hsets.file_eq with ⟨rfl, hpath⟩ | ⟨base, rfl, path, hfile, hnonempty, hopen⟩
  · rw [Journal.setUp_of_no_path hsets.threshold_eq _ _ hpath]
    exact ⟨rfl, rfl⟩
  · have hpath := Journal.logPath?_eq_some_iff.mpr ⟨hfile, hnonempty⟩
    simp only [Journal.setUp, hsets.threshold_eq, hpath]
    generalize Journal.openLog start.machine.limits world.toDisk path = opening at hopen ⊢
    obtain ⟨disk, result⟩ := opening
    obtain rfl : result = .ok base := hopen
    exact ⟨rfl, rfl⟩

/-- The path that is read, once the path that the run has found is resolved again. -/
def sourceOf (start : Start) (settings : Settings) (session : Session) (located : AbsolutePath) :
    Except FileTree.ResolveError AbsolutePath :=
  let ready := prepared start settings session
  ready.world.tree.resolve start.machine.inner.limits ready.world.directory located.text

section FirstRun

variable (hnew : session.world.journal = none)
variable (hsets : SetsJournal start session.world settings threshold file)

include hnew hsets

theorem withJournal_journal :
    (withJournal start settings session).world.journal = some ⟨threshold, file⟩ := by
  rw [withJournal_of_none hnew]
  exact hsets.setUp_eq.1

theorem setUpJournal_eq_none : (setUpJournal start settings session).2 = none := by
  simp only [setUpJournal, hnew, hsets.setUp_eq.2]

theorem setupRemarks_eq : setupRemarks start settings session = [.event Trace.configured] := by
  simp only [setupRemarks, hnew, hsets.setUp_eq.2]

/-- A run that reads its source makes the remarks of the text, and those of the report. -/
theorem Analyzes.exists_remarks {paragraph text : String} {format : Option Format}
    {located : AbsolutePath}
    (hanalyzes : Analyzes start settings arguments session paragraph format located text) :
    ∃ source, sourceOf start settings session located = .ok source ∧
      remarks start settings arguments session =
        (Trace.ofText text paragraph source).map .event ++
          reportRemarks format (analyze text paragraph (some located.text)) := by
  obtain ⟨⟨⟨path, hasks, hresolve⟩, hsetup⟩, htext⟩ := hanalyzes
  have hboth : ¬ ((some paragraph).getD "" = "" ∨ (some path).getD "" = "") :=
    not_or.mpr ⟨hasks.paragraph_ne, hasks.path_ne⟩
  have hpath : remarks start settings arguments session =
      pathRemarks start settings paragraph path format session := by
    rw [remarks, hasks.parse_eq]
    simp only [if_neg hboth]
    rfl
  cases hagain : (prepared start settings session).world.tree.resolve start.machine.inner.limits
      (prepared start settings session).world.directory located.text with
  | error cause =>
      simp only [sourceText, hagain] at htext
      cases htext
  | ok source =>
      refine ⟨source, hagain, ?_⟩
      simp only [hpath, pathRemarks, setupRemarks_eq hnew hsets, hsetup, hresolve,
        analysisRemarks, readingRemarks, hagain, htext, Trace.ofText_eq, List.map_cons,
        List.cons_append, List.nil_append]

end FirstRun

/-! ## The source of a first run -/

/-- The source can be read: its path is resolved to where something is, and what is found
there once this is resolved again has a text. -/
structure Reads (machine : Machine) (disk : Disk) (encoding path : String)
    (located source : AbsolutePath) (place : Location) (text : String) : Prop where
  resolve_eq : disk.tree.resolve machine.limits disk.directory path = .ok located
  exists_located : ∃ there entry,
    disk.tree.walk .look .root located.text = .ok (.found there entry)
  resolve_again : disk.tree.resolve machine.inner.limits disk.directory located.text = .ok source
  exists_source : ∃ entry, disk.tree.walk .look .root source.text = .ok (.found place entry)
  readAt_eq : Source.readAt machine.codecs disk.tree encoding source = .ok text

/-- A real location at which a text can be read is such a source. -/
theorem reads_of_isReal {machine : Machine} {disk : Disk} {encoding path text : String}
    {location : Location} (hreal : disk.tree.IsReal location)
    (hresolve : disk.tree.resolve machine.limits disk.directory path = .ok { location })
    (hread : Source.readAt machine.codecs disk.tree encoding { location } = .ok text) :
    Reads machine disk encoding path { location } { location } location text := by
  have hwalk : ∃ entry,
      disk.tree.walk .look .root location.text = .ok (.found location entry) := by
    have hcontent := hread
    simp only [Source.readAt] at hcontent
    split at hcontent
    · cases hcontent
    split at hcontent
    · cases hcontent
    · rename_i content hfound
      exact hreal.walk_of_contentAt hfound
  exact ⟨hresolve, ⟨location, hwalk⟩, hreal.resolve_text _ disk.directory, hwalk, hread⟩

/-- Reading something else than the log file gives the same as before, and reading the log
file gives whatever it holds now. -/
theorem readAt_of_keeps {before after : FileTree} {places : List Location} {log : Option Location}
    (hkeeps : before.Keeps places log after) {codecs : Codecs} {encoding text : String}
    {source : AbsolutePath} {place : Location} {entry : Entry}
    (hthere : before.walk .look .root source.text = .ok (.found place entry))
    (hplace : place ∉ places) (hread : Source.readAt codecs before encoding source = .ok text) :
    ∃ content, Source.readAt codecs after encoding source =
        Source.decodeIn codecs encoding content ∧
      (log ≠ some place → Source.decodeIn codecs encoding content = .ok text) := by
  unfold Source.readAt at hread ⊢
  split at hread
  · cases hread
  rw [if_neg ‹_›]
  cases hcontent : before.contentAt .root source.text with
  | error fault =>
      simp only [hcontent] at hread
      cases hread
  | ok content =>
      obtain ⟨other, hother, hsame⟩ := hkeeps.contentAt hthere hplace hcontent
      simp only [hcontent] at hread
      simp only [hother]
      refine ⟨other, rfl, fun hlog => ?_⟩
      rw [hsame hlog, hread]

/-- The lines that are logged before the source is opened. -/
def linesBeforeReading (start : Start) (threshold : Nat) (source : AbsolutePath) : List String :=
  linesFrom threshold start.stamp [Trace.configured, Trace.reading source]

/-- The source is found although the journal is set up and written to before, and it is
read unless it is the log file and cannot be decoded any more. -/
theorem Reads.exists_sourceText {path text : String} {located source : AbsolutePath}
    {place : Location} (hnew : session.world.journal = none)
    (hsets : SetsJournal start session.world settings threshold file)
    (hreads : Reads start.machine session.world.toDisk settings.sourceEncoding path located source
      place text) {places : List Location} {log : Option Location}
    (hlogs : (withJournal start settings session).LogsWithin
      (linesBeforeReading start threshold source) places log) (hplace : place ∉ places) :
    (prepared start settings session).world.tree.resolve start.machine.limits
        (prepared start settings session).world.directory path = .ok located ∧
      sourceOf start settings session located = .ok source ∧
      ∃ content, sourceText start settings located (prepared start settings session) =
          Source.decodeIn start.machine.codecs settings.sourceEncoding content ∧
        (log ≠ some place → Source.decodeIn start.machine.codecs settings.sourceEncoding content =
          .ok text) := by
  obtain ⟨hresolve, ⟨there, standing, hlocated⟩, hagain, ⟨entry, hsource⟩, hread⟩ := hreads
  obtain ⟨-, hgrows⟩ := withJournal_keeps start settings session
  have hjournal := withJournal_journal hnew hsets
  have hsetup := says_prepared start settings session
  rw [setupRemarks_eq hnew hsets] at hsetup
  have hreading := hsetup.append (Session.says_record (Trace.reading source))
  have hfirst : (withJournal start settings session).LogsWithin
      (Remark.lines start.stamp (withJournal start settings session).world.journal
        [.event Trace.configured]) places log := by
    rw [hjournal, show [Remark.event Trace.configured] = [Trace.configured].map .event from rfl,
      Remark.lines_events]
    rw [linesBeforeReading, ← List.singleton_append, linesFrom_append] at hlogs
    exact hlogs.of_append
  have hboth : (withJournal start settings session).LogsWithin
      (Remark.lines start.stamp (withJournal start settings session).world.journal
        ([.event Trace.configured] ++ [.event (Trace.reading source)])) places log := by
    rw [hjournal, show [Remark.event Trace.configured] ++ [.event (Trace.reading source)] =
      [Trace.configured, Trace.reading source].map .event from rfl, Remark.lines_events]
    exact hlogs
  obtain ⟨hdirectory, hkeeps⟩ := hsetup.records.keeps hfirst
  obtain ⟨-, hrecorded⟩ := hreading.records.keeps hboth
  have hprepared := hgrows.tree.keeps hkeeps
  have hsame := hdirectory.trans hgrows.directory_eq
  have hresolve := hprepared.resolve_eq hresolve hlocated
  have hagain := hprepared.resolve_eq hagain hsource
  rw [← hsame] at hresolve hagain
  obtain ⟨content, hcontent, htext⟩ :=
    readAt_of_keeps (hgrows.tree.keeps hrecorded) hsource hplace hread
  refine ⟨hresolve, hagain, content, ?_, htext⟩
  simp only [sourceText, hagain]
  exact hcontent

/-- A source that is no file of the log is read as it was before the run. -/
theorem Reads.analyzes {paragraph path text : String} {format : Option Format}
    {located source : AbsolutePath} {place : Location} (hnew : session.world.journal = none)
    (hsets : SetsJournal start session.world settings threshold file)
    (hasks : Asks settings arguments paragraph path format)
    (hreads : Reads start.machine session.world.toDisk settings.sourceEncoding path located source
      place text)
    (hspares : (withJournal start settings session).Spares
      (linesBeforeReading start threshold source) place) :
    sourceOf start settings session located = .ok source ∧
      Analyzes start settings arguments session paragraph format located text := by
  obtain ⟨places, log, hlogs, hplace, hlog⟩ := hspares
  obtain ⟨hresolve, hsource, content, htext, hsame⟩ :=
    hreads.exists_sourceText hnew hsets hlogs hplace
  exact ⟨hsource, ⟨⟨path, hasks, hresolve⟩, setUpJournal_eq_none hnew hsets⟩,
    htext.trans (hsame hlog)⟩

theorem report_ending_and_out_congr (format : Option Format) (analysis : Analysis)
    {first second : Session} (hout : first.out = second.out) :
    (report format analysis first).ending = (report format analysis second).ending ∧
      (report format analysis first).session.out =
        (report format analysis second).session.out := by
  cases format with
  | none => exact ⟨rfl, hout⟩
  | some format => exact ⟨rfl, by rw [report_out, report_out, hout]⟩

/-- A paragraph is called twice. -/
def loggedProgram : String :=
  "100-A.\n PERFORM 200-B\n PERFORM 200-B\n200-B.\n EXEC SQL"

def loggedSource : SourceFile := .only (Utf8.encode loggedProgram)

/-- All events go to the terminal and to a new file. -/
def loudSettings : Settings where
  logLevel := "debug"
  logFile := some "x"

def loudLog : AbsolutePath where
  location := Location.root.child { text := "x" }

def loggedDisk : Disk where
  tree := loggedSource.tree

/-- The disk with the log file. -/
def loudDisk : Disk :=
  loggedDisk.fill loudLog.location (.file [])

theorem openLog_loud : Journal.openLog {} loggedDisk "x" = (loudDisk, .ok loudLog) := by
  have hmade : Journal.makeLogDirectory {} loggedDisk "x" = (loggedDisk, none) := by cbv
  have habsolute : Path.absolute? loggedDisk.directory.location "x" = some loudLog := by
    decide +kernel
  have hwalk : loggedDisk.tree.walk .openFile .root loudLog.text =
      .ok (.free loudLog.location) := by
    cbv
  rw [Journal.openLog, hmade]
  dsimp only
  rw [if_neg (fun hlost => hlost.2 rfl), habsolute]
  dsimp only
  rw [Disk.openAppend, hwalk]
  rfl

theorem find?_loudDisk (location : Location) :
    loudDisk.tree.find? location =
      if location = loudLog.location then some (.file []) else loggedDisk.tree.find? location := by
  have hfree : loggedDisk.tree.find? loudLog.location = none := rfl
  rw [loudDisk, (Disk.fill_of_free hfree _).1, FileTree.find?_put rfl (by simp [hfree])]

theorem isRegular_loud : LogFile.IsRegular loudLog loudDisk.tree where
  ne_root := by decide
  parent_eq := rfl
  isWalkable := by decide +kernel
  file_or_none number hnumber := by
    rw [find?_loudDisk]
    split
    · exact Or.inr ⟨[], rfl⟩
    · left
      have hfree : ∀ number ≤ LogFile.backups,
          loggedDisk.tree.find? (LogFile.slot loudLog.location number) = none := by decide
      exact hfree number hnumber

theorem setsJournal_loud :
    SetsJournal { stamp := "TIME" } { toDisk := loggedDisk } loudSettings 10 (some loudLog) where
  threshold_eq := by decide +kernel
  file_eq := Or.inr ⟨_, rfl, "x", rfl, by decide, congrArg Prod.snd openLog_loud⟩

theorem reads_loggedDisk :
    Reads {} loggedDisk "utf-8-sig" "source" loggedSource.resolved loggedSource.resolved
      (Location.root.child { text := "source" }) loggedProgram := by
  have hfile : loggedDisk.tree.find? (Location.root.child { text := "source" }) =
      some (.file (Utf8.encode loggedProgram)) := rfl
  have hknown : ("utf-8-sig", Encoding.utf8Signed) ∈ sourceEncodings := by decide
  have hdecode : Encoding.decode .utf8Signed loggedSource.content = loggedProgram := by
    decide +kernel
  have hread := loggedSource.read_eq hknown
  rw [SourceFile.read, Source.read, loggedSource.resolve_eq, hdecode] at hread
  exact reads_of_isReal (FileTree.isReal_of_find? hfile (by simp)) loggedSource.resolve_eq hread

end Command

end SqlReach
