import SqlReach.Proofs.Command.Course
import SqlReach.Proofs.Journal.Backups
import SqlReach.Proofs.Journal.SetUp

/-!
# What a run says

Besides its report, a run says things on the terminal and in the log file.  Each of them
is a remark: an event, which the journal may or may not accept, or a text for the
terminal alone.  This module lists the remarks of a run in the order in which they are
made, and proves that a run makes exactly these.  So the line of every event that the
journal accepts goes once to the terminal and once to the log file.  If the log file has
room for the lines they are written at its end; and if there is nothing but files in its
places, they are added to its history, which may lose something of its beginning.
-/

namespace SqlReach

inductive Remark where
  | event (event : Event)
  /-- A text for the terminal, which does not go through the journal. -/
  | text (text : String)

namespace Remark

/-- What the terminal shows of a remark. -/
def shown (stamp : String) (journal : Option Journal) : Remark → String
  | event recorded => if journal.any (·.accepts recorded) then recorded.line stamp else ""
  | text line => line

/-- The line that goes to the log file. -/
def line? (stamp : String) (journal : Option Journal) : Remark → Option String
  | event recorded =>
      if journal.any (·.accepts recorded) then some (recorded.line stamp) else none
  | text _ => none

def shownAll (stamp : String) (journal : Option Journal) (remarks : List Remark) : String :=
  String.join (remarks.map (shown stamp journal))

def lines (stamp : String) (journal : Option Journal) (remarks : List Remark) : List String :=
  remarks.filterMap (line? stamp journal)

theorem shownAll_cons (stamp : String) (journal : Option Journal) (remark : Remark)
    (remarks : List Remark) :
    shownAll stamp journal (remark :: remarks) =
      remark.shown stamp journal ++ shownAll stamp journal remarks := by
  rw [shownAll, List.map_cons, String.join_cons, shownAll]

end Remark

namespace Session

/-! ## Making remarks -/

/-- Makes a remark. -/
def say (start : Command.Start) (session : Session) : Remark → Session
  | .event event => session.record start event
  | .text text => { session with err := session.err ++ text }

/-- The one session becomes the other by making the remarks in order, whatever is printed
meanwhile. -/
def Says (start : Command.Start) (remarks : List Remark) (before after : Session) : Prop :=
  after = { remarks.foldl (say start) before with out := after.out }

variable {start : Command.Start} {before between after session : Session}

/-- What is said does not depend on what is printed. -/
theorem say_withOut (start : Command.Start) (session : Session) (out : String)
    (remark : Remark) :
    say start { session with out } remark = { say start session remark with out } := by
  cases remark with
  | text text => rfl
  | event event =>
      simp only [say, record]
      cases session.world.journal with
      | none => rfl
      | some journal =>
          dsimp only
          split
          · simp only [write]
            cases journal.file with
            | none => rfl
            | some base =>
                simp only [log]
                cases hlog : LogFile.log base (event.line start.stamp) session.world.toDisk with
                | mk disk failure => cases failure <;> rfl
          · rfl

theorem foldl_say_withOut (start : Command.Start) (session : Session) (out : String)
    (remarks : List Remark) :
    remarks.foldl (say start) { session with out } =
      { remarks.foldl (say start) session with out } := by
  induction remarks generalizing session with
  | nil => rfl
  | cons remark remarks ih => rw [List.foldl_cons, say_withOut, ih, List.foldl_cons]

theorem says_nil (hworld : after.world = before.world) (herr : after.err = before.err) :
    Says start [] before after := by
  rw [Says, List.foldl_nil]
  dsimp only
  rw [← hworld, ← herr]

theorem Says.append {first second : List Remark} (hfirst : Says start first before between)
    (hsecond : Says start second between after) : Says start (first ++ second) before after := by
  rw [Says] at hfirst hsecond ⊢
  rw [hsecond, hfirst, foldl_say_withOut, List.foldl_append]

theorem says_text (text : String) :
    Says start [.text text] session { session with err := session.err ++ text } :=
  rfl

theorem says_complain (text : String) :
    Says start [.text (text ++ "\n")] session (session.complain text) := by
  rw [complain, String.append_assoc]
  exact says_text (text ++ "\n")

theorem says_record (event : Event) :
    Says start [.event event] session (session.record start event) :=
  rfl

theorem says_foldl_record (events : List Event) :
    Says start (events.map .event) session (events.foldl (record start) session) := by
  induction events generalizing session with
  | nil => exact says_nil rfl rfl
  | cons event events ih => exact (says_record event).append ih

/-! ## Where remarks go -/

theorem record_of_rejected {event : Event}
    (hrejected : session.world.journal.any (·.accepts event) = false) :
    session.record start event = session := by
  unfold record
  split
  · rfl
  · rename_i journal hjournal
    rw [hjournal, Option.any_some] at hrejected
    rw [if_neg (ne_true_of_eq_false hrejected)]

/-- Without a journal nothing is recorded. -/
theorem foldl_record_of_none (hnew : session.world.journal = none) (events : List Event) :
    events.foldl (record start) session = session := by
  induction events with
  | nil => rfl
  | cons event events ih =>
      have hrejected : session.world.journal.any (·.accepts event) = false := by
        rw [hnew, Option.any_none]
      rw [List.foldl_cons, record_of_rejected hrejected, ih]

theorem say_journal (start : Command.Start) (session : Session) (remark : Remark) :
    (say start session remark).world.journal = session.world.journal := by
  cases remark with
  | text text => rfl
  | event event => exact record_journal start session event

theorem Says.journal_eq {remarks : List Remark} (hmakes : Says start remarks before after) :
    after.world.journal = before.world.journal := by
  rw [hmakes]
  dsimp only
  clear hmakes
  induction remarks generalizing before with
  | nil => rfl
  | cons remark remarks ih => rw [List.foldl_cons, ih, say_journal]

/-- Without a log file remarks are made on the terminal alone. -/
theorem foldl_say_of_no_file
    (hfile : ∀ journal ∈ session.world.journal, journal.file = none) (remarks : List Remark) :
    remarks.foldl (say start) session =
      { session with
        err := session.err ++ Remark.shownAll start.stamp session.world.journal remarks } := by
  induction remarks generalizing session with
  | nil => simp [Remark.shownAll]
  | cons remark remarks ih =>
      have hsay : say start session remark =
          { session with
            err := session.err ++ remark.shown start.stamp session.world.journal } := by
        cases remark with
        | text text => rfl
        | event event =>
            simp only [say, record, Remark.shown]
            cases hjournal : session.world.journal with
            | none => simp
            | some journal =>
                simp only [write, hfile journal hjournal, Option.any_some]
                split
                · rfl
                · simp
      rw [List.foldl_cons, hsay, ih, Remark.shownAll_cons, String.append_assoc]
      exact hfile

/-- If nothing keeps the lines of the journal from being logged, they go to the terminal
and to the log file. -/
theorem foldl_say_of_logs {journal : Journal} {base : AbsolutePath}
    (hjournal : session.world.journal = some journal) (hfile : journal.file = some base)
    {remarks : List Remark} {disk : Disk}
    (hlogs : LogFile.Logs base (Remark.lines start.stamp (some journal) remarks)
      session.world.toDisk disk) :
    remarks.foldl (say start) session =
      { session.withDisk disk with
        err := session.err ++ Remark.shownAll start.stamp (some journal) remarks } := by
  induction remarks generalizing session with
  | nil =>
      obtain rfl : disk = session.world.toDisk := hlogs
      simp [Remark.shownAll, withDisk]
  | cons remark remarks ih =>
      rw [List.foldl_cons, Remark.shownAll_cons, ← String.append_assoc]
      cases remark with
      | text text => exact ih hjournal hlogs
      | event event =>
          cases haccepts : journal.accepts event with
          | false =>
              have hsay : say start session (.event event) = session := by
                apply record_of_rejected
                rw [hjournal, Option.any_some, haccepts]
              have hshown : Remark.shown start.stamp (some journal) (.event event) = "" := by
                simp [Remark.shown, haccepts]
              have hlines : Remark.lines start.stamp (some journal) (.event event :: remarks) =
                  Remark.lines start.stamp (some journal) remarks := by
                simp [Remark.lines, Remark.line?, haccepts]
              rw [hlines] at hlogs
              rw [hsay, hshown, String.append_empty, ih hjournal hlogs]
          | true =>
              have hshown : Remark.shown start.stamp (some journal) (.event event) =
                  event.line start.stamp := by
                simp [Remark.shown, haccepts]
              have hlines : Remark.lines start.stamp (some journal) (.event event :: remarks) =
                  event.line start.stamp :: Remark.lines start.stamp (some journal) remarks := by
                simp [Remark.lines, Remark.line?, haccepts]
              rw [hlines] at hlogs
              obtain ⟨between, hlog, hlogs⟩ := hlogs
              have hsay : say start session (.event event) =
                  { session.withDisk between with
                    err := session.err ++ event.line start.stamp } := by
                simp only [say, record, hjournal, haccepts, if_true, write, hfile, log, hlog]
                rfl
              rw [hsay, hshown, ih (by exact hjournal) hlogs]
              rfl

/-- All that can be said about where remarks go.  Without a log file they are made on the
terminal alone.  If the log file has room for the lines of the journal, these are written
at its end; and if there is nothing but files in its places, they are added to its history,
which may lose something of its beginning.  In both cases the terminal shows the same lines,
and nothing else but the texts that are meant for it. -/
structure Records (start : Command.Start) (remarks : List Remark) (before after : Session) :
    Prop where
  makes : Says start remarks before after
  of_no_file : (∀ journal ∈ before.world.journal, journal.file = none) →
    after.world = before.world ∧
      after.err = before.err ++ Remark.shownAll start.stamp before.world.journal remarks
  of_room : ∀ journal base location, before.world.journal = some journal →
    journal.file = some base → before.world.tree.OpensAt base.text location →
    LogFile.HasRoom before.world.tree location (Remark.lines start.stamp (some journal) remarks) →
      after.err = before.err ++ Remark.shownAll start.stamp (some journal) remarks ∧
      after.world.directory = before.world.directory ∧
      before.world.tree.Keeps [] (some location) after.world.tree ∧
      after.world.tree.OpensAt base.text location ∧
      (after.world.tree.find? location = some .sink ∨
        after.world.tree.find? location =
          some (.file (before.world.tree.bytesAt location ++
            (Remark.lines start.stamp (some journal) remarks).flatMap Utf8.encode)))
  of_regular : ∀ journal base, before.world.journal = some journal →
    journal.file = some base → LogFile.IsRegular base before.world.tree →
      after.err = before.err ++ Remark.shownAll start.stamp (some journal) remarks ∧
      LogFile.IsRegular base after.world.tree ∧
      ∃ lost, lost ++ LogFile.history base after.world.tree =
        LogFile.history base before.world.tree ++
          (Remark.lines start.stamp (some journal) remarks).flatMap Utf8.encode

theorem Says.records {remarks : List Remark} (hmakes : Says start remarks before after) :
    Records start remarks before after where
  makes := hmakes
  of_no_file hfile := by
    rw [hmakes, foldl_say_of_no_file hfile]
    exact ⟨rfl, rfl⟩
  of_room journal base location hjournal hfile hopens hroom := by
    obtain ⟨disk, hlogs, hlogged⟩ := LogFile.exists_logs_of_room hopens hroom
    rw [hmakes, foldl_say_of_logs hjournal hfile hlogs]
    exact ⟨rfl, hlogged⟩
  of_regular journal base hjournal hfile hregular := by
    obtain ⟨disk, hlogs, hlogged⟩ := hregular.exists_logs
      (Remark.lines start.stamp (some journal) remarks)
    rw [hmakes, foldl_say_of_logs hjournal hfile hlogs]
    exact ⟨rfl, hlogged⟩

/-- There is room for lines: the log file is at a location and has room for them, or there
is none. -/
inductive RoomFor (session : Session) (lines : List String) : Option Location → Prop
  | terminal (hfile : ∀ journal ∈ session.world.journal, journal.file = none) :
      RoomFor session lines none
  | file {journal : Journal} {base : AbsolutePath} {location : Location}
      (hjournal : session.world.journal = some journal) (hfile : journal.file = some base)
      (hopens : session.world.tree.OpensAt base.text location)
      (hroom : LogFile.HasRoom session.world.tree location lines) :
      RoomFor session lines (some location)

/-- As long as there is room, nothing else happens than that the lines are written. -/
theorem Records.of_roomFor {remarks : List Remark} (hrecords : Records start remarks before after)
    {log : Option Location}
    (hroom : before.RoomFor (Remark.lines start.stamp before.world.journal remarks) log) :
    after.err = before.err ++ Remark.shownAll start.stamp before.world.journal remarks ∧
      after.world.directory = before.world.directory ∧
      before.world.tree.Keeps [] log after.world.tree ∧
      ∀ location, log = some location →
        after.world.tree.find? location = some .sink ∨
          after.world.tree.find? location =
            some (.file (before.world.tree.bytesAt location ++
              (Remark.lines start.stamp before.world.journal remarks).flatMap Utf8.encode)) := by
  cases hroom with
  | terminal hfile =>
      obtain ⟨hworld, herr⟩ := hrecords.of_no_file hfile
      rw [hworld]
      exact ⟨herr, rfl, FileTree.keeps_refl _ _, nofun⟩
  | file hjournal hfile hopens hroom =>
      rw [hjournal] at hroom ⊢
      obtain ⟨herr, hdirectory, hkeeps, -, hheld⟩ :=
        hrecords.of_room _ _ _ hjournal hfile hopens hroom
      refine ⟨herr, hdirectory, hkeeps, ?_⟩
      rintro location ⟨⟩
      exact hheld

theorem say_of_isPlain {base : AbsolutePath}
    (hfile : session.world.journal.bind Journal.file = some base)
    (hplain : LogFile.IsPlain base session.world.tree) (remark : Remark) :
    Disk.SameApart (LogFile.places base) session.world.toDisk
        (say start session remark).world.toDisk ∧
      LogFile.IsPlain base (say start session remark).world.tree := by
  cases remark with
  | text text => exact ⟨Disk.sameApart_refl _ _, hplain⟩
  | event event =>
      obtain ⟨journal, hjournal, hbase⟩ := Option.bind_eq_some_iff.mp hfile
      cases haccepts : journal.accepts event with
      | false =>
          have hsay : say start session (.event event) = session := by
            apply record_of_rejected
            rw [hjournal, Option.any_some, haccepts]
          rw [hsay]
          exact ⟨Disk.sameApart_refl _ _, hplain⟩
      | true =>
          have hlog := hplain.log (event.line start.stamp)
          simp only [say, record, hjournal, haccepts, if_true, write, hbase, log]
          cases hdisk : LogFile.log base (event.line start.stamp) session.world.toDisk with
          | mk disk failure =>
              rw [hdisk] at hlog
              cases failure <;> exact hlog

/-- If the log file is named without links, remarks change nothing but the log file and its
backups. -/
theorem Says.sameApart {base : AbsolutePath} {remarks : List Remark}
    (hmakes : Says start remarks before after)
    (hfile : before.world.journal.bind Journal.file = some base)
    (hplain : LogFile.IsPlain base before.world.tree) :
    Disk.SameApart (LogFile.places base) before.world.toDisk after.world.toDisk := by
  rw [hmakes]
  dsimp only
  clear hmakes
  induction remarks generalizing before with
  | nil => exact Disk.sameApart_refl _ _
  | cons remark remarks ih =>
      obtain ⟨hsame, hstill⟩ := say_of_isPlain hfile hplain remark
      rw [List.foldl_cons]
      refine hsame.trans (ih ?_ hstill)
      rw [say_journal, hfile]

/-- What lines can change on the disk when they are logged: nothing but the content of the
log file if there is room in it, and else the places of the log file, if there is nothing
but files in them. -/
inductive LogsWithin (session : Session) (lines : List String) :
    List Location → Option Location → Prop
  | room {log : Option Location} (hroom : session.RoomFor lines log) :
      LogsWithin session lines [] log
  | regular {base : AbsolutePath} (hfile : session.world.journal.bind Journal.file = some base)
      (hregular : LogFile.IsRegular base session.world.tree) :
      LogsWithin session lines (LogFile.places base) none

theorem Records.keeps {remarks : List Remark} (hrecords : Records start remarks before after)
    {places : List Location} {log : Option Location}
    (hlogs : before.LogsWithin (Remark.lines start.stamp before.world.journal remarks) places log) :
    after.world.directory = before.world.directory ∧
      before.world.tree.Keeps places log after.world.tree := by
  cases hlogs with
  | room hroom =>
      obtain ⟨-, hdirectory, hkeeps, -⟩ := hrecords.of_roomFor hroom
      exact ⟨hdirectory, hkeeps⟩
  | regular hfile hregular =>
      obtain ⟨journal, hjournal, hbase⟩ := Option.bind_eq_some_iff.mp hfile
      obtain ⟨-, hafter, -⟩ := hrecords.of_regular journal _ hjournal hbase hregular
      have hsame := hrecords.makes.sameApart hfile hregular.isPlain
      exact ⟨(hregular.leadsAlike hafter hsame).directory_eq, hregular.keeps hafter hsame⟩

end Session

namespace Command

variable {start : Start} {settings : Settings} {session : Session}

/-! ## The remarks of the stages -/

/-- The session with the journal that the settings ask for, unless there is one. -/
def withJournal (start : Start) (settings : Settings) (session : Session) : Session :=
  match session.world.journal with
  | some _ => session
  | none =>
      let setup := Journal.setUp start.machine.limits session.world.toDisk settings
      { session with
        world := { session.world with toDisk := setup.disk, journal := setup.journal } }

theorem withJournal_of_some {journal : Journal} (hjournal : session.world.journal = some journal) :
    withJournal start settings session = session := by
  rw [withJournal, hjournal]

theorem withJournal_of_none (hnew : session.world.journal = none) :
    withJournal start settings session =
      { session with
        world := { session.world with
          toDisk := (Journal.setUp start.machine.limits session.world.toDisk settings).disk
          journal :=
            (Journal.setUp start.machine.limits session.world.toDisk settings).journal } } := by
  rw [withJournal, hnew]

/-- Setting up the journal says nothing and loses nothing. -/
theorem withJournal_keeps (start : Start) (settings : Settings) (session : Session) :
    (withJournal start settings session).err = session.err ∧
      session.world.toDisk.Grows (withJournal start settings session).world.toDisk := by
  cases hjournal : session.world.journal with
  | some journal =>
      rw [withJournal_of_some hjournal]
      exact ⟨rfl, Disk.grows_refl _⟩
  | none =>
      rw [withJournal_of_none hjournal]
      exact ⟨rfl, (Journal.grows_setUp start.machine.limits session.world.toDisk settings).1⟩

/-- The log file of a journal that has just been set up is open. -/
theorem exists_opensAt_withJournal (start : Start) (settings : Settings) (session : Session)
    (hnew : session.world.journal = none) :
    ∀ journal ∈ (withJournal start settings session).world.journal, ∀ base ∈ journal.file,
      ∃ location, (withJournal start settings session).world.tree.OpensAt base.text location := by
  rw [withJournal_of_none hnew]
  exact (Journal.grows_setUp start.machine.limits session.world.toDisk settings).2

def setupRemarks (start : Start) (settings : Settings) (session : Session) : List Remark :=
  match session.world.journal with
  | some _ => []
  | none =>
      match (Journal.setUp start.machine.limits session.world.toDisk settings).failure with
      | some _ => []
      | none => [.event Trace.configured]

theorem says_prepared (start : Start) (settings : Settings) (session : Session) :
    Session.Says start (setupRemarks start settings session) (withJournal start settings session)
      (prepared start settings session) := by
  unfold setupRemarks withJournal prepared setUpJournal
  cases session.world.journal with
  | some journal => exact Session.says_nil rfl rfl
  | none =>
      dsimp only
      cases (Journal.setUp start.machine.limits session.world.toDisk settings).failure with
      | some cause => exact Session.says_nil rfl rfl
      | none => exact Session.says_record Trace.configured

def readingRemarks (start : Start) (path : AbsolutePath) (session : Session) : List Remark :=
  match session.world.tree.resolve start.machine.inner.limits session.world.directory path.text with
  | .error _ => []
  | .ok source => [.event (Trace.reading source)]

theorem says_atReading (start : Start) (path : AbsolutePath) (session : Session) :
    Session.Says start (readingRemarks start path session) session
      (atReading start path session) := by
  unfold readingRemarks atReading
  cases session.world.tree.resolve start.machine.inner.limits session.world.directory
      path.text with
  | error cause => exact Session.says_nil rfl rfl
  | ok source => exact Session.says_record (Trace.reading source)

def failureRemarks (start : Start) (path : AbsolutePath) : Source.ReadError → List Remark
  | .unreadable unread fault =>
      [.event (Trace.unreadable start.origin unread),
        .text ("Error reading file: " ++ (Source.ReadError.unreadable unread fault).message ++
          "\n")]
  | cause =>
      [.event (Trace.failed start.origin path cause.message (start.machine.traceback cause))]

theorem says_fail (start : Start) (path : AbsolutePath) (cause : Source.ReadError)
    (session : Session) :
    Session.Says start (failureRemarks start path cause) session
      (fail start path cause session).session := by
  cases cause with
  | unreadable unread fault =>
      exact (Session.says_record (Trace.unreadable start.origin unread)).append
        (Session.says_complain _)
  | unresolved cause => exact Session.says_record _
  | unknownEncoding name => exact Session.says_record _
  | nullInEncoding => exact Session.says_record _
  | undecodable reason => exact Session.says_record _

def reportRemarks (format : Option Format) (analysis : Analysis) : List Remark :=
  if format = some .text ∧ analysis.usesSql = true then
    [.text "ERROR: EXEC SQL found in the call tree.\n"]
  else []

theorem says_report (start : Start) (format : Option Format) (analysis : Analysis)
    (session : Session) :
    Session.Says start (reportRemarks format analysis) session
      (report format analysis session).session := by
  cases format with
  | none => exact Session.says_nil rfl rfl
  | some format =>
      by_cases htext : format = .text
      · cases hsql : analysis.usesSql with
        | false =>
            simp only [reportRemarks, report, conclude, htext, hsql, if_true, and_false,
              Bool.false_eq_true, if_false]
            exact Session.says_nil rfl rfl
        | true =>
            simp only [reportRemarks, report, conclude, htext, hsql, and_self, if_true]
            have hprint : Session.Says start [] session
                (session.print (render .text analysis)) := Session.says_nil rfl rfl
            exact hprint.append
              (Session.says_complain "ERROR: EXEC SQL found in the call tree.")
      · simp only [reportRemarks, report, htext, Option.some.injEq, false_and, if_false]
        exact Session.says_nil rfl rfl

/-- The remarks on the way from a resolved path to the report. -/
def analysisRemarks (start : Start) (settings : Settings) (paragraph : String)
    (format : Option Format) (path : AbsolutePath) (session : Session) : List Remark :=
  readingRemarks start path session ++
    match sourceText start settings path session with
    | .error cause => failureRemarks start path cause
    | .ok text =>
        (Trace.ofSurvey (Survey.ofText text paragraph)).map .event ++
          reportRemarks format (analyze text paragraph (some path.text))

theorem says_analyzeAt (start : Start) (settings : Settings) (paragraph : String)
    (format : Option Format) (path : AbsolutePath) (session : Session) :
    Session.Says start (analysisRemarks start settings paragraph format path session)
      session (analyzeAt start settings paragraph format path session).session := by
  unfold analysisRemarks
  cases hread : sourceText start settings path session with
  | error cause =>
      rw [analyzeAt_of_error hread]
      exact (says_atReading start path session).append (says_fail start path cause _)
  | ok text =>
      rw [analyzeAt_of_ok hread]
      have hsurvey := (says_atReading start path session).append
        (Session.says_foldl_record (Trace.ofSurvey (Survey.ofText text paragraph)))
      rw [← List.append_assoc]
      exact hsurvey.append (says_report start format _ _)

/-- The remarks of an analysis, from the journal to the report. -/
def pathRemarks (start : Start) (settings : Settings) (paragraph path : String)
    (format : Option Format) (session : Session) : List Remark :=
  setupRemarks start settings session ++
    match (setUpJournal start settings session).2 with
    | some _ => []
    | none =>
        match (prepared start settings session).world.tree.resolve start.machine.limits
          (prepared start settings session).world.directory path with
        | .error _ => []
        | .ok resolved =>
            analysisRemarks start settings paragraph format resolved
              (prepared start settings session)

theorem says_analyzePath (start : Start) (settings : Settings) (paragraph path : String)
    (format : Option Format) (session : Session) :
    Session.Says start (pathRemarks start settings paragraph path format session)
      (withJournal start settings session)
      (analyzePath start settings paragraph path format session).session := by
  rw [analyzePath_eq]
  apply (says_prepared start settings session).append
  cases (setUpJournal start settings session).2 with
  | some cause => exact Session.says_nil rfl rfl
  | none =>
      dsimp only
      cases (prepared start settings session).world.tree.resolve start.machine.limits
        (prepared start settings session).world.directory path with
      | error cause => exact Session.says_nil rfl rfl
      | ok resolved => exact says_analyzeAt start settings paragraph format resolved _

/-! ## The remarks of a run -/

/-- The remarks of a run in the order in which they are made. -/
def remarks (start : Start) (settings : Settings) (arguments : List String)
    (session : Session) : List Remark :=
  match Arguments.parse settings.outputFormat arguments with
  | .error refusal => [.text (Arguments.refusalText refusal)]
  | .ok .help => []
  | .ok (.analysis paragraph path format) =>
      if paragraph.getD "" = "" ∨ path.getD "" = "" then
        [.text ("Usage: " ++ Arguments.usage ++ "\n")]
      else pathRemarks start settings (paragraph.getD "") (path.getD "") format session

theorem says_of_asks {arguments : List String} {paragraph path : String} {format : Option Format}
    (hasks : Asks settings arguments paragraph path format) (start : Start) (session : Session) :
    Session.Says start (remarks start settings arguments session)
      (withJournal start settings session) (runWith start settings arguments session).session := by
  have hboth : ¬ ((some paragraph).getD "" = "" ∨ (some path).getD "" = "") :=
    not_or.mpr ⟨hasks.paragraph_ne, hasks.path_ne⟩
  rw [runWith_of_asks hasks, remarks, hasks.parse_eq]
  simp only [if_neg hboth]
  exact says_analyzePath start settings paragraph path format session

/-- A run that is not asked for an analysis does not come to the journal. -/
theorem says_of_not_asks {arguments : List String}
    (hnone : ¬ ∃ paragraph path format, Asks settings arguments paragraph path format)
    (start : Start) (session : Session) :
    Session.Says start (remarks start settings arguments session) session
      (runWith start settings arguments session).session := by
  cases hparse : Arguments.parse settings.outputFormat arguments with
  | error refusal =>
      simp only [remarks, runWith, hparse]
      exact Session.says_text (Arguments.refusalText refusal)
  | ok request =>
      cases request with
      | help =>
          simp only [remarks, runWith, hparse]
          exact Session.says_nil rfl rfl
      | analysis paragraph path format =>
          have hmissing : paragraph.getD "" = "" ∨ path.getD "" = "" := by
            by_contra hboth
            obtain ⟨hparagraph, hpath⟩ := not_or.mp hboth
            cases paragraph with
            | none => exact hparagraph rfl
            | some paragraph =>
                cases path with
                | none => exact hpath rfl
                | some path => exact hnone ⟨paragraph, path, format, hparse, hparagraph, hpath⟩
          rw [runWith_of_missing hparse hmissing, remarks, hparse]
          simp only [if_pos hmissing]
          exact Session.says_complain ("Usage: " ++ Arguments.usage)

end Command

end SqlReach
