import SqlReach.Command

/-!
# The course of a run

A run can stop at each of its stages: its arguments are refused or ask for help, a
word is missing, the journal cannot be set up, the path cannot be resolved, the
source cannot be read, or the report is printed.  This module says once under
which conditions each of these happens and what the run leaves behind.  What is
proved elsewhere about exit statuses and printed texts is derived from that.
-/

namespace SqlReach

namespace Session

/-! ## What an event leaves alone -/

@[simp]
theorem log_out (machine : Machine) (base : AbsolutePath) (line : String) (session : Session) :
    (session.log machine base line).out = session.out := by
  unfold log
  split <;> rfl

@[simp]
theorem log_journal (machine : Machine) (base : AbsolutePath) (line : String)
    (session : Session) :
    (session.log machine base line).world.journal = session.world.journal := by
  unfold log
  split <;> rfl

variable (start : Command.Start) (session : Session) (event : Event)

@[simp]
theorem record_out : (session.record start event).out = session.out := by
  unfold record write
  split
  · rfl
  · split
    · dsimp only
      split
      · rfl
      · rw [log_out]
    · rfl

@[simp]
theorem record_journal : (session.record start event).world.journal = session.world.journal := by
  unfold record write
  split
  · rfl
  · split
    · dsimp only
      split
      · rfl
      · rw [log_journal]
    · rfl

@[simp]
theorem foldl_record_out (events : List Event) :
    (events.foldl (record start) session).out = session.out := by
  induction events generalizing session with
  | nil => rfl
  | cons event events ih => rw [List.foldl_cons, ih, record_out]

variable {session}

/-- Without a log file an event does not touch the disk. -/
theorem record_toDisk (hfile : ∀ journal ∈ session.world.journal, journal.file = none) :
    (session.record start event).world.toDisk = session.world.toDisk := by
  unfold record write
  split
  · rfl
  · rename_i journal hjournal
    split
    · simp only [hfile journal hjournal]
    · rfl

/-- Without a log file an event that is accepted is a line on the terminal. -/
theorem record_err_of_accepts {journal : Journal} (hjournal : session.world.journal = some journal)
    (hfile : journal.file = none) {event : Event} (haccepts : journal.accepts event = true) :
    (session.record start event).err = session.err ++ event.line start.stamp := by
  simp only [record, write, hjournal, haccepts, if_true, hfile]

end Session

namespace Command

/-! ## The stages of a run -/

/-- The arguments ask for the analysis of a paragraph in a file, and name both. -/
structure Asks (settings : Settings) (arguments : List String) (paragraph path : String)
    (format : Option Format) : Prop where
  parse_eq : Arguments.parse settings.outputFormat arguments =
    .ok (.analysis (some paragraph) (some path) format)
  paragraph_ne : paragraph ≠ ""
  path_ne : path ≠ ""

/-- The session once the journal is set up. -/
def prepared (start : Start) (settings : Settings) (session : Session) : Session :=
  (setUpJournal start settings session).1

/-- The session in which the source is read.  The path is resolved once more, and
the reading is recorded. -/
def atReading (start : Start) (path : AbsolutePath) (session : Session) : Session :=
  match session.world.tree.resolve start.machine.inner.limits session.world.directory path.text with
  | .error _ => session
  | .ok source => session.record start (Trace.reading source)

/-- The text of the source as the run reads it. -/
def sourceText (start : Start) (settings : Settings) (path : AbsolutePath) (session : Session) :
    Except Source.ReadError String :=
  match session.world.tree.resolve start.machine.inner.limits session.world.directory path.text with
  | .error cause => .error (.unresolved cause)
  | .ok source =>
      Source.readAt start.machine.inner.codecs
        (session.record start (Trace.reading source)).world.tree settings.sourceEncoding source

/-- The session in which the report is printed. -/
def atReport (start : Start) (path : AbsolutePath) (text paragraph : String) (session : Session) :
    Session :=
  (Trace.ofSurvey (Survey.ofText text paragraph)).foldl (Session.record start)
    (atReading start path session)

/-- The run gets as far as a resolved path: it was asked for an analysis, and the
journal is set up. -/
structure Locates (start : Start) (settings : Settings) (arguments : List String)
    (session : Session) (paragraph : String) (format : Option Format) (resolved : AbsolutePath) :
    Prop where
  exists_path : ∃ path, Asks settings arguments paragraph path format ∧
    (prepared start settings session).world.tree.resolve start.machine.limits
      (prepared start settings session).world.directory path = .ok resolved
  setup_eq : (setUpJournal start settings session).2 = none

/-- The run gets as far as an analysis: the file at the resolved path was read. -/
structure Analyzes (start : Start) (settings : Settings) (arguments : List String)
    (session : Session) (paragraph : String) (format : Option Format) (resolved : AbsolutePath)
    (text : String) : Prop where
  locates : Locates start settings arguments session paragraph format resolved
  text_eq : sourceText start settings resolved (prepared start settings session) = .ok text

/-- All that a run can come to. -/
inductive Course (start : Start) (settings : Settings) (arguments : List String)
    (session : Session) : Outcome → Prop
  | refused {refusal : Arguments.Refusal}
      (hparse : Arguments.parse settings.outputFormat arguments = .error refusal) :
      Course start settings arguments session
        ⟨.exit 1, { session with err := session.err ++ Arguments.refusalText refusal }⟩
  | helped {page : String}
      (hparse : Arguments.parse settings.outputFormat arguments = .ok .help) :
      Course start settings arguments session
        ⟨.exit 0, { session with out := session.out ++ page }⟩
  | incomplete {paragraph path : Option String} {format : Option Format}
      (hparse : Arguments.parse settings.outputFormat arguments =
        .ok (.analysis paragraph path format))
      (hmissing : paragraph.getD "" = "" ∨ path.getD "" = "") :
      Course start settings arguments session
        ⟨.exit 1, session.complain ("Usage: " ++ Arguments.usage)⟩
  | unjournaled {paragraph path : String} {format : Option Format} {cause : Journal.SetupError}
      (hasks : Asks settings arguments paragraph path format)
      (hsetup : (setUpJournal start settings session).2 = some cause) :
      Course start settings arguments session
        ⟨.escape (.setup cause), prepared start settings session⟩
  | unresolved {paragraph path : String} {format : Option Format}
      {cause : FileTree.ResolveError} (hasks : Asks settings arguments paragraph path format)
      (hsetup : (setUpJournal start settings session).2 = none)
      (hresolve : (prepared start settings session).world.tree.resolve start.machine.limits
        (prepared start settings session).world.directory path = .error cause) :
      Course start settings arguments session
        ⟨.escape (.unresolved cause), prepared start settings session⟩
  | unread {paragraph : String} {format : Option Format} {resolved : AbsolutePath}
      {cause : Source.ReadError}
      (hlocates : Locates start settings arguments session paragraph format resolved)
      (hread : sourceText start settings resolved (prepared start settings session) =
        .error cause) :
      Course start settings arguments session
        (fail start resolved cause
          (atReading start resolved (prepared start settings session)))
  | analyzed {paragraph : String} {format : Option Format} {resolved : AbsolutePath}
      {text : String}
      (hanalyzes : Analyzes start settings arguments session paragraph format resolved text) :
      Course start settings arguments session
        (report format (analyze text paragraph (some resolved.text))
          (atReport start resolved text paragraph (prepared start settings session)))

variable {start : Start} {settings : Settings} {arguments : List String} {session : Session}

/-! ## Every run takes its course -/

theorem analyzeAt_of_error {path : AbsolutePath} {cause : Source.ReadError}
    (hread : sourceText start settings path session = .error cause) (paragraph : String)
    (format : Option Format) :
    analyzeAt start settings paragraph format path session =
      fail start path cause (atReading start path session) := by
  unfold sourceText at hread
  unfold analyzeAt atReading
  dsimp only
  cases hresolve : session.world.tree.resolve start.machine.inner.limits session.world.directory
      path.text with
  | error known =>
      simp only [hresolve, Except.error.injEq] at hread
      subst hread
      rfl
  | ok source =>
      simp only [hresolve] at hread
      simp only [hread]

theorem analyzeAt_of_ok {path : AbsolutePath} {text : String}
    (hread : sourceText start settings path session = .ok text) (paragraph : String)
    (format : Option Format) :
    analyzeAt start settings paragraph format path session =
      report format (analyze text paragraph (some path.text))
        (atReport start path text paragraph session) := by
  unfold sourceText at hread
  unfold analyzeAt atReport atReading
  dsimp only
  cases hresolve : session.world.tree.resolve start.machine.inner.limits session.world.directory
      path.text with
  | error known =>
      simp only [hresolve] at hread
      cases hread
  | ok source =>
      simp only [hresolve] at hread
      simp only [hread]
      rfl

/-- Arguments that name both words bring a run to its analysis. -/
theorem runWith_of_asks {paragraph path : String} {format : Option Format}
    (hasks : Asks settings arguments paragraph path format) (start : Start) (session : Session) :
    runWith start settings arguments session =
      analyzePath start settings paragraph path format session := by
  have hparagraph : (some paragraph).filter (· ≠ "") = some paragraph := by
    simp [hasks.paragraph_ne]
  have hpath : (some path).filter (· ≠ "") = some path := by
    simp [hasks.path_ne]
  simp only [runWith, hasks.parse_eq, hparagraph, hpath]

theorem filter_eq_none_of_missing {word : Option String} (hmissing : word.getD "" = "") :
    word.filter (· ≠ "") = none := by
  cases word with
  | none => rfl
  | some text =>
      have htext : text = "" := hmissing
      simp [htext]

theorem runWith_of_missing {paragraph path : Option String} {format : Option Format}
    (hparse : Arguments.parse settings.outputFormat arguments =
      .ok (.analysis paragraph path format))
    (hmissing : paragraph.getD "" = "" ∨ path.getD "" = "") :
    runWith start settings arguments session =
      ⟨.exit 1, session.complain ("Usage: " ++ Arguments.usage)⟩ := by
  simp only [runWith, hparse]
  rcases hmissing with hparagraph | hpath
  · rw [filter_eq_none_of_missing hparagraph]
  · rw [filter_eq_none_of_missing hpath]
    split
    · rename_i hfound
      cases hfound
    · rfl

/-- The stages between the arguments and the source, one after the other. -/
theorem analyzePath_eq (paragraph path : String) (format : Option Format) :
    analyzePath start settings paragraph path format session =
      match (setUpJournal start settings session).2 with
      | some cause => ⟨.escape (.setup cause), prepared start settings session⟩
      | none =>
          match (prepared start settings session).world.tree.resolve start.machine.limits
            (prepared start settings session).world.directory path with
          | .error cause => ⟨.escape (.unresolved cause), prepared start settings session⟩
          | .ok resolved =>
              analyzeAt start settings paragraph format resolved
                (prepared start settings session) := by
  unfold analyzePath prepared
  obtain ⟨reached, failure⟩ := setUpJournal start settings session
  cases failure with
  | none => rfl
  | some cause => rfl

theorem runWith_of_unjournaled {paragraph path : String} {format : Option Format}
    {cause : Journal.SetupError} (hasks : Asks settings arguments paragraph path format)
    (hsetup : (setUpJournal start settings session).2 = some cause) :
    runWith start settings arguments session =
      ⟨.escape (.setup cause), prepared start settings session⟩ := by
  rw [runWith_of_asks hasks, analyzePath_eq, hsetup]

theorem runWith_of_unresolved {paragraph path : String} {format : Option Format}
    {cause : FileTree.ResolveError} (hasks : Asks settings arguments paragraph path format)
    (hsetup : (setUpJournal start settings session).2 = none)
    (hresolve : (prepared start settings session).world.tree.resolve start.machine.limits
      (prepared start settings session).world.directory path = .error cause) :
    runWith start settings arguments session =
      ⟨.escape (.unresolved cause), prepared start settings session⟩ := by
  rw [runWith_of_asks hasks, analyzePath_eq, hsetup]
  simp only [hresolve]

theorem runWith_of_locates {paragraph : String} {format : Option Format}
    {resolved : AbsolutePath}
    (hlocates : Locates start settings arguments session paragraph format resolved) :
    runWith start settings arguments session =
      analyzeAt start settings paragraph format resolved (prepared start settings session) := by
  obtain ⟨⟨path, hasks, hresolve⟩, hsetup⟩ := hlocates
  rw [runWith_of_asks hasks, analyzePath_eq, hsetup]
  simp only [hresolve]

theorem runWith_of_analyzes {paragraph : String} {format : Option Format}
    {resolved : AbsolutePath} {text : String}
    (hanalyzes : Analyzes start settings arguments session paragraph format resolved text) :
    runWith start settings arguments session =
      report format (analyze text paragraph (some resolved.text))
        (atReport start resolved text paragraph (prepared start settings session)) := by
  rw [runWith_of_locates hanalyzes.locates, analyzeAt_of_ok hanalyzes.text_eq]

theorem runWith_of_unread {paragraph : String} {format : Option Format}
    {resolved : AbsolutePath} {cause : Source.ReadError}
    (hlocates : Locates start settings arguments session paragraph format resolved)
    (hread : sourceText start settings resolved (prepared start settings session) =
      .error cause) :
    runWith start settings arguments session =
      fail start resolved cause
        (atReading start resolved (prepared start settings session)) := by
  rw [runWith_of_locates hlocates, analyzeAt_of_error hread]

theorem course_of_asks {paragraph path : String} {format : Option Format}
    (hasks : Asks settings arguments paragraph path format) (start : Start) (session : Session) :
    Course start settings arguments session (runWith start settings arguments session) := by
  cases hsetup : (setUpJournal start settings session).2 with
  | some cause =>
      rw [runWith_of_unjournaled hasks hsetup]
      exact .unjournaled hasks hsetup
  | none =>
      cases hresolve : (prepared start settings session).world.tree.resolve start.machine.limits
          (prepared start settings session).world.directory path with
      | error cause =>
          rw [runWith_of_unresolved hasks hsetup hresolve]
          exact .unresolved hasks hsetup hresolve
      | ok resolved =>
          have hlocates : Locates start settings arguments session paragraph format resolved :=
            ⟨⟨path, hasks, hresolve⟩, hsetup⟩
          cases hread : sourceText start settings resolved (prepared start settings session) with
          | error cause =>
              rw [runWith_of_unread hlocates hread]
              exact .unread hlocates hread
          | ok text =>
              have hanalyzes : Analyzes start settings arguments session paragraph format resolved
                  text := ⟨hlocates, hread⟩
              rw [runWith_of_analyzes hanalyzes]
              exact .analyzed hanalyzes

theorem course_runWith (start : Start) (settings : Settings) (arguments : List String)
    (session : Session) :
    Course start settings arguments session (runWith start settings arguments session) := by
  cases hparse : Arguments.parse settings.outputFormat arguments with
  | error refusal =>
      simp only [runWith, hparse]
      exact .refused hparse
  | ok request =>
      cases request with
      | help =>
          simp only [runWith, hparse]
          exact .helped hparse
      | analysis paragraph path format =>
          by_cases hmissing : paragraph.getD "" = "" ∨ path.getD "" = ""
          · rw [runWith_of_missing hparse hmissing]
            exact .incomplete hparse hmissing
          · obtain ⟨hparagraph, hpath⟩ := not_or.mp hmissing
            cases paragraph with
            | none => exact absurd rfl hparagraph
            | some paragraph =>
                cases path with
                | none => exact absurd rfl hpath
                | some path => exact course_of_asks ⟨hparse, hparagraph, hpath⟩ start session

end Command

end SqlReach
