import Mathlib
import SqlReach.Proofs.Analysis.Verdict
import SqlReach.Proofs.Arguments.FormatChoice
import SqlReach.Proofs.Command.Terminal
import SqlReach.Proofs.FileTree.RealLocations

/-!
# The exit status

Whoever calls the command trusts its exit status.  Apart from a request for help the
status is zero exactly when the arguments named a paragraph and a file, the file was
read, there was a format to report in, and no paragraph within reach uses SQL.  The
report is printed as a whole or not at all, and the choice of a format has no
influence on the status.
-/

namespace SqlReach

namespace Command

variable {start : Start} {settings : Settings} {arguments : List String} {session : Session}

/-! ## What the stages print -/

@[simp]
theorem prepared_out (start : Start) (settings : Settings) (session : Session) :
    (prepared start settings session).out = session.out := by
  unfold prepared setUpJournal
  split
  · rfl
  · dsimp only
    split
    · rfl
    · rw [Session.record_out]

@[simp]
theorem atReading_out (start : Start) (path : AbsolutePath) (session : Session) :
    (atReading start path session).out = session.out := by
  unfold atReading
  split
  · rfl
  · rw [Session.record_out]

@[simp]
theorem atReport_out (start : Start) (path : AbsolutePath) (text paragraph : String)
    (session : Session) : (atReport start path text paragraph session).out = session.out := by
  rw [atReport, Session.foldl_record_out, atReading_out]

@[simp]
theorem fail_ending (start : Start) (path : AbsolutePath) (cause : Source.ReadError)
    (session : Session) : (fail start path cause session).ending = .exit 1 := by
  cases cause <;> rfl

@[simp]
theorem fail_out (start : Start) (path : AbsolutePath) (cause : Source.ReadError)
    (session : Session) : (fail start path cause session).session.out = session.out := by
  cases cause <;> simp [fail, Session.complain]

/-- What a run prints about an analysis: the report on lines of its own, and after a
text report a line that says so if no SQL is within reach. -/
def printed (format : Format) (analysis : Analysis) : String :=
  render format analysis ++ "\n" ++
    if format = .text ∧ analysis.usesSql = false then
      "SUCCESS: No EXEC SQL found in the call tree.\n"
    else ""

theorem report_out (format : Format) (analysis : Analysis) (session : Session) :
    (report (some format) analysis session).session.out =
      session.out ++ printed format analysis := by
  cases format <;> cases hsql : analysis.usesSql <;>
    simp [report, conclude, printed, Session.print, Session.complain, hsql, String.append_assoc]

theorem ending_ne_exit_zero_of_usesSql {format : Option Format} {analysis : Analysis}
    {session : Session} (hsql : analysis.usesSql = true) :
    (report format analysis session).ending ≠ .exit 0 := by
  cases format with
  | none => simp [report]
  | some format => simp [report, hsql]

/-- A run that ends with status zero gave help or came to an analysis, for which it had
a format and which found no SQL. -/
theorem Course.exists_analyzes_of_exit_zero {outcome : Outcome}
    (hcourse : Course start settings arguments session outcome)
    (hexit : outcome.ending = .exit 0)
    (hhelp : Arguments.parse settings.outputFormat arguments ≠ .ok .help) :
    ∃ paragraph format resolved text,
      Analyzes start settings arguments session paragraph (some format) resolved text ∧
        (analyze text paragraph (some resolved.text)).usesSql = false := by
  cases hcourse with
  | refused hparse => cases hexit
  | helped hparse => exact absurd hparse hhelp
  | incomplete hparse hmissing => cases hexit
  | unjournaled hasks hsetup => cases hexit
  | unresolved hasks hsetup hresolve => cases hexit
  | unread hlocates hread =>
      rw [fail_ending] at hexit
      cases hexit
  | analyzed hanalyzes =>
      rename_i paragraph format resolved text
      cases format with
      | none => cases hexit
      | some format =>
          refine ⟨paragraph, format, resolved, text, hanalyzes, ?_⟩
          apply eq_false_of_ne_true
          intro hsql
          exact ending_ne_exit_zero_of_usesSql hsql hexit

/-- Only help and a report are printed. -/
theorem Course.out_eq {outcome : Outcome}
    (hcourse : Course start settings arguments session outcome)
    (hhelp : Arguments.parse settings.outputFormat arguments ≠ .ok .help)
    (hnone : ¬ ∃ paragraph format resolved text,
      Analyzes start settings arguments session paragraph (some format) resolved text) :
    outcome.session.out = session.out := by
  cases hcourse with
  | refused hparse => rfl
  | helped hparse => exact absurd hparse hhelp
  | incomplete hparse hmissing => rfl
  | unjournaled hasks hsetup => rw [prepared_out]
  | unresolved hasks hsetup hresolve => rw [prepared_out]
  | unread hlocates hread => rw [fail_out, atReading_out, prepared_out]
  | analyzed hanalyzes =>
      rename_i paragraph format resolved text
      cases format with
      | none => rw [report, atReport_out, prepared_out]
      | some format => exact absurd ⟨paragraph, format, resolved, text, hanalyzes⟩ hnone

/-- A run that comes to an analysis and has a format prints the report and reports the
verdict. -/
theorem ending_and_out_of_analyzes {paragraph : String} {format : Format}
    {resolved : AbsolutePath} {text : String}
    (hanalyzes : Analyzes start settings arguments session paragraph (some format) resolved
      text) :
    (runWith start settings arguments session).ending =
        .exit (if (analyze text paragraph (some resolved.text)).usesSql then 1 else 0) ∧
      (runWith start settings arguments session).session.out =
        session.out ++ printed format (analyze text paragraph (some resolved.text)) := by
  rw [runWith_of_analyzes hanalyzes, report_out, atReport_out, prepared_out]
  exact ⟨rfl, rfl⟩

/-! ## The choice of a format -/

theorem report_ending_congr {first second : Option Format}
    (hformat : first.isSome = second.isSome) (analysis : Analysis) (session : Session) :
    (report first analysis session).ending = (report second analysis session).ending := by
  cases first with
  | none =>
      cases second with
      | none => rfl
      | some second => cases hformat
  | some first =>
      cases second with
      | none => cases hformat
      | some second => rfl

theorem analyzeAt_ending_congr {first second : Option Format}
    (hformat : first.isSome = second.isSome) (start : Start) (settings : Settings)
    (paragraph : String) (path : AbsolutePath) (session : Session) :
    (analyzeAt start settings paragraph first path session).ending =
      (analyzeAt start settings paragraph second path session).ending := by
  cases hread : sourceText start settings path session with
  | error cause => rw [analyzeAt_of_error hread, analyzeAt_of_error hread]
  | ok text =>
      rw [analyzeAt_of_ok hread, analyzeAt_of_ok hread]
      exact report_ending_congr hformat _ _

theorem analyzePath_ending_congr {first second : Option Format}
    (hformat : first.isSome = second.isSome) (paragraph path : String) :
    (analyzePath start settings paragraph path first session).ending =
      (analyzePath start settings paragraph path second session).ending := by
  rw [analyzePath_eq, analyzePath_eq]
  split
  · rfl
  · split
    · rfl
    · exact analyzeAt_ending_congr hformat _ _ _ _ _

/-- Once the arguments are parsed, the format that the settings choose is not looked at. -/
theorem analyzePath_outputFormat (other : Format) (paragraph path : String)
    (format : Option Format) :
    analyzePath start { settings with outputFormat := other } paragraph path format session =
      analyzePath start settings paragraph path format session := by
  have hsetup : setUpJournal start { settings with outputFormat := other } session =
      setUpJournal start settings session := by
    simp only [setUpJournal, Journal.setUp, Journal.logPath?]
  rw [analyzePath, hsetup]
  rfl

/-- Requests that differ in the format lead to the same ending. -/
theorem runWith_ending_congr {other : Format} {otherArguments : List String}
    (hsame : Arguments.SameButFormat (Arguments.parse settings.outputFormat arguments)
      (Arguments.parse other otherArguments)) :
    (runWith start { settings with outputFormat := other } otherArguments session).ending =
      (runWith start settings arguments session).ending := by
  unfold runWith
  dsimp only
  generalize Arguments.parse settings.outputFormat arguments = answer,
    Arguments.parse other otherArguments = otherAnswer at hsame ⊢
  cases hsame with
  | refused refusal => rfl
  | help => rfl
  | analysis paragraph path hformat =>
      dsimp only
      split
      · rw [analyzePath_outputFormat]
        exact (analyzePath_ending_congr hformat _ _).symm
      · rfl

/-- Unless help was asked for, the exit status is zero exactly when the run came to an
analysis, had a format to report it in, and no paragraph within reach uses SQL.  A
report is printed as a whole, with a line of success behind a clean text report; in
all other cases nothing is printed.  A run that comes to an analysis without a format
ends without an exit status.  Runs that differ only in the format end alike. -/
theorem exit_zero_iff_clean (start : Start) (settings : Settings) (arguments : List String)
    (session : Session) :
    (Arguments.parse settings.outputFormat arguments ≠ .ok .help →
      ((runWith start settings arguments session).ending = .exit 0 ↔
        ∃ paragraph format resolved text,
          Analyzes start settings arguments session paragraph (some format) resolved text ∧
            ∀ name, (scan text).Reaches paragraph name → (scan text).usesSql name = false) ∧
      ((¬ ∃ paragraph format resolved text,
          Analyzes start settings arguments session paragraph (some format) resolved text) →
        (runWith start settings arguments session).session.out = session.out)) ∧
    (∀ paragraph format resolved text,
      Analyzes start settings arguments session paragraph (some format) resolved text →
        (runWith start settings arguments session).session.out =
          session.out ++ printed format (analyze text paragraph (some resolved.text))) ∧
    (∀ paragraph resolved text,
      Analyzes start settings arguments session paragraph none resolved text →
        (runWith start settings arguments session).ending = .escape .noFormat) ∧
    ∀ (other : Format) (otherArguments : List String),
      (Arguments.DifferInFormat arguments otherArguments ∨
        Arguments.SameButFormat (Arguments.parse settings.outputFormat arguments)
          (Arguments.parse other otherArguments)) →
        (runWith start { settings with outputFormat := other } otherArguments session).ending =
          (runWith start settings arguments session).ending := by
  have hcourse := course_runWith start settings arguments session
  refine ⟨fun hhelp => ⟨⟨?_, ?_⟩, hcourse.out_eq hhelp⟩, ?_, ?_, ?_⟩
  · intro hexit
    obtain ⟨paragraph, format, resolved, text, hanalyzes, hclean⟩ :=
      hcourse.exists_analyzes_of_exit_zero hexit hhelp
    exact ⟨paragraph, format, resolved, text, hanalyzes,
      (usesSql_analyze_eq_false_iff _ _ _).mp hclean⟩
  · rintro ⟨paragraph, format, resolved, text, hanalyzes, hclean⟩
    rw [← usesSql_analyze_eq_false_iff _ _ (some resolved.text)] at hclean
    rw [(ending_and_out_of_analyzes hanalyzes).1, hclean]
    rfl
  · intro paragraph format resolved text hanalyzes
    exact (ending_and_out_of_analyzes hanalyzes).2
  · intro paragraph resolved text hanalyzes
    rw [runWith_of_analyzes hanalyzes]
    rfl
  · rintro other otherArguments (hdiffer | hsame)
    · exact runWith_ending_congr (Arguments.parse_differ hdiffer _ _)
    · exact runWith_ending_congr hsame

/-- A file tree that holds nothing but a source with one paragraph, free of SQL. -/
def cleanSource : FileTree where
  entries := [({ text := "m" }, .file "100-A.\n".toUTF8.toList)]

def cleanPath : AbsolutePath where
  location := Location.root.child { text := "m" }

theorem resolve_cleanSource : cleanSource.resolve {} .root "m" = .ok cleanPath :=
  FileTree.IsReal.root.resolve_name rfl { text := "m" } (by nofun) {}

theorem read_cleanSource (reader : Reader) :
    Source.read reader cleanSource .root ({} : Settings).sourceEncoding cleanPath.text =
      .ok "100-A.\n" := by
  have hfile : cleanSource.find? cleanPath.location = some (.file "100-A.\n".toUTF8.toList) := rfl
  have hreal : cleanSource.IsReal cleanPath.location := FileTree.isReal_of_find? hfile nofun
  have hresolve : cleanSource.resolve reader.limits .root cleanPath.text = .ok cleanPath :=
    hreal.resolve_text reader.limits .root
  have hcontent : cleanSource.contentAt .root cleanPath.text =
      .ok "100-A.\n".toUTF8.toList := by
    cbv
  have hencoding : Encoding.ofName? ({} : Settings).sourceEncoding = some .utf8Signed := by
    decide +kernel
  have hdecode : Encoding.decode .utf8Signed "100-A.\n".toUTF8.toList = "100-A.\n" := by
    decide +kernel
  have hnull : ({} : Settings).sourceEncoding.toList.contains '\x00' = false := by decide
  simp only [Source.read, Source.readAt, hresolve, hnull, hcontent, Source.decodeIn, Codecs.find?,
    hencoding, Encoding.codec]
  exact congrArg Except.ok hdecode

/-- An option whose value is two dashes parses and leaves no format.  A source that was
read and is free of SQL then does not end with status zero, and nothing is printed. -/
theorem clean_source_without_format :
    Arguments.parse ({} : Settings).outputFormat ["100-A", "m", "--format=--"] ≠ .ok .help ∧
      Analyzes { stamp := "TIME" } {} ["100-A", "m", "--format=--"]
        { world := { tree := cleanSource } } "100-A" none cleanPath "100-A.\n" ∧
      (∀ name, (scan "100-A.\n").Reaches "100-A" name →
        (scan "100-A.\n").usesSql name = false) ∧
      (runWith { stamp := "TIME" } {} ["100-A", "m", "--format=--"]
        { world := { tree := cleanSource } }).ending ≠ .exit 0 ∧
      (runWith { stamp := "TIME" } {} ["100-A", "m", "--format=--"]
        { world := { tree := cleanSource } }).session.out = "" := by
  have hterminal := onTerminal_default cleanSource
  have hasks : Asks {} ["100-A", "m", "--format=--"] "100-A" "m" none :=
    ⟨rfl, by decide, by decide⟩
  have hanalyzes : Analyzes { stamp := "TIME" } {} ["100-A", "m", "--format=--"]
      { world := { tree := cleanSource } } "100-A" none cleanPath "100-A.\n" := by
    refine ⟨(hterminal.locates_iff _ _ _ _ _).mpr ⟨"m", hasks, resolve_cleanSource⟩, ?_⟩
    rw [hterminal.sourceText_prepared]
    exact read_cleanSource _
  have hclean : (analyze "100-A.\n" "100-A" none).usesSql = false := by decide +kernel
  refine ⟨?_, hanalyzes, (usesSql_analyze_eq_false_iff _ _ none).mp hclean, ?_, ?_⟩
  · rw [hasks.parse_eq]
    simp
  · rw [runWith_of_analyzes hanalyzes]
    simp [report]
  · rw [runWith_of_analyzes hanalyzes, report, atReport_out, prepared_out]

end Command

end SqlReach
