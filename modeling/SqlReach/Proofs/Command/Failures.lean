import SqlReach.Proofs.Command.ExitStatus

/-!
# Failures of a run

A source that cannot be read is reported on the terminal, and the run ends with
status one.  This is not so for everything that can go wrong.  The path is resolved
before the run begins to catch failures, so a path that cannot be resolved ends the
run without an exit status; and so does an analysis for which there is no format.
This module proves that with a journal on the terminal these two are the only ways
to end like that.
-/

namespace SqlReach.Command

variable {start : Start} {settings : Settings} {arguments : List String} {session : Session}

/-- The report that the source at a path could not be read. -/
def failureText (start : Start) (path : AbsolutePath) : Source.ReadError → String
  | .unreadable unread fault =>
      (Trace.unreadable start.origin unread).line start.stamp ++
        ("Error reading file: " ++ (Source.ReadError.unreadable unread fault).message ++ "\n")
  | cause =>
      (Trace.failed start.origin path cause.message (start.machine.traceback cause)).line
        start.stamp

theorem fail_err {journal : Journal} (hjournal : session.world.journal = some journal)
    (hthreshold : journal.threshold ≤ Severity.critical.rank) (hfile : journal.file = none)
    (start : Start) (path : AbsolutePath) (cause : Source.ReadError) :
    (fail start path cause session).session.err = session.err ++ failureText start path cause := by
  have haccepts : ∀ event : Event, event.severity = .critical → journal.accepts event = true := by
    intro event hcritical
    rw [Journal.accepts, hcritical]
    exact decide_eq_true hthreshold
  cases cause with
  | unreadable unread fault =>
      rw [fail, Session.complain, Session.record_err_of_accepts _ hjournal hfile (haccepts _ rfl),
        failureText]
      simp only [String.append_assoc]
  | unresolved cause =>
      exact Session.record_err_of_accepts _ hjournal hfile (haccepts _ rfl)
  | unknownEncoding name =>
      exact Session.record_err_of_accepts _ hjournal hfile (haccepts _ rfl)
  | nullInEncoding =>
      exact Session.record_err_of_accepts _ hjournal hfile (haccepts _ rfl)
  | undecodable reason =>
      exact Session.record_err_of_accepts _ hjournal hfile (haccepts _ rfl)

/-- A source that cannot be read is reported, and the run ends with status one. -/
theorem OnTerminal.runWith_of_unread (hterminal : OnTerminal settings session)
    {paragraph path : String} {format : Option Format} {resolved : AbsolutePath}
    {cause : Source.ReadError} (hasks : Asks settings arguments paragraph path format)
    (hresolve : session.world.tree.resolve start.machine.limits session.world.directory path =
      .ok resolved)
    (hread : Source.read start.machine.inner session.world.tree session.world.directory
      settings.sourceEncoding resolved.text = .error cause) :
    (runWith start settings arguments session).ending = .exit 1 ∧
      ∃ earlier, (runWith start settings arguments session).session.err =
        earlier ++ failureText start resolved cause := by
  obtain ⟨-, hprepared, hsome, -⟩ := hterminal.setUpJournal start
  obtain ⟨journal, hjournal⟩ := Option.isSome_iff_exists.mp hsome
  have hlocates : Locates start settings arguments session paragraph format resolved :=
    (hterminal.locates_iff start arguments paragraph format resolved).mpr ⟨path, hasks, hresolve⟩
  rw [← hterminal.sourceText_prepared start] at hread
  rw [Command.runWith_of_unread hlocates hread]
  obtain ⟨hthreshold, hfile⟩ := hprepared.earlier journal hjournal
  refine ⟨fail_ending _ _ _ _, _, fail_err ?_ hthreshold hfile _ _ _⟩
  unfold atReading
  split
  · exact hjournal
  · rw [Session.record_journal]
    exact hjournal

/-- An exit status is given only where the path was resolved, and the format was not
missed. -/
theorem OnTerminal.resolved_of_exit (hterminal : OnTerminal settings session) {status : Nat}
    (hexit : (runWith start settings arguments session).ending = .exit status)
    {paragraph path : String} {format : Option Format}
    (hasks : Asks settings arguments paragraph path format) :
    ∃ resolved,
      session.world.tree.resolve start.machine.limits session.world.directory path =
          .ok resolved ∧
        (format = none →
          ∃ cause, Source.read start.machine.inner session.world.tree session.world.directory
            settings.sourceEncoding resolved.text = .error cause) := by
  cases hresolve : session.world.tree.resolve start.machine.limits session.world.directory
      path with
  | error cause =>
      rw [hterminal.runWith_of_unresolved hasks hresolve] at hexit
      cases hexit
  | ok resolved =>
      refine ⟨resolved, rfl, ?_⟩
      rintro rfl
      have hlocates : Locates start settings arguments session paragraph none resolved :=
        (hterminal.locates_iff start arguments paragraph none resolved).mpr
          ⟨path, hasks, hresolve⟩
      rw [← hterminal.sourceText_prepared start]
      cases hread : sourceText start settings resolved (prepared start settings session) with
      | error cause => exact ⟨cause, rfl⟩
      | ok text =>
          rw [runWith_of_analyzes ⟨hlocates, hread⟩] at hexit
          cases hexit

theorem OnTerminal.exit_of_resolved (hterminal : OnTerminal settings session)
    (hresolved : ∀ paragraph path format, Asks settings arguments paragraph path format →
      ∃ resolved,
        session.world.tree.resolve start.machine.limits session.world.directory path =
            .ok resolved ∧
          (format = none →
            ∃ cause, Source.read start.machine.inner session.world.tree session.world.directory
              settings.sourceEncoding resolved.text = .error cause))
    {outcome : Outcome} (hcourse : Course start settings arguments session outcome) :
    ∃ status, status ≤ 1 ∧ outcome.ending = .exit status := by
  obtain ⟨hsetup, -, -, hdisk⟩ := hterminal.setUpJournal start
  cases hcourse with
  | refused hparse => exact ⟨1, Nat.le_refl 1, rfl⟩
  | helped hparse => exact ⟨0, Nat.zero_le 1, rfl⟩
  | incomplete hparse hmissing => exact ⟨1, Nat.le_refl 1, rfl⟩
  | unjournaled hasks hfailed =>
      rw [hsetup] at hfailed
      cases hfailed
  | unresolved hasks hready hresolve =>
      obtain ⟨resolved, hfound, -⟩ := hresolved _ _ _ hasks
      rw [hdisk, hfound] at hresolve
      cases hresolve
  | unread hlocates hread => exact ⟨1, Nat.le_refl 1, fail_ending _ _ _ _⟩
  | analyzed hanalyzes =>
      rename_i paragraph format resolved text
      cases format with
      | some format =>
          refine ⟨if (analyze text paragraph (some resolved.text)).usesSql then 1 else 0, ?_, rfl⟩
          split
          · exact Nat.le_refl 1
          · exact Nat.zero_le 1
      | none =>
          obtain ⟨path, hasks, hfound⟩ :=
            (hterminal.locates_iff _ _ _ _ _).mp hanalyzes.locates
          obtain ⟨again, hagain, hmissed⟩ := hresolved _ _ _ hasks
          rw [hfound] at hagain
          cases hagain
          obtain ⟨cause, hcause⟩ := hmissed rfl
          have htext := hanalyzes.text_eq
          rw [hterminal.sourceText_prepared start, hcause] at htext
          cases htext

/-- A run on the terminal ends with an exit status, which is zero or one, if and only
if the path of every analysis that it is asked for can be resolved, and a format is
missing only where the source cannot be read.  A source that cannot be read is
reported in any case. -/
theorem exit_iff_resolved_and_formatted (start : Start) (settings : Settings)
    (arguments : List String) (session : Session) (hterminal : OnTerminal settings session) :
    ((∃ status, status ≤ 1 ∧ (runWith start settings arguments session).ending = .exit status) ↔
      ∀ paragraph path format, Asks settings arguments paragraph path format →
        ∃ resolved,
          session.world.tree.resolve start.machine.limits session.world.directory path =
              .ok resolved ∧
            (format = none →
              ∃ cause, Source.read start.machine.inner session.world.tree session.world.directory
                settings.sourceEncoding resolved.text = .error cause)) ∧
    ∀ paragraph path format resolved cause, Asks settings arguments paragraph path format →
      session.world.tree.resolve start.machine.limits session.world.directory path =
        .ok resolved →
      Source.read start.machine.inner session.world.tree session.world.directory
        settings.sourceEncoding resolved.text = .error cause →
      (runWith start settings arguments session).ending = .exit 1 ∧
        ∃ earlier, (runWith start settings arguments session).session.err =
          earlier ++ failureText start resolved cause := by
  refine ⟨⟨?_, ?_⟩, ?_⟩
  · rintro ⟨status, -, hexit⟩ paragraph path format hasks
    exact hterminal.resolved_of_exit hexit hasks
  · intro hresolved
    exact hterminal.exit_of_resolved hresolved (course_runWith start settings arguments session)
  · intro paragraph path format resolved cause hasks hresolve hread
    exact hterminal.runWith_of_unread hasks hresolve hread

/-- The source is missing, which is reported. -/
theorem exit_iff_resolved_and_formatted_missing_source :
    OnTerminal {} { world := {} } ∧
      ((runWith { stamp := "TIME" } {} ["100-A", "m"] { world := {} }).ending = .exit 1 ∧
        ∃ earlier, (runWith { stamp := "TIME" } {} ["100-A", "m"] { world := {} }).session.err =
          earlier ++ failureText { stamp := "TIME" } cleanPath
            (.unreadable cleanPath .notFound)) := by
  have hterminal := onTerminal_default {}
  have hasks : Asks {} ["100-A", "m"] "100-A" "m" (some .text) := ⟨rfl, by decide, by decide⟩
  have hlink : ∀ target, ({} : FileTree).find? cleanPath.location ≠ some (.link target) := by
    intro target hfound
    cases hfound
  have hresolve : ({} : FileTree).resolve {} .root "m" = .ok cleanPath :=
    FileTree.IsReal.root.resolve_name rfl { text := "m" } hlink {}
  have hread : Source.read ({} : Machine).inner {} .root ({} : Settings).sourceEncoding
      cleanPath.text = .error (.unreadable cleanPath .notFound) := by
    have hreal : ({} : FileTree).IsReal cleanPath.location := .child .root hlink
    have hagain : ({} : FileTree).resolve ({} : Machine).inner.limits .root cleanPath.text =
        .ok cleanPath := hreal.resolve_text _ .root
    have hcontent : ({} : FileTree).contentAt .root cleanPath.text = .error .notFound := by
      cbv
    simp only [Source.read, Source.readAt, hagain, hcontent]
    rfl
  exact ⟨hterminal, (exit_iff_resolved_and_formatted { stamp := "TIME" } {} ["100-A", "m"] _
    hterminal).2 _ _ _ _ _ hasks hresolve hread⟩

/-- A file tree that holds nothing but a link to itself. -/
def selfLink : FileTree where
  entries := [({ text := "loop" }, .link "loop")]

def loopPath : AbsolutePath where
  location := Location.root.child { text := "loop" }

/-- The link is met again while its own target is being resolved.  What is left is the link
itself, and only looking at it reveals the loop. -/
theorem resolve_selfLink : selfLink.resolve {} .root "loop" = .error (.linkLoop loopPath) := by
  have hlinks : selfLink.replaceLinks {} .root "loop" = .ok loopPath := by
    rw [FileTree.replaceLinks, show ({} : FileTree.Limits).links + 1 = 989 + 1 + 1 from rfl,
      FileTree.followLinks, FileTree.followLinks]
    generalize FileTree.followLinks _ _ = followTarget
    cbv
  have hwalk : selfLink.walk .look .root loopPath.text = .error .linkLoop := by
    cbv
  simp only [FileTree.resolve, hlinks, hwalk]

/-- A link to itself as the source ends a run without an exit status, and nothing is
reported. -/
theorem self_link_ends_without_status :
    OnTerminal {} { world := { tree := selfLink } } ∧
      (¬ ∃ status, status ≤ 1 ∧ (runWith { stamp := "TIME" } {} ["100-A", "loop"]
        { world := { tree := selfLink } }).ending = .exit status) ∧
      (runWith { stamp := "TIME" } {} ["100-A", "loop"]
        { world := { tree := selfLink } }).session.err = "" := by
  have hasks : Asks {} ["100-A", "loop"] "100-A" "loop" (some .text) :=
    ⟨rfl, by decide, by decide⟩
  have hterminal := onTerminal_default selfLink
  rw [hterminal.runWith_of_unresolved hasks resolve_selfLink]
  exact ⟨hterminal, by simp, rfl⟩

end SqlReach.Command
