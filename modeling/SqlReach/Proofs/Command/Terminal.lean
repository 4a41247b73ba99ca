import SqlReach.Proofs.Command.Course

/-!
# A journal on the terminal

Without a log file the journal writes to the terminal alone.  Then setting it up
cannot fail for a known level, recording leaves the disk as it is, and a run
finds the source as it was when the run began.
-/

namespace SqlReach

namespace Journal

/-- Every level lets the gravest events through. -/
theorem threshold_le {level : String} {threshold : Nat}
    (hlevel : threshold? level = some threshold) : threshold ≤ Severity.critical.rank := by
  have hmem : ∃ name, (name, threshold) ∈ levels := by
    obtain ⟨before, after, hlevels, -⟩ := List.lookup_eq_some_iff.mp hlevel
    exact ⟨Text.upper level, by simp [hlevels]⟩
  obtain ⟨name, hmem⟩ := hmem
  have hall : ∀ entry ∈ levels, entry.2 ≤ Severity.critical.rank := by decide
  exact hall _ hmem

end Journal

namespace Command

/-- The journal is kept on the terminal alone: the settings ask for a known level and
for no log file, and neither did an earlier run that set the journal up. -/
structure OnTerminal (settings : Settings) (session : Session) : Prop where
  exists_threshold : ∃ threshold, Journal.threshold? settings.logLevel = some threshold
  logPath_eq : Journal.logPath? settings = none
  earlier : ∀ journal ∈ session.world.journal,
    journal.threshold ≤ Severity.critical.rank ∧ journal.file = none

variable {start : Start} {settings : Settings} {arguments : List String} {session : Session}

/-- Setting up a journal on the terminal succeeds and leaves the disk alone. -/
theorem OnTerminal.setUpJournal (hterminal : OnTerminal settings session) (start : Start) :
    (setUpJournal start settings session).2 = none ∧
      OnTerminal settings (prepared start settings session) ∧
      (prepared start settings session).world.journal.isSome = true ∧
      (prepared start settings session).world.toDisk = session.world.toDisk := by
  obtain ⟨⟨threshold, hthreshold⟩, hpath, hearlier⟩ := hterminal
  cases hjournal : session.world.journal with
  | some journal =>
      have hsetup : Command.setUpJournal start settings session = (session, none) := by
        simp only [Command.setUpJournal, hjournal]
      rw [prepared, hsetup]
      refine ⟨rfl, ⟨⟨threshold, hthreshold⟩, hpath, hearlier⟩, ?_, rfl⟩
      rw [hjournal]
      rfl
  | none =>
      have hsetup : Command.setUpJournal start settings session =
          (({ session with
            world := { session.world with journal := some ⟨threshold, none⟩ } } : Session).record
              start Trace.configured, none) := by
        simp only [Command.setUpJournal, hjournal, Journal.setUp, hthreshold, hpath]
      rw [prepared, hsetup]
      refine ⟨rfl, ⟨⟨threshold, hthreshold⟩, hpath, ?_⟩, ?_, ?_⟩
      · simp only [Session.record_journal, Option.mem_some]
        rintro journal rfl
        exact ⟨Journal.threshold_le hthreshold, rfl⟩
      · simp
      · exact Session.record_toDisk _ _ (by simp)

/-- With a journal on the terminal, recording the reading does not touch the source. -/
theorem OnTerminal.sourceText_eq (hterminal : OnTerminal settings session) (start : Start)
    (path : AbsolutePath) :
    sourceText start settings path session =
      Source.read start.machine.inner session.world.tree session.world.directory
        settings.sourceEncoding path.text := by
  rw [sourceText, Source.read]
  cases session.world.tree.resolve start.machine.inner.limits session.world.directory
      path.text with
  | error cause => rfl
  | ok source =>
      have hdisk : (session.record start (Trace.reading source)).world.toDisk =
          session.world.toDisk := by
        apply Session.record_toDisk
        intro journal hjournal
        exact (hterminal.earlier journal hjournal).2
      simp only [hdisk]

/-- What a run on the terminal finds at a path is what is there when it begins. -/
theorem OnTerminal.locates_iff (hterminal : OnTerminal settings session) (start : Start)
    (arguments : List String) (paragraph : String) (format : Option Format)
    (resolved : AbsolutePath) :
    Locates start settings arguments session paragraph format resolved ↔
      ∃ path, Asks settings arguments paragraph path format ∧
        session.world.tree.resolve start.machine.limits session.world.directory path =
          .ok resolved := by
  obtain ⟨hsetup, -, -, hdisk⟩ := hterminal.setUpJournal start
  constructor
  · rintro ⟨hpath, -⟩
    rwa [hdisk] at hpath
  · intro hpath
    refine ⟨?_, hsetup⟩
    rwa [hdisk]

theorem OnTerminal.runWith_of_unresolved (hterminal : OnTerminal settings session)
    {paragraph path : String} {format : Option Format} {cause : FileTree.ResolveError}
    (hasks : Asks settings arguments paragraph path format)
    (hresolve : session.world.tree.resolve start.machine.limits session.world.directory path =
      .error cause) :
    runWith start settings arguments session =
      ⟨.escape (.unresolved cause), prepared start settings session⟩ := by
  obtain ⟨hsetup, -, -, hdisk⟩ := hterminal.setUpJournal start
  apply Command.runWith_of_unresolved hasks hsetup
  rw [hdisk, hresolve]

theorem OnTerminal.sourceText_prepared (hterminal : OnTerminal settings session) (start : Start)
    (path : AbsolutePath) :
    sourceText start settings path (prepared start settings session) =
      Source.read start.machine.inner session.world.tree session.world.directory
        settings.sourceEncoding path.text := by
  obtain ⟨-, hprepared, -, hdisk⟩ := hterminal.setUpJournal start
  rw [hprepared.sourceText_eq, hdisk]

theorem threshold_default : Journal.threshold? ({} : Settings).logLevel = some 30 := by
  decide +kernel

/-- The default settings keep the journal on the terminal. -/
theorem onTerminal_default (tree : FileTree) :
    OnTerminal {} { world := { tree } } where
  exists_threshold := ⟨30, threshold_default⟩
  logPath_eq := rfl
  earlier := by simp

end Command

end SqlReach
