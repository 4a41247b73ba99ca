import SqlReach.Proofs.Command.Transcript

/-!
# Runs in a series

Several runs can follow one another in one process, and between two of them the settings
may become anything.  The journal outlives the runs.  This module proves that it is set
up at most once: by the first run that comes so far with a level that is known.  Its
threshold, the terminal and its log file stay from then on as they are, whatever later
settings say, and in every run each event that it accepts is written once to each of
them.
-/

namespace SqlReach.Command

/-- One run of a series.  The environment and the settings may be any; those of a single
run come from the world that it runs in. -/
structure Call where
  start : Start
  environment : Environment
  loading : Settings.Loading
  arguments : List String

namespace Call

variable (call : Call) (world : World)

def outcome : Outcome :=
  runLoaded call.start call.loading call.arguments { world with environment := call.environment }

/-- The run of the command that takes its settings from the world. -/
def ofWorld (start : Start) (arguments : List String) (world : World) : Call where
  start
  environment := world.environment
  loading := Settings.loadIn world.tree world.directory world.environment
  arguments

/-- A run of the command takes the settings from the world that it runs in. -/
theorem run_eq_outcome (start : Start) (arguments : List String) (world : World) :
    run start arguments world = (ofWorld start arguments world).outcome world :=
  rfl

/-- The session in which the run begins. -/
def begun : Session where
  world := { world with environment := call.environment }

/-- What is to be said while the settings are loaded. -/
def warnings : List Remark :=
  (call.loading.unread.map Trace.unreadStatement).map .event

/-- The session once the settings have been loaded. -/
def loaded : Session :=
  (call.loading.unread.map Trace.unreadStatement).foldl (Session.record call.start)
    (call.begun world)

/-- What is said once the settings have been loaded. -/
def laterRemarks : List Remark :=
  match call.loading.settings with
  | .error _ => []
  | .ok settings => Command.remarks call.start settings call.arguments (call.loaded world)

/-- What is said in the run.  While the settings are loaded nothing is said unless there is
a journal from an earlier run. -/
def remarks : List Remark :=
  (if world.journal.isSome then call.warnings else []) ++ call.laterRemarks world

/-- The run comes as far as the journal: it has settings, and its arguments name a
paragraph and a file. -/
def ReachesSetup (settings : Settings) : Prop :=
  call.loading.settings = .ok settings ∧
    ∃ paragraph path format, Asks settings call.arguments paragraph path format

/-- The run sets up the journal if there is none.  The threshold is that of its level,
which is known, and there is a log file if and only if the settings name one that can be
opened. -/
def SetsUp (journal : Journal) : Prop :=
  ∃ settings, call.ReachesSetup settings ∧
    Journal.threshold? settings.logLevel = some journal.threshold ∧
      ∀ base, journal.file = some base ↔
        Journal.OpensLog call.start.machine.limits world.toDisk settings base

/-- The run stops before the journal, or its level is not known. -/
def LeavesUnset : Prop :=
  ∀ settings, call.ReachesSetup settings → Journal.threshold? settings.logLevel = none

end Call

/-- The world after a series of runs. -/
def worldAfter (calls : List Call) (world : World) : World :=
  calls.foldl (fun world call => (call.outcome world).session.world) world

theorem worldAfter_cons (call : Call) (calls : List Call) (world : World) :
    worldAfter (call :: calls) world = worldAfter calls (call.outcome world).session.world :=
  rfl

theorem worldAfter_append (calls later : List Call) (world : World) :
    worldAfter (calls ++ later) world = worldAfter later (worldAfter calls world) :=
  List.foldl_append

/-! ## The journal in one run -/

namespace Call

variable (call : Call) {world : World}

theorem says_loaded (world : World) :
    Session.Says call.start call.warnings (call.begun world) (call.loaded world) :=
  Session.says_foldl_record _

/-- Where there is no journal, loading the settings leaves no trace. -/
theorem loaded_of_none (hnew : world.journal = none) : call.loaded world = call.begun world :=
  Session.foldl_record_of_none hnew _

theorem outcome_of_settings {settings : Settings} (hsettings : call.loading.settings = .ok settings)
    (world : World) :
    call.outcome world = runWith call.start settings call.arguments (call.loaded world) := by
  simp only [outcome, runLoaded, hsettings]
  rfl

theorem ReachesSetup.unique {call : Call} {settings other : Settings}
    (hsettings : call.ReachesSetup settings) (hother : call.ReachesSetup other) :
    settings = other := by
  obtain ⟨hloaded, -⟩ := hsettings
  rw [hother.1] at hloaded
  exact (Except.ok.inj hloaded).symm

/-- Where the run makes its remarks: in the session as it begins, with the journal set up
before if the run comes so far. -/
def IsVoice (world : World) (voice : Session) : Prop :=
  (∃ settings, call.ReachesSetup settings ∧
      voice = withJournal call.start settings (call.begun world)) ∨
    (∀ settings, ¬ call.ReachesSetup settings) ∧ voice = call.begun world

/-- What the run does once the settings have been loaded. -/
theorem exists_says_later (world : World) :
    ∃ voice : Session,
      Session.Says call.start (call.laterRemarks world) voice (call.outcome world).session ∧
        ((∃ settings, call.ReachesSetup settings ∧
            voice = withJournal call.start settings (call.loaded world)) ∨
          (∀ settings, ¬ call.ReachesSetup settings) ∧ voice = call.loaded world) := by
  cases hsettings : call.loading.settings with
  | error cause =>
      refine ⟨call.loaded world, ?_, Or.inr ⟨?_, rfl⟩⟩
      · simp only [laterRemarks, outcome, runLoaded, hsettings]
        exact Session.says_nil rfl rfl
      · rintro settings ⟨hloaded, -⟩
        rw [hsettings] at hloaded
        cases hloaded
  | ok settings =>
      have hremarks : call.laterRemarks world =
          Command.remarks call.start settings call.arguments (call.loaded world) := by
        simp only [laterRemarks, hsettings]
      rw [call.outcome_of_settings hsettings, hremarks]
      by_cases hasks : ∃ paragraph path format, Asks settings call.arguments paragraph path format
      · refine ⟨_, ?_, Or.inl ⟨settings, ⟨hsettings, hasks⟩, rfl⟩⟩
        obtain ⟨paragraph, path, format, hasks⟩ := hasks
        exact says_of_asks hasks call.start (call.loaded world)
      · refine ⟨_, says_of_not_asks hasks call.start (call.loaded world), Or.inr ⟨?_, rfl⟩⟩
        rintro other ⟨hother, hreaches⟩
        rw [hsettings] at hother
        cases hother
        exact hasks hreaches

/-- All that a run does: it makes its remarks. -/
theorem exists_voice (world : World) :
    ∃ voice, call.IsVoice world voice ∧
      Session.Says call.start (call.remarks world) voice (call.outcome world).session := by
  obtain ⟨voice, hlater, hvoice⟩ := call.exists_says_later world
  cases hjournal : world.journal with
  | none =>
      rw [call.loaded_of_none hjournal] at hvoice
      refine ⟨voice, hvoice, ?_⟩
      rw [remarks, hjournal]
      exact hlater
  | some journal =>
      have hkeeps : ∀ (settings : Settings) (session : Session),
          session.world.journal = some journal →
            withJournal call.start settings session = session :=
        fun settings session hknown => withJournal_of_some hknown
      have hloaded : (call.loaded world).world.journal = some journal :=
        (call.says_loaded world).journal_eq.trans hjournal
      have hsame : voice = call.loaded world := by
        rcases hvoice with ⟨settings, -, rfl⟩ | ⟨-, rfl⟩
        · exact hkeeps settings _ hloaded
        · rfl
      refine ⟨call.begun world, ?_, ?_⟩
      · rcases hvoice with ⟨settings, hreaches, -⟩ | ⟨hstops, -⟩
        · exact Or.inl ⟨settings, hreaches, (hkeeps settings _ hjournal).symm⟩
        · exact Or.inr ⟨hstops, rfl⟩
      · rw [remarks, hjournal]
        exact (call.says_loaded world).append (hsame ▸ hlater)

/-- A journal that is there stays. -/
theorem outcome_journal_of_some {journal : Journal} (hjournal : world.journal = some journal) :
    (call.outcome world).session.world.journal = some journal := by
  have hbegun : (call.begun world).world.journal = some journal := hjournal
  obtain ⟨voice, hvoice, hmakes⟩ := call.exists_voice world
  rw [hmakes.journal_eq]
  rcases hvoice with ⟨settings, -, rfl⟩ | ⟨-, rfl⟩
  · rw [withJournal_of_some hbegun, hbegun]
  · exact hbegun

/-- Where there is no journal, there is one after the run exactly if the run sets it up. -/
theorem outcome_journal_of_none (hnew : world.journal = none) {journal : Journal} :
    (call.outcome world).session.world.journal = some journal ↔ call.SetsUp world journal := by
  have hbegun : (call.begun world).world.journal = none := hnew
  obtain ⟨voice, hvoice, hmakes⟩ := call.exists_voice world
  rw [hmakes.journal_eq]
  rcases hvoice with ⟨settings, hreaches, rfl⟩ | ⟨hstops, rfl⟩
  · rw [withJournal_of_none hbegun]
    refine Journal.setUp_journal_iff.trans ⟨fun hsetup => ⟨settings, hreaches, hsetup⟩, ?_⟩
    rintro ⟨other, hother, hsetup⟩
    cases hreaches.unique hother
    exact hsetup
  · rw [hbegun]
    refine ⟨nofun, ?_⟩
    rintro ⟨settings, hreaches, -⟩
    exact absurd hreaches (hstops settings)

/-- There is still no journal exactly if the run stops before it or does not know the
level. -/
theorem outcome_journal_eq_none_iff (hnew : world.journal = none) :
    (call.outcome world).session.world.journal = none ↔ call.LeavesUnset := by
  constructor
  · intro hnone settings hreaches
    by_contra hlevel
    obtain ⟨threshold, hlevel⟩ := Option.ne_none_iff_exists'.mp hlevel
    obtain ⟨file, -, hfile⟩ :=
      Journal.setUp_of_known hlevel call.start.machine.limits world.toDisk
    have hsets : call.SetsUp world ⟨threshold, file⟩ := ⟨settings, hreaches, hlevel, hfile⟩
    rw [(call.outcome_journal_of_none hnew).mpr hsets] at hnone
    cases hnone
  · intro hunset
    rw [Option.eq_none_iff_forall_ne_some]
    intro journal hjournal
    obtain ⟨settings, hreaches, hlevel, -⟩ := (call.outcome_journal_of_none hnew).mp hjournal
    rw [hunset settings hreaches] at hlevel
    cases hlevel

/-- A level that is not known ends a run that would set up the journal. -/
theorem ending_of_unknown (hnew : world.journal = none) {settings : Settings}
    (hreaches : call.ReachesSetup settings)
    (hlevel : Journal.threshold? settings.logLevel = none) :
    (call.outcome world).ending = .escape (.setup (.unknownLevel settings.logLevel)) := by
  obtain ⟨hsettings, paragraph, path, format, hasks⟩ := hreaches
  have hsetup : (setUpJournal call.start settings (call.loaded world)).2 =
      some (.unknownLevel settings.logLevel) := by
    rw [call.loaded_of_none hnew]
    simp only [setUpJournal, begun, hnew, Journal.setUp_of_unknown hlevel]
  rw [call.outcome_of_settings hsettings, runWith_of_unjournaled hasks hsetup]

/-! ## What is recorded in one run -/

/-- A run that begins in a world makes its remarks, each of them once, in a session in which
nothing has been said or lost.  If it is this run that has set up the journal, its log file
is open; else nothing has happened before. -/
def RecordsOnce (world : World) (after : Session) : Prop :=
  ∃ voice : Session, voice.err = "" ∧ world.toDisk.Grows voice.world.toDisk ∧
    (world.journal = none → ∀ journal ∈ voice.world.journal, ∀ base ∈ journal.file,
      ∃ location, voice.world.tree.OpensAt base.text location) ∧
    (world.journal ≠ none →
      voice.world.toDisk = world.toDisk ∧ voice.world.journal = world.journal) ∧
    Session.Records call.start (call.remarks world) voice after

theorem recordsOnce (world : World) : call.RecordsOnce world (call.outcome world).session := by
  obtain ⟨voice, hvoice, hmakes⟩ := call.exists_voice world
  rcases hvoice with ⟨settings, -, rfl⟩ | ⟨-, rfl⟩
  · obtain ⟨herr, hgrows⟩ := withJournal_keeps call.start settings (call.begun world)
    refine ⟨_, herr, hgrows, exists_opensAt_withJournal call.start settings (call.begun world),
      fun hsome => ?_, hmakes.records⟩
    obtain ⟨journal, hjournal⟩ := Option.ne_none_iff_exists'.mp hsome
    have hbegun : (call.begun world).world.journal = some journal := hjournal
    rw [withJournal_of_some hbegun]
    exact ⟨rfl, rfl⟩
  · refine ⟨_, rfl, Disk.grows_refl _, fun hnew journal hjournal => ?_, fun _ => ⟨rfl, rfl⟩,
      hmakes.records⟩
    rw [begun, hnew] at hjournal
    cases hjournal

end Call

/-! ## The journal in a series of runs -/

theorem worldAfter_journal_of_some {world : World} {journal : Journal}
    (hjournal : world.journal = some journal) (calls : List Call) :
    (worldAfter calls world).journal = some journal := by
  induction calls generalizing world with
  | nil => exact hjournal
  | cons call calls ih => exact ih (call.outcome_journal_of_some hjournal)

theorem worldAfter_journal_eq_none_iff {world : World} (hnew : world.journal = none)
    {calls : List Call} :
    (worldAfter calls world).journal = none ↔ ∀ run ∈ calls, run.LeavesUnset := by
  induction calls generalizing world with
  | nil => exact ⟨fun _ => List.forall_mem_nil _, fun _ => hnew⟩
  | cons first calls ih =>
      rw [worldAfter_cons, List.forall_mem_cons, ← first.outcome_journal_eq_none_iff hnew]
      cases hfirst : (first.outcome world).session.world.journal with
      | some known =>
          rw [worldAfter_journal_of_some hfirst]
          exact ⟨nofun, fun hboth => nomatch hboth.1⟩
      | none =>
          rw [ih hfirst]
          exact ⟨fun hunset => ⟨rfl, hunset⟩, And.right⟩

/-- The induction is on the runs: the first of them either sets up the journal, which then
stays, or it leaves the others as they would be without it. -/
theorem exists_setsUp_of_journal {world : World} (hnew : world.journal = none)
    {calls : List Call} {journal : Journal}
    (hjournal : (worldAfter calls world).journal = some journal) :
    ∃ earlier call later, calls = earlier ++ call :: later ∧
      (∀ run ∈ earlier, run.LeavesUnset) ∧
        call.SetsUp (worldAfter earlier world) journal := by
  induction calls generalizing world with
  | nil =>
      rw [worldAfter, List.foldl_nil, hnew] at hjournal
      cases hjournal
  | cons first calls ih =>
      rw [worldAfter_cons] at hjournal
      cases hfirst : (first.outcome world).session.world.journal with
      | some known =>
          rw [worldAfter_journal_of_some hfirst] at hjournal
          cases hjournal
          have hsets := (first.outcome_journal_of_none hnew).mp hfirst
          exact ⟨[], first, calls, rfl, List.forall_mem_nil _, hsets⟩
      | none =>
          obtain ⟨earlier, call, later, rfl, hunset, hcall⟩ := ih hfirst hjournal
          have hhead := (first.outcome_journal_eq_none_iff hnew).mp hfirst
          exact ⟨first :: earlier, call, later, rfl,
            List.forall_mem_cons.mpr ⟨hhead, hunset⟩, hcall⟩

/-- After a series of runs the journal is the one that the first of them that could has
set up. -/
theorem worldAfter_journal_iff {world : World} (hnew : world.journal = none)
    {calls : List Call} {journal : Journal} :
    (worldAfter calls world).journal = some journal ↔
      ∃ earlier call later, calls = earlier ++ call :: later ∧
        (∀ run ∈ earlier, run.LeavesUnset) ∧
          call.SetsUp (worldAfter earlier world) journal := by
  refine ⟨exists_setsUp_of_journal hnew, ?_⟩
  rintro ⟨earlier, call, later, rfl, hunset, hcall⟩
  have hnone := (worldAfter_journal_eq_none_iff hnew).mpr hunset
  rw [worldAfter_append, worldAfter_cons]
  exact worldAfter_journal_of_some ((call.outcome_journal_of_none hnone).mpr hcall) later

/-! ## The log file in a series of runs -/

/-- The lines that runs hand to the journal, one run after the other. -/
def linesAfter (journal : Journal) : List Call → World → List String
  | [], _ => []
  | call :: calls, world =>
      Remark.lines call.start.stamp (some journal) (call.remarks world) ++
        linesAfter journal calls (call.outcome world).session.world

/-- Over any number of runs every line is added once to the history of the log file, which
may lose something of its beginning. -/
theorem exists_lost_worldAfter {world : World} {journal : Journal} {base : AbsolutePath}
    (hjournal : world.journal = some journal) (hfile : journal.file = some base)
    (hregular : LogFile.IsRegular base world.tree) (calls : List Call) :
    ∃ lost, lost ++ LogFile.history base (worldAfter calls world).tree =
      LogFile.history base world.tree ++
        (linesAfter journal calls world).flatMap Utf8.encode := by
  induction calls generalizing world with
  | nil =>
      refine ⟨[], ?_⟩
      rw [worldAfter, List.foldl_nil, linesAfter, List.nil_append, List.flatMap_nil,
        List.append_nil]
  | cons call calls ih =>
      obtain ⟨voice, -, -, -, hsame, hrecords⟩ := call.recordsOnce world
      obtain ⟨hdisk, hknown⟩ := hsame (by simp [hjournal])
      rw [hjournal] at hknown
      rw [← hdisk] at hregular
      obtain ⟨-, hafter, early, hearly⟩ :=
        hrecords.of_regular journal base hknown hfile hregular
      obtain ⟨late, hlate⟩ := ih (call.outcome_journal_of_some hjournal) hafter
      refine ⟨early ++ late, ?_⟩
      rw [worldAfter_cons, List.append_assoc, hlate, ← List.append_assoc, hearly, hdisk,
        linesAfter, List.flatMap_append, List.append_assoc]

end SqlReach.Command
