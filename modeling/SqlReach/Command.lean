import SqlReach.Help
import SqlReach.Journal.LogFile
import SqlReach.Journal.Trace
import SqlReach.Report.Flowchart
import SqlReach.Report.Json
import SqlReach.Report.Listing
import SqlReach.Source

/-!
# The command

A run of the command loads its settings, reads its arguments, sets up the
journal, resolves and reads the source file, and prints a report.  Its exit
status is zero only if the report could be made and no paragraph within reach
uses SQL.  Several runs can follow one another; the disk, the environment and
the journal carry over.
-/

namespace SqlReach

/-- What the machine that a run takes place on brings along: what it needs for reading,
and the texts that tell how the program got to a failure. -/
structure Machine extends Reader where
  /-- The traceback of a source that could not be read. -/
  traceback : Source.ReadError → String := fun _ => ""
  /-- What is said on the terminal when a line could not be logged. -/
  complaint : String → Fault → String := fun _ _ => ""

/-- The reader of the source, which is called from two calls further on. -/
def Machine.inner (machine : Machine) : Reader :=
  { machine.toReader with limits.links := machine.limits.links - 2 }

/-- How the command was started, and the time that its events are stamped with. -/
structure Command.Start where
  machine : Machine := {}
  origin : Origin := .command
  stamp : String

/-- What carries over from one run to the next. -/
structure World extends Disk where
  environment : Environment := {}
  /-- The journal, once it is set up. -/
  journal : Option Journal := none

/-- A run in progress: the world and what has been printed. -/
structure Session where
  world : World
  out : String := ""
  err : String := ""

namespace Session

def print (session : Session) (text : String) : Session :=
  { session with out := session.out ++ text ++ "\n" }

def complain (session : Session) (text : String) : Session :=
  { session with err := session.err ++ text ++ "\n" }

def withDisk (session : Session) (disk : Disk) : Session :=
  { session with world := { session.world with toDisk := disk } }

/-- Hands a line to the log file.  If it cannot be logged, that is said on the
terminal. -/
def log (machine : Machine) (base : AbsolutePath) (line : String) (session : Session) : Session :=
  match LogFile.log base line session.world.toDisk with
  | (disk, none) => session.withDisk disk
  | (disk, some fault) =>
      { session.withDisk disk with err := session.err ++ machine.complaint line fault }

/-- Writes a line of the journal to the terminal and to the log file, if there is one. -/
def write (machine : Machine) (journal : Journal) (session : Session) (line : String) : Session :=
  let session := { session with err := session.err ++ line }
  match journal.file with
  | none => session
  | some base => session.log machine base line

/-- Records an event, if there is a journal that accepts it. -/
def record (start : Command.Start) (session : Session) (event : Event) : Session :=
  match session.world.journal with
  | none => session
  | some journal =>
      if journal.accepts event then
        session.write start.machine journal (event.line start.stamp)
      else session

end Session

/-- Why a run ended without an exit status. -/
inductive Escape where
  | setup (cause : Journal.SetupError)
  | unresolved (cause : FileTree.ResolveError)
  /-- There is a report to print, but no format to print it in. -/
  | noFormat

def Escape.message : Escape → String
  | setup cause => cause.message
  | unresolved cause => cause.message
  | noFormat => "unhashable type: 'list'"

inductive Ending where
  | exit (status : Nat)
  | escape (cause : Escape)
  /-- There are no settings, so that the run did not begin. -/
  | invalidSettings (cause : Settings.Invalid)

/-- A run that has ended. -/
structure Outcome where
  ending : Ending
  session : Session

namespace Command

/-- Sets up the journal, unless an earlier run did. -/
def setUpJournal (start : Start) (settings : Settings) (session : Session) :
    Session × Option Journal.SetupError :=
  match session.world.journal with
  | some _ => (session, none)
  | none =>
      let setup := Journal.setUp start.machine.limits session.world.toDisk settings
      let world := { session.world with toDisk := setup.disk, journal := setup.journal }
      let session := { session with world }
      match setup.failure with
      | some cause => (session, some cause)
      | none => (session.record start Trace.configured, none)

/-- The report in a format.  The number of paragraphs, the only number in it, is far
from the length at which an integer cannot be written. -/
def render : Format → Analysis → String
  | .text => Report.text
  | .json => Report.json
  | .mermaid => Report.flowchart

/-- The line behind a text report. -/
def conclude (session : Session) (usesSql : Bool) : Session :=
  if usesSql then session.complain "ERROR: EXEC SQL found in the call tree."
  else session.print "SUCCESS: No EXEC SQL found in the call tree."

/-- Prints the report; the exit status says whether SQL is within reach. -/
def report (format : Option Format) (analysis : Analysis) (session : Session) : Outcome :=
  match format with
  | none => ⟨.escape .noFormat, session⟩
  | some format =>
      let session := session.print (render format analysis)
      { ending := .exit (if analysis.usesSql then 1 else 0)
        session := if format = .text then conclude session analysis.usesSql else session }

/-- Reports that the source file could not be read or decoded. -/
def fail (start : Start) (path : AbsolutePath) (cause : Source.ReadError) (session : Session) :
    Outcome :=
  match cause with
  | .unreadable unread fault =>
      let session := session.record start (Trace.unreadable start.origin unread)
      let reason := (Source.ReadError.unreadable unread fault).message
      ⟨.exit 1, session.complain ("Error reading file: " ++ reason)⟩
  | cause =>
      let traceback := start.machine.traceback cause
      ⟨.exit 1, session.record start (Trace.failed start.origin path cause.message traceback)⟩

/-- Reads and analyses the source at a path that has been resolved.  The path is
resolved once more on reading. -/
def analyzeAt (start : Start) (settings : Settings) (paragraph : String)
    (format : Option Format) (path : AbsolutePath) (session : Session) : Outcome :=
  let reader := start.machine.inner
  match session.world.tree.resolve reader.limits session.world.directory path.text with
  | .error cause => fail start path (.unresolved cause) session
  | .ok source =>
      let session := session.record start (Trace.reading source)
      match Source.readAt reader.codecs session.world.tree settings.sourceEncoding source with
      | .error cause => fail start path cause session
      | .ok text =>
          let survey := Survey.ofText text paragraph
          let session := (Trace.ofSurvey survey).foldl (Session.record start) session
          report format (survey.analysis (some path.text)) session

/-- An analysis of a file, from the journal to the report. -/
def analyzePath (start : Start) (settings : Settings) (paragraph path : String)
    (format : Option Format) (session : Session) : Outcome :=
  match setUpJournal start settings session with
  | (session, some cause) => ⟨.escape (.setup cause), session⟩
  | (session, none) =>
      match session.world.tree.resolve start.machine.limits session.world.directory path with
      | .error cause => ⟨.escape (.unresolved cause), session⟩
      | .ok resolved => analyzeAt start settings paragraph format resolved session

def runWith (start : Start) (settings : Settings) (arguments : List String) (session : Session) :
    Outcome :=
  match Arguments.parse settings.outputFormat arguments with
  | .error refusal =>
      ⟨.exit 1, { session with err := session.err ++ Arguments.refusalText refusal }⟩
  | .ok .help =>
      let layout := Help.Layout.ofColumns (Help.columns session.world.environment)
      ⟨.exit 0, { session with out := session.out ++ Help.page layout settings.outputFormat }⟩
  | .ok (.analysis paragraph path format) =>
      match paragraph.filter (· ≠ ""), path.filter (· ≠ "") with
      | some paragraph, some path => analyzePath start settings paragraph path format session
      | _, _ => ⟨.exit 1, session.complain ("Usage: " ++ Arguments.usage)⟩

/-- A run of the command once its settings have been loaded. -/
def runLoaded (start : Start) (loading : Settings.Loading) (arguments : List String)
    (world : World) : Outcome :=
  let session := (loading.unread.map Trace.unreadStatement).foldl (Session.record start) { world }
  match loading.settings with
  | .error cause => ⟨.invalidSettings cause, session⟩
  | .ok settings => runWith start settings arguments session

/-- A run of the command in a world, which the settings come from. -/
def run (start : Start) (arguments : List String) (world : World) : Outcome :=
  runLoaded start (Settings.loadIn world.tree world.directory world.environment) arguments world

end Command

end SqlReach
