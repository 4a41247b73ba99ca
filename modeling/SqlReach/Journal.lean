import SqlReach.FileTree.Directories
import SqlReach.Settings
import SqlReach.Text.Quoted
import SqlReach.Text.UpperCase

/-!
# The journal

What the program does is recorded as events.  The journal is set up at most
once: its threshold and its log file are fixed by the first run that gets that
far, and later settings do not change them.  An event at or above the threshold
is written to the terminal and, if there is one, to the log file.
-/

namespace SqlReach

inductive Severity where
  | debug
  | info
  | warning
  | critical
deriving DecidableEq

namespace Severity

def rank : Severity → Nat
  | debug => 10
  | info => 20
  | warning => 30
  | critical => 50

def label : Severity → String
  | debug => "DEBUG"
  | info => "INFO"
  | warning => "WARNING"
  | critical => "CRITICAL"

end Severity

/-- The part of the program that an event comes from. -/
inductive Origin where
  | setup
  | settings
  | reading
  | scanning
  | expanding
  | judging
  | command
  /-- The command, when it is the program itself that was started. -/
  | program
deriving DecidableEq

def Origin.label : Origin → String
  | setup => "root"
  | settings => "dotenv.main"
  | reading => "performscan.pipeline.source_loader"
  | scanning => "performscan.analysis.section_scanner"
  | expanding => "performscan.analysis.call_tree"
  | judging => "performscan.analysis.analyzer"
  | command => "performscan.cli.analyze"
  | program => "__main__"

structure Event where
  severity : Severity
  origin : Origin
  message : String
deriving DecidableEq

/-- The line of an event; `stamp` is the time at which it is written. -/
def Event.line (stamp : String) (event : Event) : String :=
  stamp ++ " - " ++ event.origin.label ++ " - " ++ event.severity.label ++ " - " ++
    event.message ++ "\n"

/-- How a journal has been set up. -/
structure Journal where
  /-- The least rank that is written. -/
  threshold : Nat
  /-- The path of the log file. -/
  file : Option AbsolutePath
deriving DecidableEq

namespace Journal

def accepts (journal : Journal) (event : Event) : Bool :=
  journal.threshold ≤ event.severity.rank

/-- The levels by name, each with the least rank that it lets through. -/
def levels : List (String × Nat) :=
  [("NOTSET", 0), ("DEBUG", 10), ("INFO", 20), ("WARNING", 30), ("WARN", 30), ("ERROR", 40),
    ("CRITICAL", 50), ("FATAL", 50)]

/-- The threshold that a level stands for, whatever the case of its letters. -/
def threshold? (level : String) : Option Nat :=
  levels.lookup (Text.upper level)

inductive SetupError where
  | unknownLevel (level : String)
  | nullByte
  /-- The path of the log file is relative, and the working directory has been removed. -/
  | noDirectory
  /-- Too many directories on the way to the log file are missing. -/
  | tooDeep
  /-- The log file, or a directory on the way to it, could not be opened or made. -/
  | unopened (path : String) (fault : Fault)

def SetupError.message : SetupError → String
  | unknownLevel level => "Unknown level: " ++ Text.quoted (Text.upper level)
  | nullByte => "embedded null byte"
  | noDirectory => Fault.notFound.message
  | tooDeep => FileTree.nestingMessage
  | unopened path fault => fault.message ++ ": " ++ Text.quoted path

/-- Makes the directory of a log file if it is not there. -/
def makeLogDirectory (limits : FileTree.Limits) (disk : Disk) (path : String) :
    Disk × Option SetupError :=
  let head := (Path.split path).1
  if head = "" ∨ (disk.tree.lookAt disk.directory head).isSome then (disk, none)
  else
    match disk.makeDirectories limits.directories head with
    | (disk, none) => (disk, none)
    | (disk, some .nullByte) => (disk, some .nullByte)
    | (disk, some .tooDeep) => (disk, some .tooDeep)
    | (disk, some (.fault blocked fault)) => (disk, some (.unopened blocked fault))

/-- Opens the log file, whose path is taken by its text alone. -/
def openLog (limits : FileTree.Limits) (disk : Disk) (path : String) :
    Disk × Except SetupError AbsolutePath :=
  match makeLogDirectory limits disk path with
  | (disk, some cause) => (disk, .error cause)
  | (disk, none) =>
      if ¬ Path.isAbsolute path ∧ disk.directory.lost ≠ 0 then (disk, .error .noDirectory)
      else
        match Path.absolute? disk.directory.location path with
        | none => (disk, .error .nullByte)
        | some base =>
            match disk.openAppend base.text with
            | .error fault => (disk, .error (.unopened base.text fault))
            | .ok (disk, _) => (disk, .ok base)

/-- The path of the log file that the settings ask for. -/
def logPath? (settings : Settings) : Option String :=
  settings.logFile.filter (· ≠ "")

/-- A journal that is set up, or the reason why it could not be set up as asked. -/
structure Setup where
  disk : Disk
  journal : Option Journal
  failure : Option SetupError := none

/-- Sets up a journal for the first time.  A level that is unknown leaves nothing
behind; a log file that cannot be opened leaves a journal without one. -/
def setUp (limits : FileTree.Limits) (disk : Disk) (settings : Settings) : Setup :=
  match threshold? settings.logLevel with
  | none => { disk, journal := none, failure := some (.unknownLevel settings.logLevel) }
  | some threshold =>
      match logPath? settings with
      | none => { disk, journal := some ⟨threshold, none⟩ }
      | some path =>
          match openLog limits disk path with
          | (disk, .error cause) =>
              { disk, journal := some ⟨threshold, none⟩, failure := some cause }
          | (disk, .ok base) => { disk, journal := some ⟨threshold, some base⟩ }

end Journal

end SqlReach
