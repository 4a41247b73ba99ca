import SqlReach.Command
import Std.Time

/-!
# The program

The program takes a picture of the part of the file tree that a run can see,
runs the command on it, and carries out what the run printed and logged.
-/

open SqlReach

/-- The entry at a location, if the operating system knows it. -/
def observe (location : Location) : IO (Option Entry) := do
  try
    let real ← IO.FS.realPath location.text
    if real.toString ≠ location.text then return some (.link real.toString)
    match (← real.metadata).type with
    | .dir => return some .directory
    | .file => return some (.file (← IO.FS.readBinFile real).toList)
    | _ => return some .sink
  catch _ => return none

/-- Adds what stands at a location and on the way to it. -/
def picture (tree : FileTree) (location : Location) : IO FileTree := do
  let mut tree := tree
  let mut here := Location.root
  for name in location.names do
    here := here.child name
    if (tree.find? here).isNone then
      if let some entry ← observe here then
        tree := tree.put here entry
  return tree

/-- The picture of a path, and of what it leads to behind its links. -/
def picturePath (directory : Location) (tree : FileTree) (path : String) : IO FileTree := do
  let some absolute := Path.absolute? directory path | return tree
  let tree ← picture tree absolute.location
  try
    let real ← IO.FS.realPath absolute.text
    let some location := Path.lexical? .root real.toString | return tree
    picture tree location
  catch _ => return tree

/-- The working directory.  One that has no path any more has been removed. -/
def workingDirectory : IO FileTree.Directory := do
  let removed : FileTree.Directory := { location := .root, lost := 1 }
  try
    let path ← IO.currentDir
    return ((Path.lexical? .root path.toString).map fun location => { location }).getD removed
  catch _ => return removed

/-- The world of a run. -/
def worldIn (tree : FileTree) (directory : FileTree.Directory) (environment : Environment) :
    World :=
  if hstanding : tree.find? directory.location = some .directory then
    { tree, directory, standing := hstanding, environment }
  else { tree, directory := { location := .root, lost := 1 }, environment }

def settingNames : List String :=
  ["LOG_LEVEL", "LOG_FILE", "SOURCE_ENCODING", "OUTPUT_FORMAT"]

/-- The variables that the environment file refers to. -/
def referredNames (tree : FileTree) (directory : FileTree.Directory) : List String :=
  match Settings.envFile tree directory with
  | .ok file => file.bindings.flatMap fun binding =>
      EnvFile.namesIn (binding.value.getD "").toList
  | .error _ => []

/-- The environment can only be asked by name, so both usual spellings of every
setting are tried. -/
def readEnvironment (referred : List String) : IO Environment := do
  let mut environment : Environment := {}
  for name in settingNames ++ settingNames.map Settings.folded ++ "COLUMNS" :: referred do
    if let some value ← IO.getEnv name then
      environment := environment.set name value
  return environment

/-- The paths of a log file and its backups. -/
def logParts (base : AbsolutePath) : List String :=
  (List.range (LogFile.backups + 1)).map (LogFile.part base)

/-- The paths that a run may open to log something. -/
def logPaths (tree : FileTree) (directory : FileTree.Directory) (environment : Environment) :
    List String :=
  match (Settings.loadIn tree directory environment).settings with
  | .ok settings =>
      let base := settings.logFile.bind (Path.absolute? directory.location)
      (base.map logParts).getD []
  | .error _ => []

/-- Makes the log file and its backups what they are after the run. -/
def saveLog (before after : World) : IO Unit := do
  let some base := after.journal.bind (·.file) | return
  IO.FS.createDirAll base.location.parent.text
  for path in logParts base do
    let earlier := before.tree.lookAt .root path
    match after.tree.lookAt .root path with
    | some (.file content) =>
        if earlier ≠ some (.file content) then IO.FS.writeBinFile path content.toByteArray
    | some _ => pure ()
    | none => if earlier.isSome then IO.FS.removeFile path

def main (arguments : List String) : IO UInt32 := do
  let directory ← workingDirectory
  let mut tree ← picture {} directory.location
  tree ← picturePath directory.location tree ".env"
  let environment ← readEnvironment (referredNames tree directory)
  for path in arguments ++ logPaths tree directory environment do
    tree ← picturePath directory.location tree path
  let stamp := (← Std.Time.PlainDateTime.now).format "uuuu-MM-dd HH:mm:ss,SSS"
  let world := worldIn tree directory environment
  let outcome := Command.run { origin := .program, stamp } arguments world
  for line in (Settings.loadIn tree directory environment).unread do
    IO.eprintln (Trace.unreadStatement line).message
  saveLog world outcome.session.world
  IO.print outcome.session.out
  IO.eprint outcome.session.err
  match outcome.ending with
  | .exit status => return status.toUInt32
  | .escape cause =>
      IO.eprintln cause.message
      return 1
  | .invalidSettings cause =>
      IO.eprintln cause.message
      return 1
