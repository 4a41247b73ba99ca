import SqlReach.Disk

/-!
# Making directories

A directory is made together with the directories on the way to it.  First the
paths that lead nowhere are gathered, from the longest to the shortest; then
their directories are made one within the other.
-/

namespace SqlReach

namespace FileTree

/-- Why a directory could not be made. -/
inductive Obstacle where
  /-- The path holds a null character. -/
  | nullByte
  /-- Too many directories on the way are missing. -/
  | tooDeep
  /-- The fault, with the path as it was given. -/
  | fault (path : String) (cause : Fault)
deriving DecidableEq

def Obstacle.isExisting : Obstacle → Bool
  | fault _ .alreadyExists => true
  | _ => false

/-- A directory to be made.  If the directory in front of it is to be made as
well, `name` is the name that follows there. -/
structure Step where
  path : String
  name : Option String

/-- Splits off the last name of a path, slashes at its end aside. -/
def lastName (path : String) : String × String :=
  let parts := Path.split path
  if parts.2 = "" then Path.split parts.1 else parts

/-- The steps to a path, the last one first: a directory has to be made, and so
have those on the way that are not there.  At most `limit` steps are gathered. -/
def missing (tree : FileTree) (directory : Directory) : Nat → String → List Step
  | 0, _ => []
  | limit + 1, path =>
      let (head, tail) := lastName path
      if head = "" ∨ tail = "" ∨ (tree.lookAt directory head).isSome then [⟨path, none⟩]
      else ⟨path, some tail⟩ :: missing tree directory limit head

/-- Where a step leads.  If the directory in front of it has just been made, that
is where the walk begins. -/
def walkStep (tree : FileTree) (directory : Directory) (reached : Option Location)
    (step : Step) : Except Fault Place :=
  match reached, step.name with
  | some here, some name =>
      if pathLimit < step.path.utf8ByteSize then .error .nameTooLong
      else tree.walkNames .change linkLimit here [name]
  | _, _ => tree.walk .change directory step.path

end FileTree

namespace Disk

open FileTree

/-- Makes the directory of a step, and says where it is or what is in the way. -/
def makeStep (disk : Disk) (reached : Option Location) (step : Step) :
    Except Obstacle (Disk × Location) :=
  if Path.hasNull step.path then .error .nullByte
  else
    match disk.tree.walkStep disk.directory reached step >>= disk.makeDirectory with
    | .ok made => .ok made
    | .error cause => .error (.fault step.path cause)

/-- Makes the directories of the steps.  What has been made stays, also when a
later step fails.  A directory on the way that turns out to exist is no obstacle,
and a name that stays in the same place asks for nothing. -/
def makeSteps (disk : Disk) (reached : Option Location) : List Step → Disk × Option Obstacle
  | [] => (disk, none)
  | step :: rest =>
      if step.name = some "." then makeSteps disk reached rest
      else
        match disk.makeStep reached step with
        | .ok (disk, location) => makeSteps disk (some location) rest
        | .error obstacle =>
            if obstacle.isExisting ∧ rest ≠ [] then makeSteps disk none rest
            else (disk, some obstacle)

/-- Makes a directory and at most `limit` directories in all. -/
def makeDirectories (disk : Disk) (limit : Nat) (path : String) : Disk × Option Obstacle :=
  let steps := disk.tree.missing disk.directory (limit + 1) path
  if limit < steps.length then (disk, some .tooDeep) else disk.makeSteps none steps.reverse

end Disk

end SqlReach
