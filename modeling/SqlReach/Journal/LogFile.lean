import SqlReach.Disk
import SqlReach.Encoding.Utf8

/-!
# The log file

What is logged is written at the end of the log file.  A line that would fill the file
up to its limit is the first one of a new file: the old one becomes the first backup,
every backup moves up by one, and what was the last one is lost.  Nothing is moved over
what cannot be removed, and then the line is not logged.
-/

namespace SqlReach.LogFile

/-- The size, in bytes, that a log file does not reach. -/
def sizeLimit : Nat := 10 * 1024 * 1024

/-- The number of backups that are kept. -/
def backups : Nat := 5

/-- The path of a backup; the greater its number, the older it is.  The log file itself
comes first. -/
def part (base : AbsolutePath) (number : Nat) : String :=
  if number = 0 then base.text else base.text ++ "." ++ toString number

/-- Removes what a path leads to, if it leads anywhere. -/
def clear (path : String) (disk : Disk) : Disk × Option Fault :=
  if disk.leads path then disk.unlink path else (disk, none)

/-- Makes a backup the next older one, if it is there. -/
def shift (base : AbsolutePath) (number : Nat) (disk : Disk) : Disk × Option Fault :=
  if disk.leads (part base number) then
    match clear (part base (number + 1)) disk with
    | (disk, some fault) => (disk, some fault)
    | (disk, none) => disk.rename (part base number) (part base (number + 1))
  else (disk, none)

/-- Makes every backup up to a number the next older one, the oldest first. -/
def shiftAll (base : AbsolutePath) : Nat → Disk → Disk × Option Fault
  | 0, disk => (disk, none)
  | number + 1, disk =>
      match shift base (number + 1) disk with
      | (disk, some fault) => (disk, some fault)
      | (disk, none) => shiftAll base number disk

/-- Makes the log file the first backup.  Unlike a backup that is shifted, it makes room
for itself even if it leads nowhere any more. -/
def retire (base : AbsolutePath) (disk : Disk) : Disk × Option Fault :=
  match clear (part base 1) disk with
  | (disk, some fault) => (disk, some fault)
  | (disk, none) =>
      if disk.leads base.text then disk.rename base.text (part base 1) else (disk, none)

/-- Turns the log file and its backups into backups. -/
def rollOver (base : AbsolutePath) (disk : Disk) : Disk × Option Fault :=
  match shiftAll base (backups - 1) disk with
  | (disk, some fault) => (disk, some fault)
  | (disk, none) => retire base disk

/-- Writes a line at the end of the log file, which is made if it is not there. -/
def write (base : AbsolutePath) (line : String) (disk : Disk) : Disk × Option Fault :=
  match disk.openAppend base.text with
  | .error fault => (disk, some fault)
  | .ok (disk, location) => (disk.append location (Utf8.encode line), none)

/-- Whether a line has no place in the log file at a location.  Its characters are
counted, where what is in the file already counts in bytes; and there is always place in
what is no file. -/
def isFull (disk : Disk) (location : Location) (line : String) : Bool :=
  match disk.tree.find? location with
  | some (.file content) => sizeLimit ≤ content.length + line.length
  | _ => false

/-- Logs a line, and says what kept it from being logged. -/
def log (base : AbsolutePath) (line : String) (disk : Disk) : Disk × Option Fault :=
  match disk.openAppend base.text with
  | .error fault => (disk, some fault)
  | .ok (disk, location) =>
      if isFull disk location line then
        match rollOver base disk with
        | (disk, some fault) => (disk, some fault)
        | (disk, none) => write base line disk
      else (disk.append location (Utf8.encode line), none)

end SqlReach.LogFile
