import SqlReach.Path
import SqlReach.Register

/-!
# File trees

A file tree holds directories, files, devices and symbolic links by their location.
Walking along a path can fail in the ways in which opening a file fails.
-/

namespace SqlReach

inductive Entry where
  | directory
  | file (content : List UInt8)
  /-- A device without content, which swallows what is written to it. -/
  | sink
  | link (target : String)
deriving DecidableEq

/-- An entry together with everything below it. -/
inductive Node where
  | directory (entries : List (Name × Node))
  | file (content : List UInt8)
  | sink
  | link (target : String)

namespace Node

def entry : Node → Entry
  | directory _ => .directory
  | file content => .file content
  | sink => .sink
  | link target => .link target

def entries : Node → List (Name × Node)
  | directory entries => entries
  | _ => []

/-- The node that names lead to, links not followed. -/
def at? (node : Node) : List Name → Option Node
  | [] => some node
  | name :: rest => (node.entries.lookup name).bind fun inner => inner.at? rest

/-- What becomes of a node when the one that names lead to is changed.  There is no
way through anything but directories. -/
def alter (change : Option Node → Option Node) : Option Node → List Name → Option Node
  | node, [] => change node
  | some (directory entries), name :: rest =>
      some (directory (Register.set name (alter change (entries.lookup name) rest) entries))
  | node, _ :: _ => node

end Node

/-- The node of an entry that has nothing below it. -/
def Entry.node : Entry → Node
  | directory => .directory []
  | file content => .file content
  | sink => .sink
  | link target => .link target

/-- Why an entry could not be reached, opened or made. -/
inductive Fault where
  | notFound
  | alreadyExists
  | notDirectory
  | isDirectory
  | nameTooLong
  | linkLoop
deriving DecidableEq

namespace Fault

def reason : Fault → String
  | notFound => "No such file or directory"
  | alreadyExists => "File exists"
  | notDirectory => "Not a directory"
  | isDirectory => "Is a directory"
  | nameTooLong => "File name too long"
  | linkLoop => "Too many levels of symbolic links"

/-- The number of the fault in the numbering of the operating system. -/
def code : Fault → Nat
  | notFound => 2
  | alreadyExists => 17
  | notDirectory => 20
  | isDirectory => 21
  | nameTooLong => 36
  | linkLoop => 40

/-- The message of the operating system, without the path that it is about. -/
def message (fault : Fault) : String :=
  "[Errno " ++ toString fault.code ++ "] " ++ fault.reason

end Fault

/-- What the root directory holds, with everything below it. -/
structure FileTree where
  entries : List (Name × Node) := []

namespace FileTree

def root (tree : FileTree) : Node :=
  .directory tree.entries

def nodeAt? (tree : FileTree) (location : Location) : Option Node :=
  tree.root.at? location.names

def find? (tree : FileTree) (location : Location) : Option Entry :=
  (tree.nodeAt? location).map Node.entry

/-- Changes what is at a location; nothing happens if it is in no directory. -/
def alter (tree : FileTree) (change : Option Node → Option Node) (location : Location) :
    FileTree :=
  match Node.alter change (some tree.root) location.names with
  | some (.directory entries) => ⟨entries⟩
  | _ => tree

/-- Stores an entry, with nothing below it. -/
def put (tree : FileTree) (location : Location) (entry : Entry) : FileTree :=
  tree.alter (fun _ => some entry.node) location

/-- Takes away what is at a location. -/
def remove (tree : FileTree) (location : Location) : FileTree :=
  tree.alter (fun _ => none) location

/-- Takes what is at a location, with everything below it, to another one, where it
replaces what is there. -/
def move (tree : FileTree) (source target : Location) : FileTree :=
  (tree.remove source).alter (fun _ => tree.nodeAt? source) target

/-- Makes a directory at a location that is free. -/
def ensureDirectory (tree : FileTree) (location : Location) : FileTree :=
  if (tree.find? location).isSome then tree else tree.put location .directory

/-- Stores an entry and makes the directories that lead to it. -/
def plant (tree : FileTree) (location : Location) (entry : Entry) : FileTree :=
  let step := fun (made : FileTree × Location) name =>
    (made.1.ensureDirectory (made.2.child name), made.2.child name)
  (location.names.dropLast.foldl step (tree, .root)).1.put location entry

/-! ## Walking -/

/-- A working directory: one that is in the tree, or one that has been removed with
the `lost` directories around it, out of the directory at the location. -/
structure Directory where
  location : Location
  lost : Nat := 0
deriving DecidableEq

def Directory.root : Directory where
  location := .root

/-- Where a walk ends: at an entry, or at a name that is free in a directory. -/
inductive Place where
  | found (location : Location) (entry : Entry)
  | free (location : Location)

/-- The longest name, in bytes. -/
def nameLimit : Nat := 255

/-- The longest path, in bytes. -/
def pathLimit : Nat := 4095

/-- How many links a single walk follows. -/
def linkLimit : Nat := 40

/-- How deep calls can be nested when the program runs.  It depends on how the program
was started how many of them are left. -/
structure Limits where
  /-- How many links can be met while the target of another one is being resolved. -/
  links : Nat := 990
  /-- How many missing directories can be made within one another. -/
  directories : Nat := 990
  /-- The longest path at which a link is seen while a path is being resolved. -/
  path : Option Nat := some pathLimit

def nestingMessage : String := "maximum recursion depth exceeded"

/-- What a walk is for, which decides about the last name. -/
inductive Purpose where
  /-- To look at what is there: a link is followed. -/
  | look
  /-- To make, move or remove an entry: a link is an entry of its own. -/
  | change
  /-- To open a file that may have to be made: a link is followed, and a slash
  behind the name asks for a directory, which cannot be opened. -/
  | openFile
deriving DecidableEq

/-- Walks along names from the directory `here`, following at most `links`
links. -/
def walkNames (tree : FileTree) (purpose : Purpose) (links : Nat) (here : Location)
    (names : List String) : Except Fault Place :=
  match names with
  | [] => .ok (.found here .directory)
  | text :: rest =>
      if text = "" ∨ text = "." then tree.walkNames purpose links here rest
      else if text = ".." then tree.walkNames purpose links here.parent rest
      else if purpose = .openFile ∧ rest ≠ [] ∧ rest.all (· = "") then .error .isDirectory
      else if nameLimit < text.utf8ByteSize then .error .nameTooLong
      else
        match Name.ofText? text with
        | none => .error .notFound
        | some name =>
            match tree.find? (here.child name) with
            | none => if rest.all (· = "") then .ok (.free (here.child name)) else .error .notFound
            | some .directory => tree.walkNames purpose links (here.child name) rest
            | some (.link target) =>
                if rest = [] ∧ purpose = .change then
                  .ok (.found (here.child name) (.link target))
                else
                  match links with
                  | 0 => .error .linkLoop
                  | links + 1 =>
                      tree.walkNames purpose links (Path.origin here target)
                        (Path.names target ++ rest)
            | some entry =>
                if rest = [] then .ok (.found (here.child name) entry) else .error .notDirectory
termination_by (links, names.length)

/-- Walks along names from a directory that has been removed, in which nothing is to
be found. -/
def walkLost (tree : FileTree) (purpose : Purpose) (here : Location) :
    Nat → List String → Except Fault Place
  | 0, names => tree.walkNames purpose linkLimit here names
  | _ + 1, [] => .ok (.found here .directory)
  | lost + 1, text :: rest =>
      if text = "" ∨ text = "." then tree.walkLost purpose here (lost + 1) rest
      else if text = ".." then tree.walkLost purpose here lost rest
      else .error .notFound

/-- Walks along a path from a directory. -/
def walk (tree : FileTree) (purpose : Purpose) (directory : Directory) (path : String) :
    Except Fault Place :=
  if path = "" then .error .notFound
  else if pathLimit < path.utf8ByteSize then .error .nameTooLong
  else if Path.isAbsolute path then tree.walkNames purpose linkLimit .root (Path.names path)
  else tree.walkLost purpose directory.location directory.lost (Path.names path)

/-- The entry that a path leads to, all links followed. -/
def lookAt (tree : FileTree) (directory : Directory) (path : String) : Option Entry :=
  match tree.walk .look directory path with
  | .ok (.found _ entry) => some entry
  | _ => none

/-- The content of the file that a path leads to. -/
def contentAt (tree : FileTree) (directory : Directory) (path : String) :
    Except Fault (List UInt8) :=
  match tree.walk .look directory path with
  | .error fault => .error fault
  | .ok (.free _) => .error .notFound
  | .ok (.found _ (.file content)) => .ok content
  | .ok (.found _ .sink) => .ok []
  | .ok (.found _ _) => .error .isDirectory

end FileTree

end SqlReach
