import SqlReach.FileTree

/-!
# Resolving paths

Resolving a path gives the location that it leads to once its links are
replaced by their targets, name by name from the left.  Names that lead nowhere
are kept, so a path need not exist to be resolved.  A relative path stays
relative while its links are replaced, and it is only made absolute in the end,
for which the working directory must not have been removed.

Links are remembered by the text of the path at which they were met.  A link met
while its own target is being resolved cannot be replaced: then the parts of the
path and of the targets that are not yet resolved are joined as their texts say,
and a path that still runs into a cycle is refused.
-/

namespace SqlReach.FileTree

/-- A path in which nothing is left to replace: names behind the root, or behind a
directory some levels above the working directory. -/
structure Spot where
  above : Option Nat
  names : List Name := []
deriving DecidableEq

namespace Spot

def root : Spot where
  above := none

def here : Spot where
  above := some 0

def child (spot : Spot) (name : Name) : Spot :=
  { spot with names := spot.names ++ [name] }

/-- The spot around another one, by its text alone. -/
def parent (spot : Spot) : Spot :=
  if spot.names = [] then { spot with above := spot.above.map (· + 1) }
  else { spot with names := spot.names.dropLast }

def text (spot : Spot) : String :=
  let names := spot.names.map Name.text
  match spot.above with
  | none => "/" ++ "/".intercalate names
  | some levels => "/".intercalate (List.replicate levels ".." ++ names)

/-- Where a path begins that is met at a spot. -/
def origin (spot : Spot) (path : String) : Spot :=
  if Path.isAbsolute path then root else spot

/-- The place of a spot in the file tree.  There is none in a directory that has been
removed. -/
def place? (directory : Directory) (spot : Spot) : Option Location :=
  match spot.above with
  | none => some ⟨spot.names⟩
  | some levels =>
      if levels < directory.lost then none
      else some ((directory.location.ancestor (levels - directory.lost)).append spot.names)

/-- The absolute form of a spot, unless it would lead through a directory that has been
removed. -/
def absolute? (directory : Directory) (spot : Spot) : Option AbsolutePath :=
  if spot.above.isSome ∧ directory.lost ≠ 0 then none
  else (spot.place? directory).map fun location => { location }

end Spot

/-- Why a path could not be resolved. -/
inductive ResolveError where
  | nullByte
  /-- The path is relative, and the working directory has been removed. -/
  | noDirectory
  | linkLoop (path : AbsolutePath)
  /-- Too many links are met while the targets of others are being resolved. -/
  | tooDeep
deriving DecidableEq

/-- What following names comes to. -/
inductive Reached where
  | arrived (spot : Spot)
  /-- A link was met within its own target: the text of what is left. -/
  | abandoned (text : String)

/-- The links met so far, the latest first, each with the spot that it leads to once that
is known. -/
abbrev Links := List (Spot × Option Spot)

abbrev Follower := Spot → List String → Links → Except ResolveError (Reached × Links)

/-- Follows names from a spot.  What a spot links to is given by `linkAt`, and the targets
of links that are met for the first time are followed by `followTarget`. -/
def followNames (linkAt : Spot → Option String) (followTarget : Follower) : Follower
  | spot, [], links => .ok (.arrived spot, links)
  | spot, text :: rest, links =>
      if text = "" ∨ text = "." then followNames linkAt followTarget spot rest links
      else if text = ".." then followNames linkAt followTarget spot.parent rest links
      else
        match Name.ofText? text with
        | none => .error .nullByte
        | some name =>
            match linkAt (spot.child name) with
            | none => followNames linkAt followTarget (spot.child name) rest links
            | some target =>
                match links.lookup (spot.child name) with
                | some (some settled) => followNames linkAt followTarget settled rest links
                | some none =>
                    .ok (.abandoned (Path.join (spot.child name).text ("/".intercalate rest)),
                      links)
                | none =>
                    match followTarget (spot.origin target) (Path.names target)
                      ((spot.child name, none) :: links) with
                    | .error cause => .error cause
                    | .ok (.abandoned text, links) =>
                        .ok (.abandoned (Path.join text ("/".intercalate rest)), links)
                    | .ok (.arrived there, links) =>
                        followNames linkAt followTarget there rest
                          ((spot.child name, some there) :: links)

/-- Follows names and the links that are met, at most `nested - 1` of them within each
other. -/
def followLinks (linkAt : Spot → Option String) : Nat → Follower
  | 0 => fun _ _ _ => .error .tooDeep
  | nested + 1 => followNames linkAt (followLinks linkAt nested)

/-- The target of the link at a spot. -/
def linkAt (tree : FileTree) (limits : Limits) (directory : Directory) (spot : Spot) :
    Option String :=
  if limits.path.any (· < spot.text.utf8ByteSize) then none
  else
    match (spot.place? directory).bind tree.find? with
    | some (.link target) => some target
    | _ => none

/-- The absolute form of what was reached. -/
def Reached.absolute (directory : Directory) : Reached → Except ResolveError AbsolutePath
  | .arrived spot =>
      match spot.absolute? directory with
      | none => .error .noDirectory
      | some path => .ok path
  | .abandoned text =>
      if ¬ Path.isAbsolute text ∧ directory.lost ≠ 0 then .error .noDirectory
      else
        match Path.absolute? directory.location text with
        | none => .error .nullByte
        | some path => .ok path

/-- Replaces the links of a path, in which repeated slashes count once. -/
def replaceLinks (tree : FileTree) (limits : Limits) (directory : Directory) (path : String) :
    Except ResolveError AbsolutePath :=
  match followLinks (tree.linkAt limits directory) (limits.links + 1)
    (Spot.here.origin path) ((Path.names path).filter (· ≠ "")) [] with
  | .error cause => .error cause
  | .ok (reached, _) => reached.absolute directory

def resolve (tree : FileTree) (limits : Limits) (directory : Directory) (path : String) :
    Except ResolveError AbsolutePath :=
  match tree.replaceLinks limits directory path with
  | .error cause => .error cause
  | .ok resolved =>
      match tree.walk .look .root resolved.text with
      | .error .linkLoop => .error (.linkLoop resolved)
      | _ => .ok resolved

end SqlReach.FileTree
