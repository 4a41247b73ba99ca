/-!
# Paths and locations

A location is a place in a file tree, given by the names that lead to it from
the root.  A path is a text that names a location step by step, from the root or
from a directory.  An absolute path is what remains of a path once its location
is known: two slashes at its front are part of its text, though they lead
nowhere.
-/

namespace SqlReach

/-- A name that an entry of a directory can have.  The names left out stand for
the directory itself or for the one around it. -/
structure Name where
  text : String
  ne_empty : text ≠ "" := by decide
  ne_here : text ≠ "." := by decide
  ne_parent : text ≠ ".." := by decide
  slash_not_mem : '/' ∉ text.toList := by decide
  null_not_mem : '\x00' ∉ text.toList := by decide
deriving DecidableEq

def Name.ofText? (text : String) : Option Name :=
  if hname : text ≠ "" ∧ text ≠ "." ∧ text ≠ ".." ∧ '/' ∉ text.toList ∧ '\x00' ∉ text.toList then
    some ⟨text, hname.1, hname.2.1, hname.2.2.1, hname.2.2.2.1, hname.2.2.2.2⟩
  else none

/-- A place in the file tree: the names that lead to it from the root. -/
@[ext]
structure Location where
  names : List Name
deriving DecidableEq

namespace Location

def root : Location where
  names := []

def child (location : Location) (name : Name) : Location where
  names := location.names ++ [name]

/-- The root is its own parent. -/
def parent (location : Location) : Location where
  names := location.names.dropLast

def text (location : Location) : String :=
  "/" ++ "/".intercalate (location.names.map Name.text)

/-- The location is a place or one below it. -/
def IsWithin (location place : Location) : Prop :=
  place.names <+: location.names

instance (location place : Location) : Decidable (location.IsWithin place) :=
  inferInstanceAs (Decidable (place.names <+: location.names))

/-- The location some levels above; above the root there is nothing else. -/
def ancestor (location : Location) (levels : Nat) : Location where
  names := location.names.take (location.names.length - levels)

/-- The location to which names lead on from another one. -/
def append (location : Location) (names : List Name) : Location where
  names := location.names ++ names

end Location

/-- A location as a path from the root names it.  `doubled` says that exactly two
slashes stand at the front. -/
structure AbsolutePath where
  location : Location
  doubled : Bool := false
deriving DecidableEq

def AbsolutePath.text (path : AbsolutePath) : String :=
  if path.doubled then "/" ++ path.location.text else path.location.text

namespace Path

def isAbsolute (path : String) : Bool :=
  path.toList.head? == some '/'

/-- The names in a path, in order; an empty name stands for a repeated or
trailing slash and leads nowhere. -/
def names (path : String) : List String :=
  (path.toList.splitOn '/').map String.ofList

/-- Where a path begins. -/
def origin (directory : Location) (path : String) : Location :=
  if isAbsolute path then .root else directory

/-- Adds a name to others, where what is in front of the name of a parent is taken back. -/
def follow (names : List String) (name : String) : List String :=
  if name = "" ∨ name = "." then names
  else if name = ".." then names.dropLast
  else names ++ [name]

/-- The location that a path names by its text alone.  There is none if a name is left
that no entry can have, which is one with a null character. -/
def lexical? (directory : Location) (path : String) : Option Location :=
  let start := (origin directory path).names.map Name.text
  (((names path).foldl follow start).mapM Name.ofText?).map Location.mk

/-- Whether exactly two slashes stand at the front of a path. -/
def isDoubled (path : String) : Bool :=
  (path.toList.takeWhile (· == '/')).length == 2

/-- The absolute form of a path by its text alone. -/
def absolute? (directory : Location) (path : String) : Option AbsolutePath :=
  (lexical? directory path).map fun location => { location, doubled := isDoubled path }

/-- A path followed by another one, which wins if it is absolute. -/
def join (path next : String) : String :=
  if isAbsolute next then next
  else if path.toList.getLast? = some '/' then path ++ next
  else path ++ "/" ++ next

def hasNull (path : String) : Bool :=
  path.toList.contains '\x00'

/-- A path without slashes at its end, unless it has nothing but slashes. -/
def withoutTrailingSlashes (path : List Char) : List Char :=
  if path.all (· == '/') then path else (path.reverse.dropWhile (· == '/')).reverse

/-- What stands before and after the last slash of a path. -/
def split (path : String) : String × String :=
  let reversed := path.toList.reverse
  let tail := (reversed.takeWhile (· ≠ '/')).reverse
  let head := (reversed.dropWhile (· ≠ '/')).reverse
  (String.ofList (withoutTrailingSlashes head), String.ofList tail)

end Path

end SqlReach
