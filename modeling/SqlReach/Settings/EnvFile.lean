import SqlReach.Text.Blank

/-!
# Environment files

An environment file holds one binding a line: a key, an equals sign and a value,
which may be quoted.  A key alone is a binding without a value.  Blank lines and
comments are passed over.  So are statements that cannot be read, but the lines
at which they begin are noted.  Every line of the text ends with a line feed.
-/

namespace SqlReach.EnvFile

open SqlReach.Text

structure Binding where
  key : String
  value : Option String

def isLineEnd (char : Char) : Bool :=
  char == '\n'

/-- A blank that does not end the line. -/
def isInlineBlank (char : Char) : Bool :=
  isBlank char && !isLineEnd char

def skipInline (text : List Char) : List Char :=
  text.dropWhile isInlineBlank

def skipLine (text : List Char) : List Char :=
  text.dropWhile (!isLineEnd ·)

/-- Drops the word `export` when blanks follow it. -/
def skipExport (text : List Char) : List Char :=
  let word := "export".toList
  if word.isPrefixOf text && (text.drop word.length).head?.any isInlineBlank then
    skipInline (text.drop word.length)
  else text

def isKeyChar (char : Char) : Bool :=
  !(isBlank char || char == '=' || char == '#')

/-- Reads a key; a line that is only a comment has none. -/
def key? : List Char → Option (Option String × List Char)
  | '#' :: rest => some (none, '#' :: rest)
  | '\'' :: rest =>
      match rest.takeWhile (· ≠ '\''), rest.dropWhile (· ≠ '\'') with
      | [], _ => none
      | _, [] => none
      | key, _ :: rest => some (some (String.ofList key), rest)
  | text =>
      match text.takeWhile isKeyChar with
      | [] => none
      | key => some (some (String.ofList key), text.dropWhile isKeyChar)

/-- What a letter behind a backslash stands for between the given quotes. -/
def escape? (mark letter : Char) : Option Char :=
  if letter == '\\' || letter == '\'' then some letter
  else if mark == '"' then
    match letter with
    | '"' => some '"'
    | 'a' => some '\x07'
    | 'b' => some '\x08'
    | 'f' => some '\x0c'
    | 'n' => some '\n'
    | 'r' => some '\r'
    | 't' => some '\t'
    | 'v' => some '\x0b'
    | _ => none
  else none

def unescape (mark : Char) : List Char → List Char
  | '\\' :: letter :: rest =>
      match escape? mark letter with
      | some char => char :: unescape mark rest
      | none => '\\' :: unescape mark (letter :: rest)
  | char :: rest => char :: unescape mark rest
  | [] => []

/-- Reads up to the closing quote; a character behind a backslash never closes. -/
def quotedBody? (mark : Char) : List Char → Option (List Char × List Char)
  | [] => none
  | '\\' :: next :: rest =>
      (quotedBody? mark rest).map fun (body, rest) => ('\\' :: next :: body, rest)
  | char :: rest =>
      if char == mark then some ([], rest)
      else (quotedBody? mark rest).map fun (body, rest) => (char :: body, rest)

/-- A value up to the first comment that has a blank in front of it. -/
def cutComment : List Char → List Char
  | [] => []
  | char :: rest =>
      if isBlank char && (rest.dropWhile isBlank).head? == some '#' then []
      else char :: cutComment rest

/-- Reads a value that is not quoted.  A comment may follow the equals sign
directly, if there is a blank between them. -/
def plainValue (text : List Char) : String :=
  String.ofList (trim isBlank (cutComment (text.takeWhile (!isLineEnd ·))))

/-- Reads the value behind an equals sign. -/
def value? (text : List Char) : Option (String × List Char) :=
  match skipInline text with
  | '\'' :: rest =>
      (quotedBody? '\'' rest).map fun (body, rest) => (String.ofList (unescape '\'' body), rest)
  | '"' :: rest =>
      (quotedBody? '"' rest).map fun (body, rest) => (String.ofList (unescape '"' body), rest)
  | _ => some (plainValue text, skipLine text)

/-- Passes over a comment and the end of the line; nothing else may stand there. -/
def lineEnd? (text : List Char) : Option (List Char) :=
  let text := match skipInline text with
    | '#' :: rest => skipLine rest
    | rest => rest
  match text with
  | [] => some []
  | char :: rest => if isLineEnd char then some rest else none

/-- Reads an equals sign and a value, if they are there. -/
def optionalValue? (text : List Char) : Option (Option String × List Char) :=
  match skipInline text with
  | '=' :: rest => (value? rest).map fun (value, rest) => (some value, rest)
  | rest => some (none, rest)

/-- What a statement says; a comment says nothing. -/
inductive Statement where
  | binding (content : Binding)
  | comment
  | unread

/-- Reads the statement at the front of a text.  Where the reading fails, the
rest of the line is passed over. -/
def statement (text : List Char) : Statement × List Char :=
  let text := skipExport text
  match key? text with
  | none => (.unread, (skipLine text).drop 1)
  | some (key, rest) =>
      match optionalValue? rest with
      | none => (.unread, (skipLine rest).drop 1)
      | some (value, rest) =>
          match lineEnd? rest, key with
          | none, _ => (.unread, (skipLine rest).drop 1)
          | some rest, none => (.comment, rest)
          | some rest, some key => (.binding ⟨key, value⟩, rest)

/-- What an environment file holds. -/
structure Contents where
  bindings : List Binding := []
  /-- The lines at which the unread statements begin.  Blank lines in front of a
  statement belong to it. -/
  unread : List Nat := []

/-- Puts a statement, which begins at a given line, in front of the others. -/
def Contents.add (contents : Contents) (line : Nat) : Statement → Contents
  | .binding content => { contents with bindings := content :: contents.bindings }
  | .comment => contents
  | .unread => { contents with unread := line :: contents.unread }

/-- Reads a text that begins at a given line; every step passes over a character
at least. -/
def contentsWithin : Nat → Nat → List Char → Contents
  | 0, _, _ => {}
  | fuel + 1, line, text =>
      match text.dropWhile isBlank with
      | [] => {}
      | start =>
          let (found, rest) := statement start
          let next := line + (text.countP isLineEnd - rest.countP isLineEnd)
          (contentsWithin fuel next rest).add line found

def contents (text : String) : Contents :=
  contentsWithin (text.length + 1) 1 text.toList

end SqlReach.EnvFile
