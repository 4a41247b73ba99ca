import SqlReach.Analysis
import SqlReach.Encoding
import SqlReach.FileTree.Resolve
import SqlReach.Text.Quoted

/-!
# Reading source files

A source file is named by a path, which is resolved before the file is opened.
Every way in which reading can fail is a cause of its own.
-/

namespace SqlReach

namespace FileTree.ResolveError

def message : ResolveError → String
  | nullByte => "embedded null byte"
  | noDirectory => Fault.notFound.message
  | linkLoop path => "Symlink loop from " ++ Text.quoted path.text
  | tooDeep => nestingMessage

end FileTree.ResolveError

/-- What a machine brings along for reading: what it can bear, and the codecs that it
knows. -/
structure Reader where
  limits : FileTree.Limits := {}
  codecs : Codecs := fun _ => none

namespace Source

inductive ReadError where
  | unresolved (cause : FileTree.ResolveError)
  /-- The file at the resolved path could not be opened. -/
  | unreadable (path : AbsolutePath) (fault : Fault)
  | unknownEncoding (name : String)
  /-- The name of the encoding holds a null character. -/
  | nullInEncoding
  /-- The codec could not decode the file. -/
  | undecodable (reason : String)

def ReadError.message : ReadError → String
  | unresolved cause => cause.message
  | unreadable path fault => fault.reason ++ ": '" ++ path.text ++ "'"
  | unknownEncoding name => "unknown encoding: " ++ name
  | nullInEncoding => "embedded null character"
  | undecodable reason => reason

/-- The text of the bytes of a file in an encoding, if there is a codec for it. -/
def decodeIn (codecs : Codecs) (encoding : String) (content : List UInt8) :
    Except ReadError String :=
  match codecs.find? encoding with
  | none => .error (.unknownEncoding encoding)
  | some codec =>
      match codec content with
      | .error reason => .error (.undecodable reason)
      | .ok chars => .ok (String.ofList (Encoding.foldNewlines chars))

/-- The text of the file at a resolved path.  The file is opened before its
encoding is looked up. -/
def readAt (codecs : Codecs) (tree : FileTree) (encoding : String) (path : AbsolutePath) :
    Except ReadError String :=
  if encoding.toList.contains '\x00' then .error .nullInEncoding
  else
    match tree.contentAt .root path.text with
    | .error fault => .error (.unreadable path fault)
    | .ok content => decodeIn codecs encoding content

def read (reader : Reader) (tree : FileTree) (directory : FileTree.Directory)
    (encoding path : String) : Except ReadError String :=
  match tree.resolve reader.limits directory path with
  | .error cause => .error (.unresolved cause)
  | .ok resolved => readAt reader.codecs tree encoding resolved

end Source

/-- The analysis of a source file; its source is the path as it was given. -/
def analyzeFile (reader : Reader) (tree : FileTree) (directory : FileTree.Directory)
    (encoding path start : String) : Except Source.ReadError Analysis :=
  match Source.read reader tree directory encoding path with
  | .error cause => .error cause
  | .ok text => .ok (analyze text start (some path))

end SqlReach
