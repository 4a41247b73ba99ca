import SqlReach.Encoding
import SqlReach.FileTree
import SqlReach.Format
import SqlReach.Settings.Reference

/-!
# Settings

The settings come from the environment and from an environment file in the
working directory.  Names are compared without case, the environment wins over
the file, and of several spellings of one name the one stored last wins.
-/

namespace SqlReach

structure Settings where
  logLevel : String := "WARNING"
  /-- Where the journal is kept besides the terminal; an empty path is no path. -/
  logFile : Option String := none
  sourceEncoding : String := "utf-8-sig"
  outputFormat : Format := .text

namespace Settings

/-- Why there are no settings. -/
inductive Invalid where
  /-- The environment file is not UTF-8. -/
  | undecodable (flaw : Utf8.Flaw)
  | outputFormat

namespace Invalid

/-- The name of the setting at fault, if it is a single one. -/
def setting? : Invalid → Option String
  | undecodable _ => none
  | outputFormat => some "OUTPUT_FORMAT"

def message : Invalid → String
  | undecodable flaw => flaw.message
  | outputFormat => "Input should be 'text', 'json' or 'mermaid'"

end Invalid

/-- Letters without case.  The names of the settings are ASCII, and no other
character has one of their letters as its lower-case form. -/
def folded (name : String) : String :=
  String.ofList (name.toList.map Char.toLower)

/-- The value stored last under any spelling of a name. -/
def latest? {α : Type} (register : List (String × α)) (name : String) : Option α :=
  (register.reverse.find? fun entry => folded entry.1 = folded name).map (·.2)

/-- The value of a setting, if it is given at all. -/
def given? (environment : Environment) (file : List (String × Option String)) (name : String) :
    Option String :=
  latest? environment.entries name <|> (latest? file name).join

def load (environment : Environment) (file : List (String × Option String)) :
    Except Invalid Settings :=
  let given := given? environment file
  let defaults : Settings := {}
  match (given "OUTPUT_FORMAT").map Format.ofName? with
  | some none => .error .outputFormat
  | outputFormat =>
      .ok {
        logLevel := (given "LOG_LEVEL").getD defaults.logLevel
        logFile := given "LOG_FILE" <|> defaults.logFile
        sourceEncoding := (given "SOURCE_ENCODING").getD defaults.sourceEncoding
        outputFormat := outputFormat.join.getD defaults.outputFormat }

/-- The text of an environment file, without a byte order mark. -/
def fileText (content : List UInt8) : Except Utf8.Flaw String :=
  (Utf8.decodeStrict content).map fun chars =>
    String.ofList <| Encoding.foldNewlines <|
      match chars with
      | '\uFEFF' :: rest => rest
      | chars => chars

/-- What the environment file of a working directory holds.  Only a regular file
counts. -/
def envFile (tree : FileTree) (directory : FileTree.Directory) :
    Except Utf8.Flaw EnvFile.Contents :=
  match tree.lookAt directory ".env" with
  | some (.file content) => (fileText content).map EnvFile.contents
  | _ => .ok {}

/-- The settings, and the lines of the environment file that were not read. -/
structure Loading where
  settings : Except Invalid Settings
  unread : List Nat := []

/-- The settings for a working directory. -/
def loadIn (tree : FileTree) (directory : FileTree.Directory) (environment : Environment) :
    Loading :=
  match envFile tree directory with
  | .error flaw => { settings := .error (.undecodable flaw) }
  | .ok file =>
      { settings := load environment (EnvFile.values environment file.bindings)
        unread := file.unread }

end Settings

end SqlReach
