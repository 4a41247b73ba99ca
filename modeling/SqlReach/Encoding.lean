import SqlReach.Encoding.Utf8

/-!
# Source encodings

A source file is decoded by a codec that is chosen by its name.  Four encodings are
defined here, in which undecodable bytes become replacement characters; a machine may
know other codecs besides.  After decoding every line ends with a line feed, whichever
of the three usual line ends the file has.
-/

namespace SqlReach

inductive Encoding where
  | utf8
  /-- UTF-8 that may begin with a byte order mark. -/
  | utf8Signed
  | latin1
  | ascii
deriving DecidableEq

namespace Encoding

/-- The comparable form of an encoding's name: letters in lower case, digits and
points, with a single underscore for every run of other characters between them. -/
def comparable (name : List Char) : List Char :=
  let words := name.splitOnP fun char => !(char.isAlphanum || char == '.')
  ['_'].intercalate ((words.filter (· ≠ [])).map (·.map Char.toLower))

/-- The name of an encoding in its comparable form. -/
def name : Encoding → String
  | utf8 => "utf_8"
  | utf8Signed => "utf_8_sig"
  | latin1 => "latin_1"
  | ascii => "ascii"

/-- The other names of an encoding. -/
def aliases : Encoding → List String
  | utf8 => ["utf8", "utf", "u8", "utf8_ucs2", "utf8_ucs4", "cp65001"]
  | utf8Signed => []
  | latin1 =>
      ["latin1", "latin", "l1", "iso8859", "iso8859_1", "iso_8859_1", "8859", "cp819",
        "csisolatin1", "ibm819", "iso_8859_1_1987", "iso_ir_100"]
  | ascii =>
      ["us_ascii", "us", "646", "ansi_x3.4_1968", "ansi_x3_4_1968", "ansi_x3.4_1986", "cp367",
        "csascii", "ibm367", "iso646_us", "iso_646.irv_1991", "iso_ir_6"]

/-- Only the aliases can be written with points for underscores. -/
def answersTo (known : String) (encoding : Encoding) : Bool :=
  let pointless := String.ofList (known.toList.map fun char => if char == '.' then '_' else char)
  known == encoding.name || encoding.aliases.contains known ||
    encoding.aliases.contains pointless

def ofName? (name : String) : Option Encoding :=
  [utf8Signed, utf8, latin1, ascii].find? (answersTo (String.ofList (comparable name.toList)))

def byteOrderMark : List UInt8 := [0xEF, 0xBB, 0xBF]

/-- A text without its byte order mark.  Nothing but a part of the mark is no
text at all. -/
def dropMark (bytes : List UInt8) : List UInt8 :=
  if bytes.isPrefixOf byteOrderMark then []
  else if byteOrderMark.isPrefixOf bytes then bytes.drop byteOrderMark.length
  else bytes

def asciiChar (byte : UInt8) : Char :=
  if byte.toNat < 0x80 then Char.ofNat byte.toNat else Utf8.replacement

def decodeChars : Encoding → List UInt8 → List Char
  | utf8, bytes => Utf8.decode bytes
  | utf8Signed, bytes => Utf8.decode (dropMark bytes)
  | latin1, bytes => bytes.map fun byte => Char.ofNat byte.toNat
  | ascii, bytes => bytes.map asciiChar

/-- Turns every line end into a line feed, behind the characters read so far,
the latest first. -/
def foldNewlinesOnto (done : List Char) : List Char → List Char
  | [] => done.reverse
  | '\r' :: '\n' :: rest => foldNewlinesOnto ('\n' :: done) rest
  | '\r' :: rest => foldNewlinesOnto ('\n' :: done) rest
  | char :: rest => foldNewlinesOnto (char :: done) rest

def foldNewlines (text : List Char) : List Char :=
  foldNewlinesOnto [] text

/-- The text of a file. -/
def decode (encoding : Encoding) (bytes : List UInt8) : String :=
  String.ofList (foldNewlines (encoding.decodeChars bytes))

end Encoding

/-- Decodes bytes, or says why they cannot be decoded. -/
abbrev Codec := List UInt8 → Except String (List Char)

def Encoding.codec (encoding : Encoding) : Codec :=
  fun bytes => .ok (encoding.decodeChars bytes)

/-- The codecs that a machine knows by name, besides the encodings above. -/
abbrev Codecs := String → Option Codec

namespace Codecs

def find? (codecs : Codecs) (name : String) : Option Codec :=
  match Encoding.ofName? name with
  | some encoding => some encoding.codec
  | none => codecs name

end Codecs

end SqlReach
