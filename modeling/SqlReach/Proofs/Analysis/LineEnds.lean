import Mathlib
import SqlReach.Proofs.Encoding.LineBreaks
import SqlReach.Proofs.FileTree.RealLocations
import SqlReach.Source

/-!
# The line ends of a source file

An analysis sees no more of a file than the lines that the scanner is fed.  Two files
that hold the same program in an encoding can therefore stand for each other wherever a
source is read in it.  In the encodings that every machine knows, a file in which every
line feed gives way to another line end holds the same program.
-/

namespace SqlReach

/-- Contents that a codec fails to decode for the same reason, or that hold the same
program. -/
def Codec.SameProgram (codec : Codec) (content other : List UInt8) : Prop :=
  EndAlike
    (fun chars others =>
      Scanner.ofText (String.ofList (Encoding.foldNewlines chars)) =
        Scanner.ofText (String.ofList (Encoding.foldNewlines others)))
    (codec content) (codec other)

/-- To a codec it does not matter which line ends a file has. -/
def Codec.IgnoresLineEnds (codec : Codec) : Prop :=
  ∀ (ending : LineEnd) (content : List UInt8), codec.SameProgram content (ending.convert content)

theorem Encoding.ignoresLineEnds_codec (encoding : Encoding) : encoding.codec.IgnoresLineEnds :=
  fun ending content => .ok (encoding.ofText_decode_convert ending content).symm

/-- Contents that hold the same program for whoever reads them in an encoding. -/
def Codecs.SameProgram (codecs : Codecs) (encoding : String) (content other : List UInt8) : Prop :=
  ∀ codec, codecs.find? encoding = some codec → codec.SameProgram content other

theorem Codecs.sameProgram_refl (codecs : Codecs) (encoding : String) (content : List UInt8) :
    codecs.SameProgram encoding content content := by
  intro codec _
  rw [Codec.SameProgram]
  cases codec content with
  | error reason => exact .error reason
  | ok chars => exact .ok rfl

/-- The text itself leaves no trace in its analysis. -/
theorem analyze_eq_of_ofText {text other : String}
    (hscanner : Scanner.ofText text = Scanner.ofText other) (start : String)
    (source : Option String) : analyze text start source = analyze other start source := by
  rw [analyze, analyze, Survey.ofText, Survey.ofText, hscanner]

section Alike

variable {reader : Reader} {encoding : String} {left right : FileTree}
variable (halike : left.Alike (reader.codecs.SameProgram encoding) right)

include halike

theorem readAt_alike (path : AbsolutePath) :
    EndAlike (fun text other => Scanner.ofText text = Scanner.ofText other)
      (Source.readAt reader.codecs left encoding path)
      (Source.readAt reader.codecs right encoding path) := by
  rw [Source.readAt, Source.readAt]
  split
  · exact .error Source.ReadError.nullInEncoding
  have hcontents := halike.contentAt (reader.codecs.sameProgram_refl encoding) .root path.text
  generalize left.contentAt .root path.text = found at hcontents ⊢
  generalize right.contentAt .root path.text = other at hcontents ⊢
  cases hcontents with
  | error fault => exact .error (Source.ReadError.unreadable path fault)
  | @ok content late hsame =>
      simp only [Source.decodeIn]
      cases hcodec : reader.codecs.find? encoding with
      | none => exact .error (Source.ReadError.unknownEncoding encoding)
      | some codec =>
          have htexts : EndAlike _ (codec content) (codec late) := hsame codec hcodec
          simp only
          generalize codec content = chars at htexts ⊢
          generalize codec late = others at htexts ⊢
          cases htexts with
          | error reason => exact .error (Source.ReadError.undecodable reason)
          | ok hscanner => exact .ok hscanner

theorem analyzeFile_eq_of_alike (directory : FileTree.Directory) (path start : String) :
    analyzeFile reader left directory encoding path start =
      analyzeFile reader right directory encoding path start := by
  rw [analyzeFile, analyzeFile, Source.read, Source.read, halike.resolve_eq]
  cases right.resolve reader.limits directory path with
  | error cause => rfl
  | ok resolved =>
      have htexts := readAt_alike halike resolved
      simp only
      generalize Source.readAt reader.codecs left encoding resolved = text at htexts ⊢
      generalize Source.readAt reader.codecs right encoding resolved = other at htexts ⊢
      cases htexts with
      | error cause => rfl
      | ok hscanner => simp only [analyze_eq_of_ofText hscanner]

end Alike

/-- The encodings by their common names. -/
def sourceEncodings : List (String × Encoding) :=
  [("utf-8-sig", .utf8Signed), ("utf-8", .utf8), ("latin-1", .latin1), ("ascii", .ascii)]

/-- A file that can be opened is read in each of the four encodings. -/
theorem read_of_contentAt {reader : Reader} {tree : FileTree} {directory : FileTree.Directory}
    {name path : String} {encoding : Encoding} {resolved : AbsolutePath} {content : List UInt8}
    (hknown : (name, encoding) ∈ sourceEncodings)
    (hresolve : tree.resolve reader.limits directory path = .ok resolved)
    (hcontent : tree.contentAt .root resolved.text = .ok content) :
    Source.read reader tree directory name path = .ok (encoding.decode content) := by
  have hnames : ∀ known ∈ sourceEncodings,
      Encoding.ofName? known.1 = some known.2 ∧ '\x00' ∉ known.1.toList := by
    decide +kernel
  obtain ⟨hname, hnull⟩ := hnames _ hknown
  simp only [Source.read, hresolve, Source.readAt, List.contains_iff_mem, hnull, if_false, hcontent,
    Source.decodeIn, Codecs.find?, hname, Encoding.codec]
  rfl

/-- Which line ends a source file has does not matter.  With a carriage return, alone
or before a line feed, in the place of every line feed, every analysis of a file ends as
before, whatever the bytes of the file are, unless it is read by another codec to which
line ends do matter; and in each of the four encodings a file that can be opened has an
analysis, the same for both of its forms. -/
theorem analyzeFile_ignores_line_ends :
    (∀ (ending : LineEnd) (tree : FileTree) (location : Location) (content : List UInt8),
      tree.find? location = some (.file content) →
      ∀ (reader : Reader) (directory : FileTree.Directory) (encoding path start : String),
        (Encoding.ofName? encoding = none → ∀ codec, reader.codecs encoding = some codec →
          codec.IgnoresLineEnds) →
        analyzeFile reader (tree.put location (.file (ending.convert content))) directory encoding
            path start =
          analyzeFile reader tree directory encoding path start) ∧
    ∀ (name : String) (encoding : Encoding), (name, encoding) ∈ sourceEncodings →
      ∀ (reader : Reader) (tree : FileTree) (directory : FileTree.Directory) (path start : String)
        (resolved : AbsolutePath) (content : List UInt8),
        tree.resolve reader.limits directory path = .ok resolved →
        tree.contentAt .root resolved.text = .ok content →
        analyzeFile reader tree directory name path start =
            .ok (analyze (encoding.decode content) start (some path)) ∧
          ∀ ending : LineEnd,
            analyze (encoding.decode (ending.convert content)) start (some path) =
              analyze (encoding.decode content) start (some path) := by
  constructor
  · intro ending tree location content hfile reader directory encoding path start hcodecs
    have hsame : reader.codecs.SameProgram encoding content (ending.convert content) := by
      intro codec hcodec
      rw [Codecs.find?] at hcodec
      split at hcodec
      · cases hcodec
        exact Encoding.ignoresLineEnds_codec _ ending content
      · rename_i hname
        exact hcodecs hname codec hcodec ending content
    symm
    apply analyzeFile_eq_of_alike
    exact FileTree.alike_put (reader.codecs.sameProgram_refl encoding) hfile hsame
  · intro name encoding hknown reader tree directory path start resolved content hresolve hcontent
    constructor
    · rw [analyzeFile, read_of_contentAt hknown hresolve hcontent]
    · intro ending
      exact analyze_eq_of_ofText (encoding.ofText_decode_convert ending content) start (some path)

/-- Lines that end in all three ways.  A character of three bytes is cut off by the
line feed behind its first. -/
def mixedContent : List UInt8 :=
  "100-A.\r\n PERFORM 200-B\r* ".toUTF8.toList ++
    0xE2 :: "\n200-B.\n EXEC SQL".toUTF8.toList

def mixedSource : FileTree where
  entries := [({ text := "mixed" }, .file mixedContent)]

theorem analyzeFile_ignores_line_ends_mixed :
    let location := Location.root.child { text := "mixed" }
    mixedSource.find? location = some (.file mixedContent) ∧
      analyzeFile {} (mixedSource.put location
          (.file (LineEnd.carriageReturn.convert mixedContent))) .root "utf-8" "mixed" "100-A" =
        analyzeFile {} mixedSource .root "utf-8" "mixed" "100-A" ∧
      mixedSource.resolve {} .root "mixed" = .ok { location } ∧
      ∃ analysis, analyzeFile {} mixedSource .root "utf-8" "mixed" "100-A" = .ok analysis ∧
        analysis.sections = 2 ∧ analysis.usesSql = true := by
  intro location
  have hfile : mixedSource.find? location = some (.file mixedContent) := rfl
  have hlink : ∀ target, mixedSource.find? location ≠ some (.link target) := by
    simp [hfile]
  have hresolve : mixedSource.resolve {} .root "mixed" = .ok { location } :=
    FileTree.IsReal.root.resolve_name rfl { text := "mixed" } hlink {}
  have hcontent : mixedSource.contentAt .root ({ location } : AbsolutePath).text =
      .ok mixedContent := by
    cbv
  have hknown : ("utf-8", Encoding.utf8) ∈ sourceEncodings := by decide
  have hcodecs : Encoding.ofName? "utf-8" = none → ∀ codec, ({} : Reader).codecs "utf-8" =
      some codec → codec.IgnoresLineEnds := by simp
  obtain ⟨hconvert, hanalyze⟩ := analyzeFile_ignores_line_ends
  refine ⟨hfile, hconvert .carriageReturn _ _ _ hfile {} .root "utf-8" "mixed" "100-A" hcodecs,
    hresolve, _, (hanalyze _ _ hknown _ _ _ _ _ _ _ hresolve hcontent).1, ?_, ?_⟩
  · decide +kernel
  · decide +kernel

end SqlReach
