import SqlReach.Proofs.Analysis.LineEnds
import SqlReach.Proofs.Encoding.Texts
import SqlReach.Proofs.Scanner.Trimming

/-!
# Source files and their texts

A source file is bytes behind a path.  Damaged bytes stay in their line: a file that is
put together from two others with a line feed between them is read as the texts of the
two.  What is written into a file is what is read from it, line ends and a byte order
mark aside, so the analysis of the file is that of the text in memory.
-/

namespace SqlReach

/-- A file that can be opened, with the path that leads to it. -/
structure SourceFile where
  reader : Reader
  tree : FileTree
  directory : FileTree.Directory
  path : String
  resolved : AbsolutePath
  content : List UInt8
  resolve_eq : tree.resolve reader.limits directory path = .ok resolved
  contentAt_eq : tree.contentAt .root resolved.text = .ok content

namespace SourceFile

variable {name : String} {encoding : Encoding}

def read (file : SourceFile) (encoding : String) : Except Source.ReadError String :=
  Source.read file.reader file.tree file.directory encoding file.path

def analyze (file : SourceFile) (encoding start : String) : Except Source.ReadError Analysis :=
  analyzeFile file.reader file.tree file.directory encoding file.path start

/-- A file that is alone at the root. -/
def only (content : List UInt8) : SourceFile where
  reader := {}
  tree := ⟨[({ text := "source" }, .file content)]⟩
  directory := .root
  path := "source"
  resolved := { location := Location.root.child { text := "source" } }
  content := content
  resolve_eq := FileTree.IsReal.root.resolve_name rfl { text := "source" } (by nofun) {}
  contentAt_eq := by cbv

theorem read_eq (file : SourceFile) (hknown : (name, encoding) ∈ sourceEncodings) :
    file.read name = .ok (encoding.decode file.content) :=
  read_of_contentAt hknown file.resolve_eq file.contentAt_eq

theorem analyze_eq (file : SourceFile) (hknown : (name, encoding) ∈ sourceEncodings)
    (start : String) :
    file.analyze name start =
      .ok (SqlReach.analyze (encoding.decode file.content) start (some file.path)) := by
  have hread := file.read_eq hknown
  rw [read] at hread
  rw [analyze, analyzeFile, hread]

end SourceFile

/-! ## Damage stays in its line -/

/-- A line feed between two files divides what is read: in front of it stands the text of
the first file and behind it that of the second, whatever their bytes are, unless the
first ends in a carriage return, to which the line feed then belongs.  A byte order mark
is looked for in front of the first file only, and the file must not stop inside it. -/
theorem read_append_lineFeed (whole before after : SourceFile)
    (hwhole : whole.content = before.content ++ 0x0A :: after.content)
    (hreturn : before.content.getLast? ≠ some 0x0D) :
    (∀ name ∈ ["utf-8", "latin-1", "ascii"], ∃ first second,
      before.read name = .ok first ∧ after.read name = .ok second ∧
        whole.read name = .ok (first ++ "\n" ++ second)) ∧
    (before.content ≠ [0xEF] → before.content ≠ [0xEF, 0xBB] → ∃ first second,
      before.read "utf-8-sig" = .ok first ∧ after.read "utf-8" = .ok second ∧
        whole.read "utf-8-sig" = .ok (first ++ "\n" ++ second)) := by
  constructor
  · intro name hname
    have hplain : ∃ encoding, (name, encoding) ∈ sourceEncodings ∧ encoding ≠ .utf8Signed := by
      simp only [List.mem_cons, List.not_mem_nil, or_false] at hname
      rcases hname with rfl | rfl | rfl
      · exact ⟨.utf8, by decide, by decide⟩
      · exact ⟨.latin1, by decide, by decide⟩
      · exact ⟨.ascii, by decide, by decide⟩
    obtain ⟨encoding, hknown, hplain⟩ := hplain
    refine ⟨_, _, before.read_eq hknown, after.read_eq hknown, ?_⟩
    rw [whole.read_eq hknown, hwhole, Encoding.decode_append_lineFeed hreturn hplain]
  · intro hfirst hsecond
    have hsigned : ("utf-8-sig", Encoding.utf8Signed) ∈ sourceEncodings := by decide
    have hplain : ("utf-8", Encoding.utf8) ∈ sourceEncodings := by decide
    refine ⟨_, _, before.read_eq hsigned, after.read_eq hplain, ?_⟩
    rw [whole.read_eq hsigned, hwhole,
      Encoding.decode_signed_append_lineFeed hreturn hfirst hsecond]

/-- A character that is cut off by the line feed, behind a mark, and a second mark behind
the line feed, in front of a byte that begins nothing. -/
theorem read_append_lineFeed_cut_off :
    let before := [0xEF, 0xBB, 0xBF, 0x41, 0xE2, 0x82]
    let after := [0xEF, 0xBB, 0xBF, 0x42, 0xFF]
    (before.getLast? ≠ some 0x0D ∧ before ≠ [0xEF] ∧ before ≠ [0xEF, 0xBB]) ∧
    (∃ first second, (SourceFile.only before).read "ascii" = .ok first ∧
      (SourceFile.only after).read "ascii" = .ok second ∧
        (SourceFile.only (before ++ 0x0A :: after)).read "ascii" =
          .ok (first ++ "\n" ++ second)) ∧
    ∃ first second, (SourceFile.only before).read "utf-8-sig" = .ok first ∧
      (SourceFile.only after).read "utf-8" = .ok second ∧
        (SourceFile.only (before ++ 0x0A :: after)).read "utf-8-sig" =
          .ok (first ++ "\n" ++ second) := by
  intro before after
  have hends : before.getLast? ≠ some 0x0D ∧ before ≠ [0xEF] ∧ before ≠ [0xEF, 0xBB] := by
    decide
  obtain ⟨hplain, hsigned⟩ := read_append_lineFeed (.only (before ++ 0x0A :: after))
    (.only before) (.only after) rfl hends.1
  exact ⟨hends, hplain "ascii" (by decide), hsigned hends.2.1 hends.2.2⟩

/-! ## Reading what was written -/

/-- A carriage return behind a line is padding, at which no scanner looks. -/
theorem Scanner.feed_withoutReturn (scanner : Scanner) (line : List Char) :
    scanner.feed (String.ofList (Text.withoutReturn line)) =
      scanner.feed (String.ofList line) := by
  unfold Text.withoutReturn
  split
  · rename_i hreturn
    have hline : line = line.dropLast ++ ['\r'] := by
      rw [List.dropLast_append_getLast? _ hreturn]
    have htail : ∀ char ∈ ['\r'], Line.isPadding char = true :=
      List.forall_mem_singleton.mpr (by decide)
    have hread : ∀ {β : Type} {read : List Char → β}, Line.IgnoresPadding read →
        read (Line.trimmed (String.ofList line.dropLast).toList) =
          read (Line.trimmed (String.ofList line).toList) := by
      intro β read hread
      rw [String.toList_ofList, String.toList_ofList]
      conv_rhs => rw [hline]
      rw [hread.trimmed_append _ htail, hread.trimmed_eq]
    apply feed_eq_feed_iff.mpr
    rw [Outline.headerOf?, Outline.headerOf?, Outline.callOf?, Outline.callOf?, Outline.holdsSql,
      Outline.holdsSql]
    refine ⟨hread Line.ignoresPadding_header?, fun _ => ?_⟩
    exact ⟨hread Line.ignoresPadding_callTarget?, hread Line.ignoresPadding_mentionsSql⟩
  · rfl

theorem Scanner.feedLines_withoutReturn (scanner : Scanner) (lines : List (List Char)) :
    scanner.feedLines ((lines.map Text.withoutReturn).map String.ofList) =
      scanner.feedLines (lines.map String.ofList) := by
  induction lines generalizing scanner with
  | nil => rfl
  | cons line lines ih =>
      simp only [feedLines, List.map_cons, List.foldl_cons, feed_withoutReturn] at ih ⊢
      exact ih _

theorem Scanner.ofText_withLineFeeds {text : String}
    (hreturns : Text.ReturnsEndLines text.toList) :
    Scanner.ofText (String.ofList (Text.withLineFeeds text.toList)) = Scanner.ofText text := by
  rw [ofText, ofText, linesOf, linesOf, String.toList_ofList, Text.splitOn_withLineFeeds hreturns,
    feedLines_withoutReturn]

theorem Encoding.unmarked_of_not_mem (encoding : Encoding) {text : List Char}
    (hmark : '\uFEFF' ∉ text) : encoding.unmarked text = text := by
  unfold unmarked
  split
  · exact absurd List.mem_cons_self hmark
  · rfl

/-- A file into which a text was written is read as the text, with a line feed for each of
its line ends and without a leading byte order mark where the encoding drops one.  If the
text has carriage returns in front of line feeds only and no byte order marks, then the
file is analyzed as the text is. -/
theorem read_written_text (file : SourceFile) (text name : String) (encoding : Encoding)
    (hknown : (name, encoding) ∈ sourceEncodings)
    (hwritten : encoding.write? text = some file.content) :
    file.read name =
        .ok (String.ofList (Text.withLineFeeds (encoding.unmarked text.toList))) ∧
      (Text.ReturnsEndLines text.toList → '\uFEFF' ∉ text.toList → ∀ start,
        file.analyze name start = .ok (analyze text start (some file.path))) := by
  have htext : encoding.decode file.content =
      String.ofList (Text.withLineFeeds (encoding.unmarked text.toList)) := by
    rw [Encoding.decode_eq, Encoding.decodeChars_of_write? hwritten]
  constructor
  · rw [file.read_eq hknown, htext]
  · intro hreturns hmark start
    have hscanner : Scanner.ofText (encoding.decode file.content) = Scanner.ofText text := by
      rw [htext, encoding.unmarked_of_not_mem hmark, Scanner.ofText_withLineFeeds hreturns]
    rw [file.analyze_eq hknown, analyze_eq_of_ofText hscanner]

/-- A program with characters of every length, the first and the last of each, and lines
that end in both ways. -/
def writtenProgram : String :=
  let boundaries := [0x7F, 0x80, 0x7FF, 0x800, 0xD7FF, 0xE000, 0xFFFF, 0x10000, 0x10FFFF]
  "100-A.\r\n PERFORM 200-B " ++ String.ofList (boundaries.map Char.ofNat) ++
    "\r\n200-B.\n EXEC SQL"

theorem read_written_text_every_length :
    let file := SourceFile.only (Utf8.encode writtenProgram)
    ("utf-8-sig", Encoding.utf8Signed) ∈ sourceEncodings ∧
      Encoding.write? .utf8Signed writtenProgram = some file.content ∧
      Text.ReturnsEndLines writtenProgram.toList ∧ '\uFEFF' ∉ writtenProgram.toList ∧
      file.read "utf-8-sig" =
        .ok (String.ofList (Text.withLineFeeds writtenProgram.toList)) ∧
      ∃ analysis, file.analyze "utf-8-sig" "100-A" = .ok analysis ∧ analysis.sections = 2 ∧
        analysis.usesSql = true := by
  intro file
  have hknown : ("utf-8-sig", Encoding.utf8Signed) ∈ sourceEncodings := by decide
  have hwritten : Encoding.write? .utf8Signed writtenProgram = some file.content := rfl
  have hreturns : Text.ReturnsEndLines writtenProgram.toList := by decide +kernel
  have hmark : '\uFEFF' ∉ writtenProgram.toList := by decide +kernel
  obtain ⟨hread, hanalyze⟩ := read_written_text file _ _ _ hknown hwritten
  refine ⟨hknown, hwritten, hreturns, hmark, hread, _, hanalyze hreturns hmark "100-A", ?_, ?_⟩
  · decide +kernel
  · decide +kernel

end SqlReach
