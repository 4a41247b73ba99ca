import SqlReach.Proofs.Scanner.Patterns
import SqlReach.Proofs.Scanner.Trimming

/-!
# Labels and the calls that refer to them

A paragraph is opened by its label and called by a name, and the two are read by
recognisers of their own.  Still they cut a text at the same place: whatever follows the
name, a full stop, a letter of another alphabet or padding, a text that opens a paragraph
also calls it when it stands behind the keyword.  So a call of a paragraph never misses
it, and a call whose name is a label can only be missed if no line opens that paragraph.
-/

namespace SqlReach

namespace Line

open SqlReach.Text

variable {text gap : List Char}

theorem trimmedLeft_eq_self (hfirst : ∀ char ∈ text.head?, isPadding char = false) :
    trimmedLeft text = text := by
  have hblank : text.dropWhile isBlank = text :=
    dropWhile_eq_self fun char hchar => not_isBlank_of_not_isPadding (hfirst char hchar)
  have hmark : text.dropWhile isMark = text :=
    dropWhile_eq_self fun char hchar => not_isMark_of_not_isPadding (hfirst char hchar)
  rw [trimmedLeft, hblank, hmark, hblank]

/-- Trimming does not matter for a reader who ignores padding behind a text, if the text
begins with a character of a name. -/
theorem IgnoresPadding.trimmed_eq_of_isNameChar {β : Type} {read : List Char → β}
    (hread : IgnoresPadding read) (hfirst : ∀ char ∈ text.head?, isNameChar char = true) :
    read (trimmed text) = read text := by
  have hsolid : ∀ char ∈ text.head?, isPadding char = false := fun char hchar =>
    Bool.eq_false_of_not_eq_true (not_isPadding_of_isNameChar (hfirst char hchar))
  rw [hread.trimmed_eq, trimmedLeft_eq_self hsolid]

/-- Behind the keyword and a gap, the name in front of a text is what is called. -/
theorem callTarget?_reference (hgap : IsGap gap)
    (hfirst : ∃ char ∈ text.head?, isNameChar char = true) :
    callTarget? (callKeyword ++ gap ++ text) = some (String.ofList (leadingName text)) := by
  have hname : IsName (String.ofList (leadingName text)) := by
    obtain ⟨char, hhead, hchar⟩ := hfirst
    obtain ⟨rest, rfl⟩ : ∃ rest, text = char :: rest := List.head?_eq_some_iff.mp hhead
    refine ⟨?_, fun other hother => ?_⟩
    · simp [leadingName, hchar, String.ext_iff]
    · rw [String.toList_ofList] at hother
      exact List.mem_takeWhile_imp hother
  have hbegins :
      BeginsWithCall (String.ofList (leadingName text)) (callKeyword ++ gap ++ text) := by
    refine ⟨gap, text.dropWhile isNameChar, ?_, hgap, hname, head?_dropWhile isNameChar text⟩
    rw [String.toList_ofList, List.append_assoc _ (leadingName text), leadingName,
      List.takeWhile_append_dropWhile]
  have hkeyword : callKeyword <+: callKeyword ++ gap ++ text := by
    rw [List.append_assoc]
    exact List.prefix_append _ _
  obtain ⟨char, rest, hshape⟩ : ∃ char rest, callKeyword ++ gap ++ text = char :: rest :=
    ⟨_, _, rfl⟩
  rw [callTarget?_eq_some_iff]
  refine ⟨hkeyword, ?_⟩
  -- The call stands at the very front, so that the search stops there.
  rw [← leadingCall?_eq_some_iff, hshape] at hbegins
  rw [hshape, callsFirst_of_leadingCall? hbegins]

end Line

namespace Scanner

theorem names_prefix_feedLines (scanner : Scanner) (lines : List String) :
    scanner.graph.names <+: (scanner.feedLines lines).graph.names := by
  induction lines generalizing scanner with
  | nil => exact List.prefix_refl _
  | cons line lines ih =>
      rw [feedLines, List.foldl_cons]
      exact (scanner.names_prefix_feed line).trans (ih (scanner.feed line))

end Scanner

/-- A line that begins with a character of a name opens a paragraph exactly if a scanner
with an open paragraph, fed the same text behind the keyword and a gap, records one call,
which has the same name, and that name is a label.  The paragraph is then in the graph,
whatever lines follow. -/
theorem opens_iff_addsCalls (scanner : Scanner) (gap line label : String)
    (hopen : scanner.current ≠ none) (hgap : Line.IsGap gap.toList)
    (hfirst : ∃ char ∈ line.toList.head?, Line.isNameChar char = true) :
    (scanner.Opens line label ↔
      scanner.AddsCalls ("PERFORM" ++ gap ++ line) [label] ∧ Line.IsLabel label) ∧
    (scanner.Opens line label →
      ∀ lines, label ∈ ((scanner.feed line).feedLines lines).graph.names) := by
  have htext : ("PERFORM" ++ gap ++ line).toList =
      Line.callKeyword ++ gap.toList ++ line.toList := by
    rw [String.toList_append, String.toList_append]
    rfl
  obtain ⟨paragraph, hopen⟩ := Option.ne_none_iff_exists'.mp hopen
  have hheader : Outline.headerOf? line = Line.header? line.toList := by
    obtain ⟨char, hhead, hchar⟩ := hfirst
    apply Line.ignoresPadding_header?.trimmed_eq_of_isNameChar
    rw [Option.mem_def.mp hhead]
    rintro other ⟨⟩
    exact hchar
  have hkeyword : ∀ char ∈ (Line.callKeyword ++ gap.toList ++ line.toList).head?,
      Line.isNameChar char = true := by
    rintro char ⟨⟩
    decide
  have hplain : Outline.headerOf? ("PERFORM" ++ gap ++ line) = none := by
    rw [Outline.headerOf?, htext,
      Line.ignoresPadding_header?.trimmed_eq_of_isNameChar hkeyword]
    apply Line.header?_of_keyword
    rw [List.append_assoc]
    exact List.prefix_append _ _
  have hcall : Outline.callOf? ("PERFORM" ++ gap ++ line) =
      some (String.ofList (Line.leadingName line.toList)) := by
    rw [Outline.callOf?, htext,
      Line.ignoresPadding_callTarget?.trimmed_eq_of_isNameChar hkeyword,
      Line.callTarget?_reference hgap hfirst]
  constructor
  · rw [Scanner.opens_iff, Scanner.addsCalls_iff hopen, hheader, Line.header?_eq_some_iff, hplain,
      hcall, Option.toList_some, List.singleton_inj, ← String.toList_inj, String.toList_ofList,
      eq_self, true_and, and_comm]
  · intro hopens lines
    rw [Scanner.Opens] at hopens
    rw [hopens]
    apply ((scanner.openParagraph label).names_prefix_feedLines lines).subset
    apply CallGraph.mem_names_of_find?
    rw [Scanner.openParagraph, CallGraph.find?, CallGraph.put, Register.lookup_put,
      if_pos rfl]

/-- A letter that is not of the kind that names are made of cuts the label short, and the
call alike. -/
theorem opens_iff_addsCalls_cut_short :
    let scanner := ({} : Scanner).openParagraph "100-A"
    let gap := "\u2003\t"
    let line := "200-B\u00E9. \uFEFF"
    (scanner.current ≠ none ∧ Line.IsGap gap.toList ∧
      ∃ char ∈ line.toList.head?, Line.isNameChar char = true) ∧
    (scanner.Opens line "200-B" ∧ scanner.AddsCalls ("PERFORM" ++ gap ++ line) ["200-B"]) ∧
    ∀ lines, "200-B" ∈ ((scanner.feed line).feedLines lines).graph.names := by
  intro scanner gap line
  have hopen : scanner.current ≠ none := Option.some_ne_none _
  have hgap : Line.IsGap gap.toList := ⟨by decide, List.all_eq_true.mp (by decide)⟩
  have hfirst : ∃ char ∈ line.toList.head?, Line.isNameChar char = true :=
    ⟨'2', by decide, by decide⟩
  have hopens : scanner.Opens line "200-B" := Scanner.opens_iff.mpr (by decide +kernel)
  obtain ⟨hiff, hkept⟩ := opens_iff_addsCalls scanner gap line "200-B" hopen hgap hfirst
  exact ⟨⟨hopen, hgap, hfirst⟩, ⟨hopens, (hiff.mp hopens).1⟩, hkept hopens⟩

end SqlReach
