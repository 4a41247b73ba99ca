import Mathlib
import SqlReach.Proofs.Scanner.Blocks
import SqlReach.Proofs.Scanner.Lines

/-!
# The call graphs of programs

Which call graphs do programs have?  Those in which no label occurs twice, every
paragraph stands under its own name, that name is a label, and whatever is called is
a name.  Every scanned text has such a graph, however little it looks like a program.
Conversely such a graph can be written down in the plainest way, a label and then a
line for each call and for SQL, and scanning that text gives the graph back.  No name
is mistaken for a keyword on the way, not even a paragraph called `EXEC` or `PERFORM`.
-/

namespace SqlReach

namespace Text

variable {drop : Char → Bool} {text : List Char}

theorem dropWhile_eq_self (hfirst : ∀ char ∈ text.head?, drop char = false) :
    text.dropWhile drop = text := by
  cases text with
  | nil => rfl
  | cons first rest =>
      rw [List.dropWhile_cons, hfirst first rfl]
      rfl

theorem trimRight_eq_self (hlast : ∀ char ∈ text.getLast?, drop char = false) :
    trimRight drop text = text := by
  have hkept : text.reverse.dropWhile drop = text.reverse := by
    apply dropWhile_eq_self
    rwa [List.head?_reverse]
  rw [trimRight, hkept, List.reverse_reverse]

theorem trim_eq_self (hfirst : ∀ char ∈ text.head?, drop char = false)
    (hlast : ∀ char ∈ text.getLast?, drop char = false) : trim drop text = text := by
  rw [trim, dropWhile_eq_self hfirst, trimRight_eq_self hlast]

theorem trim_append {front : List Char} (hfront : ∀ char ∈ front, drop char = true) :
    trim drop (front ++ text) = trim drop text := by
  rw [trim, List.dropWhile_append_of_pos hfront, trim]

end Text

namespace Line

open SqlReach.Text

/-- A label: three digits, a hyphen and a name. -/
def IsLabel (label : String) : Prop :=
  ∃ digits rest : List Char, label.toList = digits ++ '-' :: rest ∧ digits.length = 3 ∧
    (∀ char ∈ digits, char.isDigit = true) ∧ rest ≠ [] ∧ ∀ char ∈ rest, isNameChar char = true

/-- A character that is never trimmed. -/
def isSolid (char : Char) : Bool :=
  !isBlank char && char != '\uFEFF'

theorem toNat_of_isNameChar {char : Char} (hchar : isNameChar char = true) :
    0x2D ≤ char.toNat ∧ char.toNat ≤ 0x7A := by
  simp only [isNameChar, Char.isAlphanum, Char.isAlpha, Char.isUpper, Char.isLower, Char.isDigit,
    Bool.or_eq_true, Bool.and_eq_true, decide_eq_true_eq, beq_iff_eq] at hchar
  rcases hchar with (((hupper | hlower) | hdigit) | rfl) | rfl
  · have hlow : 65 ≤ char.toNat := UInt32.le_iff_toNat_le.mp hupper.1
    have hhigh : char.toNat ≤ 90 := UInt32.le_iff_toNat_le.mp hupper.2
    omega
  · have hlow : 97 ≤ char.toNat := UInt32.le_iff_toNat_le.mp hlower.1
    have hhigh : char.toNat ≤ 122 := UInt32.le_iff_toNat_le.mp hlower.2
    omega
  · have hlow : 48 ≤ char.toNat := UInt32.le_iff_toNat_le.mp hdigit.1
    have hhigh : char.toNat ≤ 57 := UInt32.le_iff_toNat_le.mp hdigit.2
    omega
  · decide
  · decide

theorem isBlank_of_isNameChar {char : Char} (hchar : isNameChar char = true) :
    isBlank char = false := by
  obtain ⟨hlow, hhigh⟩ := toNat_of_isNameChar hchar
  simp only [isBlank, Bool.or_eq_false_iff, Bool.and_eq_false_iff, decide_eq_false_iff_not,
    beq_eq_false_iff_ne]
  omega

theorem isSolid_of_isNameChar {char : Char} (hchar : isNameChar char = true) :
    isSolid char = true := by
  have hmark : char ≠ '\uFEFF' := by
    rintro rfl
    exact absurd hchar (by decide)
  simp [isSolid, isBlank_of_isNameChar hchar, hmark]

theorem newline_not_mem_of_isNameChar {text : List Char}
    (htext : ∀ char ∈ text, isNameChar char = true) : '\n' ∉ text := by
  intro hmem
  exact absurd (htext '\n' hmem) (by decide)

/-- Trimming takes away the indentation of a text with solid ends, and no more. -/
theorem trimmed_append {front text : List Char} (hfront : ∀ char ∈ front, isBlank char = true)
    (hfirst : ∀ char ∈ text.head?, isSolid char = true)
    (hlast : ∀ char ∈ text.getLast?, isSolid char = true) : trimmed (front ++ text) = text := by
  have hblank : ∀ char, isSolid char = true → isBlank char = false := by
    intro char hsolid
    simp_all [isSolid]
  have hmark : ∀ char, isSolid char = true → (char == '\uFEFF') = false := by
    intro char hsolid
    simp_all [isSolid]
  have hkept : trim isBlank text = text :=
    trim_eq_self (fun char hchar => hblank char (hfirst char hchar))
      (fun char hchar => hblank char (hlast char hchar))
  have hunmarked : trim (· == '\uFEFF') text = text :=
    trim_eq_self (fun char hchar => hmark char (hfirst char hchar))
      (fun char hchar => hmark char (hlast char hchar))
  rw [trimmed, trim_append hfront, hkept, hunmarked, hkept]

/-! ## Labels -/

theorem isLabel_of_header? {text : List Char} {label : String}
    (hheader : header? text = some label) : IsLabel label := by
  unfold header? at hheader
  split at hheader
  · rename_i first second third rest
    split at hheader
    · rename_i hlabel
      simp only [Bool.and_eq_true, decide_eq_true_eq] at hlabel
      obtain ⟨⟨⟨hfirst, hsecond⟩, hthird⟩, hname⟩ := hlabel
      cases hheader
      refine ⟨[first, second, third], leadingName rest, by simp, rfl, ?_, hname, ?_⟩
      · simp [hfirst, hsecond, hthird]
      · intro char hchar
        exact List.mem_takeWhile_imp hchar
    · cases hheader
  · cases hheader

theorem leadingName_append {name after : List Char}
    (hname : ∀ char ∈ name, isNameChar char = true)
    (hafter : ∀ char ∈ after.head?, isNameChar char = false) :
    leadingName (name ++ after) = name := by
  rw [leadingName, List.takeWhile_append_of_pos hname]
  cases after with
  | nil => simp
  | cons stop later => simp [hafter stop rfl]

/-- A label is read up to the first character that is not part of a name. -/
theorem header?_append {label : String} (hlabel : IsLabel label) {after : List Char}
    (hafter : ∀ char ∈ after.head?, isNameChar char = false) :
    header? (label.toList ++ after) = some label := by
  obtain ⟨digits, rest, htoList, hlength, hdigits, hne, hrest⟩ := hlabel
  obtain ⟨first, second, third, rfl⟩ : ∃ first second third, digits = [first, second, third] :=
    List.length_eq_three.mp hlength
  have hname : leadingName (rest ++ after) = rest := leadingName_append hrest hafter
  have hfirst := hdigits first (by simp)
  have hsecond := hdigits second (by simp)
  have hthird := hdigits third (by simp)
  have hback : String.ofList (first :: second :: third :: '-' :: rest) = label := by
    rw [← String.toList_inj, String.toList_ofList, htoList]
    rfl
  rw [htoList]
  simp only [List.cons_append, List.nil_append, header?, hname, hfirst, hsecond, hthird,
    Bool.and_self, hne, ne_eq, not_false_eq_true, decide_true, if_true, hback]

theorem IsLabel.isNameChar {label : String} (hlabel : IsLabel label) :
    ∀ char ∈ label.toList, Line.isNameChar char = true := by
  obtain ⟨digits, rest, htoList, -, hdigits, -, hrest⟩ := hlabel
  intro char hchar
  rw [htoList, List.mem_append, List.mem_cons] at hchar
  rcases hchar with hdigit | rfl | hname
  · simp [Line.isNameChar, Char.isAlphanum, hdigits char hdigit]
  · decide
  · exact hrest char hname

/-! ## Calls and SQL -/

theorem leadingName_eq_self {name : List Char} (hname : ∀ char ∈ name, isNameChar char = true) :
    leadingName name = name :=
  List.takeWhile_eq_self_iff.mpr hname

theorem callTarget?_append {name : String} (hname : IsName name) :
    callTarget? ("PERFORM ".toList ++ name.toList) = some name := by
  obtain ⟨first, rest, htoList⟩ : ∃ first rest, name.toList = first :: rest :=
    List.exists_cons_of_ne_nil hname.toList_ne_nil
  have hsolid : isBlank first = false := by
    apply isBlank_of_isNameChar
    apply hname.2
    rw [htoList]
    exact List.mem_cons_self
  have hgap : afterGap? (' ' :: name.toList) = some name.toList := by
    have hspace : isBlank ' ' = true := by decide
    rw [afterGap?, if_pos hspace, htoList, List.dropWhile_cons, hsolid]
    rfl
  have hword : afterWord? (· == ·) callKeyword ("PERFORM ".toList ++ name.toList) =
      some (' ' :: name.toList) := rfl
  have hcall : leadingCall? ("PERFORM ".toList ++ name.toList) = some name := by
    rw [leadingCall?, hword, Option.bind_some, hgap]
    simp only
    rw [leadingName_eq_self hname.2, if_neg hname.toList_ne_nil, String.ofList_toList]
  have hprefix : callKeyword.isPrefixOf ("PERFORM ".toList ++ name.toList) = true := rfl
  have hfirst : firstCall? ("PERFORM ".toList ++ name.toList) =
      (leadingCall? ("PERFORM ".toList ++ name.toList) <|>
        firstCall? ("ERFORM ".toList ++ name.toList)) := rfl
  rw [callTarget?, if_pos hprefix, hfirst, hcall]
  rfl

theorem afterWord?_suffix {same : Char → Char → Bool} {word text rest : List Char}
    (hrest : afterWord? same word text = some rest) : rest <:+ text := by
  induction word generalizing text with
  | nil =>
      cases hrest
      exact List.suffix_refl _
  | cons letter word ih =>
      cases text with
      | nil => cases hrest
      | cons char text =>
          rw [afterWord?] at hrest
          split at hrest
          · exact (ih hrest).trans (List.suffix_cons char text)
          · cases hrest

/-- Where nothing is blank, no gap divides the two words of SQL. -/
theorem leadsWithSql_of_solid {text : List Char} (htext : ∀ char ∈ text, isBlank char = false) :
    leadsWithSql text = false := by
  have hnone : (afterWord? sameLetter "EXEC".toList text).bind afterGap? = none := by
    rw [Option.bind_eq_none_iff]
    intro rest hrest
    cases rest with
    | nil => rfl
    | cons first rest =>
        have hfirst : isBlank first = false :=
          htext first ((afterWord?_suffix hrest).subset List.mem_cons_self)
        simp [afterGap?, hfirst]
  rw [leadsWithSql, hnone]

theorem mentionsSql_of_solid {text : List Char} (htext : ∀ char ∈ text, isBlank char = false) :
    mentionsSql text = false := by
  induction text with
  | nil => rfl
  | cons first rest ih =>
      rw [mentionsSql, leadsWithSql_of_solid htext, ih (List.forall_mem_cons.mp htext).2]
      rfl

theorem mentionsSql_call {name : String} (hname : IsName name) :
    mentionsSql ("PERFORM ".toList ++ name.toList) = false := by
  have hskip : mentionsSql ("PERFORM ".toList ++ name.toList) = mentionsSql name.toList := rfl
  rw [hskip]
  apply mentionsSql_of_solid
  intro char hchar
  exact isBlank_of_isNameChar (hname.2 char hchar)

end Line

/-! ## A graph written down -/

namespace CallGraph

open Line Outline

/-- The graphs that programs have. -/
structure IsProper (graph : CallGraph) : Prop where
  names_nodup : graph.names.Nodup
  name_eq : ∀ entry ∈ graph.sections, entry.2.name = entry.1
  isLabel : ∀ entry ∈ graph.sections, IsLabel entry.1
  isName : ∀ entry ∈ graph.sections, ∀ call ∈ entry.2.calls, IsName call

section Lines

variable {label call : String}

theorem trimmed_label (hlabel : IsLabel label) :
    trimmed (label ++ ".").toList = label.toList ++ ['.'] := by
  have hsolid : ∀ char ∈ label.toList ++ ['.'], isSolid char = true := by
    intro char hchar
    rcases List.mem_append.mp hchar with hname | hpoint
    · exact isSolid_of_isNameChar (hlabel.isNameChar char hname)
    · rw [List.mem_singleton.mp hpoint]
      decide
  have hline : (label ++ ".").toList = [] ++ (label.toList ++ ['.']) := by simp
  rw [hline]
  apply trimmed_append
  · simp
  · intro char hchar
    exact hsolid char (List.mem_of_head? hchar)
  · intro char hchar
    exact hsolid char (List.mem_of_getLast? hchar)

theorem headerOf?_label (hlabel : IsLabel label) : headerOf? (label ++ ".") = some label := by
  rw [headerOf?, trimmed_label hlabel]
  apply header?_append hlabel
  intro char hchar
  obtain rfl : '.' = char := by simpa using hchar
  decide

theorem trimmed_call (hcall : IsName call) :
    trimmed ("    PERFORM " ++ call).toList = "PERFORM ".toList ++ call.toList := by
  have hline : ("    PERFORM " ++ call).toList =
      "    ".toList ++ ("PERFORM ".toList ++ call.toList) := by
    simp
  have hlast : ∀ char ∈ ("PERFORM ".toList ++ call.toList).getLast?, char ∈ call.toList := by
    intro char hchar
    rw [List.getLast?_append_of_ne_nil _ hcall.toList_ne_nil] at hchar
    exact List.mem_of_getLast? hchar
  rw [hline]
  apply trimmed_append
  · exact List.all_eq_true.mp (by decide)
  · intro char hchar
    obtain rfl : 'P' = char := by simpa using hchar
    decide
  · intro char hchar
    exact isSolid_of_isNameChar (hcall.2 char (hlast char hchar))

theorem headerOf?_call (hcall : IsName call) : headerOf? ("    PERFORM " ++ call) = none := by
  rw [headerOf?, trimmed_call hcall]
  rfl

theorem callOf?_call (hcall : IsName call) : callOf? ("    PERFORM " ++ call) = some call := by
  rw [callOf?, trimmed_call hcall, callTarget?_append hcall]

theorem holdsSql_call (hcall : IsName call) : holdsSql ("    PERFORM " ++ call) = false := by
  rw [holdsSql, trimmed_call hcall, mentionsSql_call hcall]

theorem line_sql : headerOf? "    EXEC SQL" = none ∧ callOf? "    EXEC SQL" = none ∧
    holdsSql "    EXEC SQL" = true := by
  decide +kernel

end Lines

section Blocks

variable {name : String} {paragraph : Paragraph}

/-- The lines behind the label in the text of a paragraph. -/
def bodyLines (paragraph : Paragraph) : List String :=
  paragraph.calls.map ("    PERFORM " ++ ·) ++ (if paragraph.usesSql then ["    EXEC SQL"] else [])

theorem mem_bodyLines {line : String} (hline : line ∈ bodyLines paragraph) :
    (∃ call ∈ paragraph.calls, line = "    PERFORM " ++ call) ∨ line = "    EXEC SQL" := by
  rcases List.mem_append.mp hline with hperform | hsql
  · obtain ⟨call, hcall, rfl⟩ := List.mem_map.mp hperform
    exact Or.inl ⟨call, hcall, rfl⟩
  · split at hsql
    · exact Or.inr (List.mem_singleton.mp hsql)
    · cases hsql

theorem headerOf?_bodyLines (hcalls : ∀ call ∈ paragraph.calls, IsName call) :
    ∀ line ∈ bodyLines paragraph, headerOf? line = none := by
  intro line hline
  rcases mem_bodyLines hline with ⟨call, hcall, rfl⟩ | rfl
  · exact headerOf?_call (hcalls call hcall)
  · exact line_sql.1

theorem filterMap_bodyLines (hcalls : ∀ call ∈ paragraph.calls, IsName call) :
    (bodyLines paragraph).filterMap callOf? = paragraph.calls := by
  have hperforms : (paragraph.calls.map ("    PERFORM " ++ ·)).filterMap callOf? =
      paragraph.calls := by
    have hback : ∀ call ∈ paragraph.calls,
        (callOf? ∘ ("    PERFORM " ++ ·)) call = some call := by
      intro call hcall
      rw [Function.comp_apply, callOf?_call (hcalls call hcall)]
    rw [List.filterMap_map, List.filterMap_congr hback, List.filterMap_some]
  have hsql : (if paragraph.usesSql then ["    EXEC SQL"] else []).filterMap callOf? = [] := by
    split
    · simp [line_sql.2.1]
    · rfl
  rw [bodyLines, List.filterMap_append, hperforms, hsql, List.append_nil]

theorem any_bodyLines (hcalls : ∀ call ∈ paragraph.calls, IsName call) :
    (bodyLines paragraph).any holdsSql = paragraph.usesSql := by
  have hperforms : (paragraph.calls.map ("    PERFORM " ++ ·)).any holdsSql = false := by
    rw [List.any_eq_false]
    intro line hline
    obtain ⟨call, hcall, rfl⟩ := List.mem_map.mp hline
    simp [holdsSql_call (hcalls call hcall)]
  rw [bodyLines, List.any_append, hperforms]
  cases paragraph.usesSql with
  | true => simp [line_sql.2.2]
  | false => rfl

/-- The text of a paragraph is a block that says what the paragraph holds. -/
def blockOf (hlabel : IsLabel name) (hcalls : ∀ call ∈ paragraph.calls, IsName call) : Block where
  label := name
  header := name ++ "."
  body := bodyLines paragraph
  header_eq := headerOf?_label hlabel
  body_plain := headerOf?_bodyLines hcalls

theorem paragraph_blockOf (hlabel : IsLabel name)
    (hcalls : ∀ call ∈ paragraph.calls, IsName call) (hname : paragraph.name = name) :
    (blockOf hlabel hcalls).paragraph = paragraph := by
  obtain ⟨own, calls, usesSql⟩ := paragraph
  obtain rfl : own = name := hname
  simp only [Block.paragraph, blockOf, filterMap_bodyLines hcalls, any_bodyLines hcalls]

end Blocks

theorem exists_blocks {sections : List (String × Paragraph)}
    (hnames : ∀ entry ∈ sections, entry.2.name = entry.1)
    (hlabels : ∀ entry ∈ sections, IsLabel entry.1)
    (hcalls : ∀ entry ∈ sections, ∀ call ∈ entry.2.calls, IsName call) :
    ∃ blocks : List Block,
      blocks.flatMap Block.lines = sections.flatMap (fun entry => paragraphLines entry.1 entry.2) ∧
        blocks.map (fun block => (block.label, block.paragraph)) = sections := by
  induction sections with
  | nil => exact ⟨[], rfl, rfl⟩
  | cons entry rest ih =>
      obtain ⟨hname, hnames⟩ := List.forall_mem_cons.mp hnames
      obtain ⟨hlabel, hlabels⟩ := List.forall_mem_cons.mp hlabels
      obtain ⟨hcall, hcalls⟩ := List.forall_mem_cons.mp hcalls
      obtain ⟨blocks, hlines, hsections⟩ := ih hnames hlabels hcalls
      refine ⟨blockOf hlabel hcall :: blocks, ?_, ?_⟩
      · rw [List.flatMap_cons, List.flatMap_cons, hlines]
        rfl
      · rw [List.map_cons, hsections, paragraph_blockOf hlabel hcall hname]
        rfl

theorem newline_not_mem_paragraphLines {name : String} {paragraph : Paragraph}
    (hlabel : IsLabel name) (hcalls : ∀ call ∈ paragraph.calls, IsName call) :
    ∀ line ∈ paragraphLines name paragraph, '\n' ∉ line.toList := by
  intro line hline
  rcases List.mem_cons.mp hline with rfl | hbody
  · have hname := newline_not_mem_of_isNameChar hlabel.isNameChar
    simp [hname]
  · rcases mem_bodyLines hbody with ⟨call, hcall, rfl⟩ | rfl
    · have hname := newline_not_mem_of_isNameChar (hcalls call hcall).2
      simp [hname]
    · decide

/-- The lines of the text of a graph; the empty graph has an empty line. -/
theorem IsProper.linesOf_toSource {graph : CallGraph} (hproper : graph.IsProper)
    (hne : graph.sections ≠ []) :
    Scanner.linesOf graph.toSource =
      graph.sections.flatMap fun entry => paragraphLines entry.1 entry.2 := by
  apply Scanner.linesOf_intercalate
  · obtain ⟨entry, rest, hsections⟩ := List.exists_cons_of_ne_nil hne
    simp [hsections, paragraphLines]
  · intro line hline
    obtain ⟨entry, hentry, hline⟩ := List.mem_flatMap.mp hline
    exact newline_not_mem_paragraphLines (hproper.isLabel entry hentry)
      (hproper.isName entry hentry) line hline

theorem IsProper.scan_toSource {graph : CallGraph} (hproper : graph.IsProper) :
    scan graph.toSource = graph := by
  obtain ⟨sections⟩ := graph
  by_cases hne : sections = []
  · subst hne
    decide +kernel
  · obtain ⟨blocks, hlines, hsections⟩ :=
      exists_blocks hproper.name_eq hproper.isLabel hproper.isName
    have hlabels : (blocks.map Block.label).Nodup := by
      have hnames := hproper.names_nodup
      rw [names, ← hsections, List.map_map] at hnames
      exact hnames
    have hpreamble : ∀ line ∈ [], headerOf? line = none := by simp
    have hblocks := Block.outline_append_flatMap_lines hpreamble hlabels
    rw [scan_eq_outline, hproper.linesOf_toSource hne, ← hlines,
      ← List.nil_append (blocks.flatMap _), hblocks, hsections]

/-! ## A text scanned -/

theorem mem_sections_outline {lines : List String} {entry : String × Paragraph}
    (hentry : entry ∈ (outline lines).sections) :
    ∃ name ∈ headers lines, entry = (name, Outline.paragraph lines name) := by
  obtain ⟨name, hname, rfl⟩ := List.mem_map.mp hentry
  exact ⟨name, List.mem_eraseDups.mp hname, rfl⟩

theorem isProper_scan (text : String) : (scan text).IsProper := by
  rw [scan_eq_outline]
  constructor
  · rw [names_outline]
    exact Register.nodup_eraseDups _
  · intro entry hentry
    obtain ⟨name, -, rfl⟩ := mem_sections_outline hentry
    rfl
  · intro entry hentry
    obtain ⟨name, hname, rfl⟩ := mem_sections_outline hentry
    obtain ⟨line, -, hheader⟩ := List.mem_filterMap.mp hname
    exact isLabel_of_header? hheader
  · intro entry hentry call hcall
    obtain ⟨name, hname, rfl⟩ := mem_sections_outline hentry
    have hcalled : call ∈ (outline (Scanner.linesOf text)).callsOf name := by
      rwa [callsOf_outline hname]
    exact Outline.isName_of_called hcalled

end CallGraph

/-- The call graphs of texts are exactly the proper ones, and a proper graph is the
graph of its own text. -/
theorem exists_scan_eq_iff_isProper :
    (∀ graph : CallGraph, (∃ text, scan text = graph) ↔ graph.IsProper) ∧
      ∀ graph : CallGraph, graph.IsProper → scan graph.toSource = graph := by
  constructor
  · intro graph
    constructor
    · rintro ⟨text, rfl⟩
      exact CallGraph.isProper_scan text
    · intro hproper
      exact ⟨graph.toSource, hproper.scan_toSource⟩
  · intro graph hproper
    exact hproper.scan_toSource

/-- Paragraphs with the names of keywords are called, and the second label has
nothing but a hyphen behind its hyphen. -/
theorem exists_scan_eq_iff_isProper_keywords :
    let graph : CallGraph :=
      ⟨[("100-EXEC", { name := "100-EXEC", calls := ["EXEC", "PERFORM", "---"], usesSql := true }),
        ("000--", { name := "000--", calls := ["SQL", "SQL"] })]⟩
    graph.IsProper ∧ (∃ text, scan text = graph) ∧ scan graph.toSource = graph := by
  intro graph
  have hproper : graph.IsProper := by
    constructor
    · decide
    · decide
    · simp only [graph, List.forall_mem_cons, Line.IsLabel, ← List.all_eq_true]
      refine ⟨⟨['1', '0', '0'], "EXEC".toList, by decide⟩,
        ⟨['0', '0', '0'], ['-'], by decide⟩, by simp⟩
    · simp only [graph, Line.IsName, ← List.all_eq_true]
      decide
  obtain ⟨himage, hback⟩ := exists_scan_eq_iff_isProper
  exact ⟨hproper, (himage graph).mpr hproper, hback graph hproper⟩

end SqlReach
