import Mathlib.Data.List.DropRight
import SqlReach.Proofs.Register
import SqlReach.Scanner

/-!
# The outline of a program

The outline describes the call graph of a program by looking at all its lines at
once.  Its keys are the labels of the header lines, in the order in which they
first occur.  The body of a paragraph is what stands between the last header with
its label and the next header of any label, and calls and SQL are read off the
body.  The scanner, which passes over the lines once and starts a paragraph anew
whenever its header is repeated, builds exactly this graph.
-/

namespace SqlReach

namespace Outline

/-- The label of a header line. -/
def headerOf? (line : String) : Option String :=
  Line.header? (Line.trimmed line.toList)

def callOf? (line : String) : Option String :=
  Line.callTarget? (Line.trimmed line.toList)

def holdsSql (line : String) : Bool :=
  Line.mentionsSql (Line.trimmed line.toList)

/-- The labels of all header lines, repeated ones included. -/
def headers (lines : List String) : List String :=
  lines.filterMap headerOf?

/-- The lines behind the last header with a given label. -/
def behindHeader (name : String) (lines : List String) : List String :=
  lines.rtakeWhile (headerOf? · ≠ some name)

/-- The lines between the last header with a given label and the next header of
any label. -/
def body (name : String) (lines : List String) : List String :=
  (behindHeader name lines).takeWhile (headerOf? · = none)

def paragraph (lines : List String) (name : String) : Paragraph where
  name := name
  calls := (body name lines).filterMap callOf?
  usesSql := (body name lines).any holdsSql

end Outline

/-- The call graph that a list of lines describes. -/
def outline (lines : List String) : CallGraph where
  sections := (Outline.headers lines).eraseDups.map fun name => (name, Outline.paragraph lines name)

namespace Outline

variable {lines : List String} {line name label : String}

/-! ## One more line -/

theorem headers_concat_header (hheader : headerOf? line = some label) :
    headers (lines ++ [line]) = headers lines ++ [label] := by
  simp [headers, hheader]

theorem headers_concat_plain (hplain : headerOf? line = none) :
    headers (lines ++ [line]) = headers lines := by
  simp [headers, hplain]

theorem takeWhile_concat {α : Type} (keep : α → Bool) (items : List α) (item : α) :
    (items ++ [item]).takeWhile keep =
      if (∀ earlier ∈ items, keep earlier = true) ∧ keep item = true then items ++ [item]
      else items.takeWhile keep := by
  induction items with
  | nil => cases hkeep : keep item <;> simp [hkeep]
  | cons first rest ih =>
      rw [List.cons_append, List.takeWhile_cons, List.takeWhile_cons, ih]
      cases hfirst : keep first with
      | false => simp [hfirst]
      | true =>
          simp only [if_true, List.forall_mem_cons, hfirst, true_and]
          split <;> rfl

theorem body_concat_own_header (hheader : headerOf? line = some name) :
    body name (lines ++ [line]) = [] := by
  rw [body, behindHeader, List.rtakeWhile_concat_neg _ _ _ (by simp [hheader])]
  rfl

theorem behindHeader_concat (hother : headerOf? line ≠ some name) :
    behindHeader name (lines ++ [line]) = behindHeader name lines ++ [line] := by
  rw [behindHeader, List.rtakeWhile_concat_pos _ _ _ (by simpa using hother), behindHeader]

/-- The header of another paragraph ends a body, if nothing has ended it before. -/
theorem body_concat_other_header (hheader : headerOf? line = some label) (hother : label ≠ name) :
    body name (lines ++ [line]) = body name lines := by
  have hbehind : headerOf? line ≠ some name := by
    simpa [hheader] using hother
  rw [body, behindHeader_concat hbehind, takeWhile_concat, if_neg (by simp [hheader]), body]

/-- No header follows the last header with a given label exactly when no other
label is the last one of all. -/
theorem behindHeader_plain_iff (name : String) (lines : List String) :
    (∀ line ∈ behindHeader name lines, headerOf? line = none) ↔
      ∀ label ∈ (headers lines).getLast?, label = name := by
  induction lines using List.reverseRecOn with
  | nil => simp [behindHeader, headers]
  | append_singleton lines line ih =>
      cases hheader : headerOf? line with
      | none =>
          rw [behindHeader_concat (by simp [hheader]), headers_concat_plain hheader, ← ih]
          simp [or_imp, forall_and, hheader]
      | some label =>
          rw [headers_concat_header hheader, List.getLast?_concat]
          by_cases hname : label = name
          · subst hname
            rw [behindHeader, List.rtakeWhile_concat_neg _ _ _ (by simp [hheader])]
            simp
          · rw [behindHeader_concat (by simpa [hheader] using hname)]
            simp [hheader, hname]

/-- A plain line belongs to the paragraph with the last header of all. -/
theorem body_concat_plain (hplain : headerOf? line = none)
    (hlast : (headers lines).getLast? = some name) :
    body name (lines ++ [line]) = body name lines ++ [line] := by
  have hbehind : ∀ earlier ∈ behindHeader name lines, headerOf? earlier = none := by
    rw [behindHeader_plain_iff, hlast]
    simp
  have hbody : body name lines = behindHeader name lines := by
    rw [body, List.takeWhile_eq_self_iff]
    simpa using hbehind
  rw [hbody, body, behindHeader_concat (by simp [hplain]), takeWhile_concat,
    if_pos (by simpa [hplain] using hbehind)]

theorem body_concat_plain_of_ne (hplain : headerOf? line = none)
    (hlast : (headers lines).getLast? = some label) (hother : label ≠ name) :
    body name (lines ++ [line]) = body name lines := by
  have hbehind : ¬ ∀ earlier ∈ behindHeader name lines, headerOf? earlier = none := by
    rw [behindHeader_plain_iff, hlast]
    simpa using hother
  rw [body, behindHeader_concat (by simp [hplain]), takeWhile_concat,
    if_neg (by simpa [hplain] using hbehind), body]

theorem paragraph_concat_header (hheader : headerOf? line = some label) (name : String) :
    paragraph (lines ++ [line]) name =
      if name = label then { name := label } else paragraph lines name := by
  split
  · rename_i hname
    subst hname
    simp [paragraph, body_concat_own_header hheader]
  · rename_i hname
    simp [paragraph, body_concat_other_header hheader (Ne.symm hname)]

theorem paragraph_concat_plain (hplain : headerOf? line = none)
    (hlast : (headers lines).getLast? = some label) (name : String) :
    paragraph (lines ++ [line]) name =
      if name = label then Scanner.extend (paragraph lines label) (Line.trimmed line.toList)
      else paragraph lines name := by
  split
  · rename_i hname
    subst hname
    rw [paragraph, body_concat_plain hplain hlast, List.filterMap_append, List.any_append]
    simp only [List.filterMap_cons, List.filterMap_nil, List.any_cons, List.any_nil,
      Bool.or_false, paragraph, Scanner.extend, holdsSql, callOf?]
    cases Line.callTarget? (Line.trimmed line.toList) <;> rfl
  · rename_i hname
    simp [paragraph, body_concat_plain_of_ne hplain hlast (Ne.symm hname)]

theorem put_outline (lines : List String) (name : String) (stored : Paragraph) :
    (outline lines).put name stored =
      ⟨(Register.keysWith name (headers lines).eraseDups).map fun known =>
        (known, if known = name then stored else paragraph lines known)⟩ := by
  rw [CallGraph.put, outline, Register.put_map _ _ _ (Register.nodup_eraseDups _)]

end Outline

/-! ## The scanner follows the outline -/

namespace Scanner

/-- The scanner has read `lines`: it holds their outline, and the open paragraph
is the one with the last header. -/
structure HasRead (scanner : Scanner) (lines : List String) : Prop where
  graph_eq : scanner.graph = outline lines
  current_eq : scanner.current =
    (Outline.headers lines).getLast?.map (Outline.paragraph lines)

variable {scanner : Scanner} {lines : List String} {line label : String}

theorem hasRead_nil : ({} : Scanner).HasRead [] where
  graph_eq := rfl
  current_eq := rfl

theorem feed_header (hheader : Outline.headerOf? line = some label) :
    scanner.feed line = scanner.openParagraph label := by
  simp only [Outline.headerOf?] at hheader
  simp only [feed, feedTrimmed, hheader]

theorem HasRead.feed_header (hread : scanner.HasRead lines)
    (hheader : Outline.headerOf? line = some label) :
    (scanner.feed line).HasRead (lines ++ [line]) := by
  rw [Scanner.feed_header hheader]
  constructor
  · rw [openParagraph, hread.graph_eq, Outline.put_outline]
    simp only [outline, Outline.headers_concat_header hheader, Register.eraseDups_concat,
      Outline.paragraph_concat_header hheader]
  · simp [openParagraph, Outline.headers_concat_header hheader,
      Outline.paragraph_concat_header hheader]

theorem HasRead.feed_plain (hread : scanner.HasRead lines)
    (hplain : Outline.headerOf? line = none) :
    (scanner.feed line).HasRead (lines ++ [line]) := by
  have hheader : Line.header? (Line.trimmed line.toList) = none := hplain
  cases hlast : (Outline.headers lines).getLast? with
  | none =>
      have hheaders : Outline.headers lines = [] := List.getLast?_eq_none_iff.mp hlast
      have hcurrent : scanner.current = none := by
        rw [hread.current_eq, hlast]
        rfl
      have hfeed : scanner.feed line = scanner := by
        simp only [feed, feedTrimmed, hheader, hcurrent]
      rw [hfeed]
      constructor
      · simp [hread.graph_eq, outline, Outline.headers_concat_plain hplain, hheaders]
      · simp [hcurrent, Outline.headers_concat_plain hplain, hheaders]
  | some label =>
      have hcurrent : scanner.current = some (Outline.paragraph lines label) := by
        rw [hread.current_eq, hlast]
        rfl
      have hknown : label ∈ (Outline.headers lines).eraseDups :=
        List.mem_eraseDups.mpr (List.mem_of_getLast? hlast)
      constructor
      · simp only [feed, feedTrimmed, hheader, hcurrent, hread.graph_eq]
        rw [show (Outline.paragraph lines label).name = label from rfl, Outline.put_outline]
        simp only [outline, Outline.headers_concat_plain hplain, Register.keysWith,
          if_pos hknown, Outline.paragraph_concat_plain hplain hlast]
      · simp [feed, feedTrimmed, hheader, hcurrent, Outline.headers_concat_plain hplain, hlast,
          Outline.paragraph_concat_plain hplain hlast]

/-- One more line keeps the scanner and the outline together. -/
theorem HasRead.feed (hread : scanner.HasRead lines) (line : String) :
    (scanner.feed line).HasRead (lines ++ [line]) := by
  cases hheader : Outline.headerOf? line with
  | none => exact hread.feed_plain hheader
  | some label => exact hread.feed_header hheader

theorem feedLines_concat (scanner : Scanner) (lines : List String) (line : String) :
    scanner.feedLines (lines ++ [line]) = (scanner.feedLines lines).feed line := by
  simp only [feedLines, List.foldl_append, List.foldl_cons, List.foldl_nil]

/-- So do any number of lines. -/
theorem hasRead_feedLines (lines : List String) :
    (({} : Scanner).feedLines lines).HasRead lines := by
  induction lines using List.reverseRecOn with
  | nil => exact hasRead_nil
  | append_singleton lines line ih =>
      rw [feedLines_concat]
      exact ih.feed line

end Scanner

/-- The graph that a fresh scanner builds from any lines is their outline, and the
graph of a text is the outline of its lines. -/
theorem scanner_graph_eq_outline :
    (∀ lines, (({} : Scanner).feedLines lines).graph = outline lines) ∧
      ∀ text, scan text = outline (Scanner.linesOf text) := by
  constructor
  · intro lines
    exact (Scanner.hasRead_feedLines lines).graph_eq
  · intro text
    rw [scan, Scanner.ofText]
    exact (Scanner.hasRead_feedLines (Scanner.linesOf text)).graph_eq

end SqlReach
