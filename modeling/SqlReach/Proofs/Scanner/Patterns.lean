import Mathlib.Data.List.Forall2
import SqlReach.Proofs.Scanner.Coherence
import SqlReach.Proofs.Scanner.Padding

/-!
# What the recognisers look for

Each recogniser of a line looks for a pattern: a label in front of the line, a call and
SQL anywhere in it.  A pattern says how the text has to be put together, and nothing about
how it is searched for; the recognisers compare letters, skip blanks, and move on to the
next place when a candidate fails.  This module proves that they find what the patterns
describe, the call with the shortest text in front of it, and what that means for a scanner
with an open paragraph.
-/

namespace SqlReach

namespace Line

open SqlReach.Text

/-! ## The patterns -/

/-- One or more blanks and nothing else. -/
def IsGap (gap : List Char) : Prop :=
  gap ≠ [] ∧ ∀ char ∈ gap, isBlank char = true

/-- A text that does not go on with a name that stands in front of it. -/
def EndsName (rest : List Char) : Prop :=
  ∀ char ∈ rest.head?, isNameChar char = false

/-- The text begins with a label, which is not cut short. -/
def IsLabelledBy (text : List Char) (label : String) : Prop :=
  ∃ rest, text = label.toList ++ rest ∧ IsLabel label ∧ EndsName rest

/-- The text begins with the keyword of a call, a gap and the name that is called, which
is not cut short. -/
def BeginsWithCall (called : String) (text : List Char) : Prop :=
  ∃ gap rest, text = callKeyword ++ gap ++ called.toList ++ rest ∧
    IsGap gap ∧ IsName called ∧ EndsName rest

def CallsBehind (front : List Char) (called : String) (text : List Char) : Prop :=
  ∃ behind, text = front ++ behind ∧ BeginsWithCall called behind

/-- Of all texts with a call behind them, a call of this name stands behind the shortest. -/
def CallsFirst (text : List Char) (called : String) : Prop :=
  ∃ front, CallsBehind front called text ∧
    ∀ other name, CallsBehind other name text → front.length ≤ other.length

/-- A form of a capital letter: the letter itself, the small one, and the long s. -/
def IsFormOf (letter char : Char) : Prop :=
  char = letter ∨ char = letter.toLower ∨ letter = 'S' ∧ char = '\u017F'

/-- The text begins with the two words of SQL, in any case and with a gap between them. -/
def BeginsWithSql (text : List Char) : Prop :=
  ∃ first gap second rest, text = first ++ gap ++ second ++ rest ∧
    List.Forall₂ IsFormOf "EXEC".toList first ∧ IsGap gap ∧
    List.Forall₂ IsFormOf "SQL".toList second

def HoldsSql (text : List Char) : Prop :=
  ∃ front behind, text = front ++ behind ∧ BeginsWithSql behind

variable {text rest name : List Char} {called label : String} {char letter : Char}

/-! ## Names and labels -/

theorem leadingName_eq_iff (hname : ∀ char ∈ name, isNameChar char = true) :
    leadingName text = name ↔ ∃ rest, text = name ++ rest ∧ EndsName rest := by
  constructor
  · rintro rfl
    exact ⟨text.dropWhile isNameChar, List.takeWhile_append_dropWhile.symm,
      head?_dropWhile isNameChar text⟩
  · rintro ⟨rest, rfl, hends⟩
    exact leadingName_append hname hends

theorem header?_iff_isLabelledBy : header? text = some label ↔ IsLabelledBy text label := by
  rw [header?_eq_some_iff]
  constructor
  · rintro ⟨hlabel, hname⟩
    obtain ⟨rest, htext, hends⟩ := (leadingName_eq_iff hlabel.isNameChar).mp hname
    exact ⟨rest, htext, hlabel, hends⟩
  · rintro ⟨rest, htext, hlabel, hends⟩
    exact ⟨hlabel, (leadingName_eq_iff hlabel.isNameChar).mpr ⟨rest, htext, hends⟩⟩

/-! ## Words and gaps -/

theorem afterWord?_eq_some_iff {same : Char → Char → Bool} {word : List Char} :
    afterWord? same word text = some rest ↔
      ∃ found, text = found ++ rest ∧
        List.Forall₂ (fun letter char => same letter char = true) word found := by
  induction word generalizing text with
  | nil => simp [afterWord?]
  | cons letter word ih =>
      cases text with
      | nil => simp [afterWord?]
      | cons char text =>
          rw [afterWord?]
          constructor
          · intro hafter
            split at hafter
            · rename_i hsame
              obtain ⟨found, rfl, hfound⟩ := ih.mp hafter
              exact ⟨char :: found, rfl, List.Forall₂.cons hsame hfound⟩
            · cases hafter
          · rintro ⟨found, htext, hfound⟩
            cases hfound with
            | cons hsame hrest =>
                obtain ⟨rfl, rfl⟩ := List.cons.inj htext
                rw [if_pos hsame]
                exact ih.mpr ⟨_, rfl, hrest⟩

theorem afterWord?_beq_eq_some_iff {word : List Char} :
    afterWord? (· == ·) word text = some rest ↔ text = word ++ rest := by
  simp [afterWord?_eq_some_iff, List.forall₂_eq_eq_eq]

theorem afterGap?_eq_some_iff :
    afterGap? text = some rest ↔
      ∃ gap, text = gap ++ rest ∧ IsGap gap ∧ ∀ char ∈ rest.head?, isBlank char = false := by
  constructor
  · intro hafter
    cases text with
    | nil => cases hafter
    | cons char text =>
        rw [afterGap?] at hafter
        split at hafter
        · rename_i hblank
          cases hafter
          refine ⟨char :: text.takeWhile isBlank, ?_, ⟨List.cons_ne_nil _ _, ?_⟩,
            head?_dropWhile isBlank text⟩
          · rw [List.cons_append, List.takeWhile_append_dropWhile]
          · exact List.forall_mem_cons.mpr ⟨hblank, fun _ => List.mem_takeWhile_imp⟩
        · cases hafter
  · rintro ⟨gap, rfl, ⟨hne, hgap⟩, hrest⟩
    cases gap with
    | nil => exact absurd rfl hne
    | cons char gap =>
        obtain ⟨hblank, hgap⟩ := List.forall_mem_cons.mp hgap
        rw [List.cons_append, afterGap?, if_pos hblank, List.dropWhile_append_of_pos hgap,
          dropWhile_eq_self hrest]

/-! ## Calls -/

theorem IsName.head?_append (hname : IsName called) (rest : List Char) :
    ∃ first, (called.toList ++ rest).head? = some first ∧ isNameChar first = true := by
  obtain ⟨first, name, htoList⟩ : ∃ first name, called.toList = first :: name :=
    List.exists_cons_of_ne_nil hname.toList_ne_nil
  refine ⟨first, by rw [htoList]; rfl, hname.2 first ?_⟩
  rw [htoList]
  exact List.mem_cons_self

theorem leadingCall?_eq_some_iff :
    leadingCall? text = some called ↔ BeginsWithCall called text := by
  constructor
  · intro hcall
    have hname := isName_of_leadingCall? hcall
    rw [leadingCall?] at hcall
    split at hcall
    · cases hcall
    · rename_i behind hbehind
      obtain ⟨between, hword, hgap⟩ := Option.bind_eq_some_iff.mp hbehind
      obtain rfl := afterWord?_beq_eq_some_iff.mp hword
      obtain ⟨gap, rfl, hgap, -⟩ := afterGap?_eq_some_iff.mp hgap
      split at hcall
      · cases hcall
      · cases hcall
        refine ⟨gap, behind.dropWhile isNameChar, ?_, hgap, hname,
          head?_dropWhile isNameChar behind⟩
        rw [String.toList_ofList, leadingName, List.append_assoc,
          List.takeWhile_append_dropWhile, List.append_assoc]
  · rintro ⟨gap, rest, rfl, hgap, hname, hends⟩
    have hsolid : ∀ char ∈ (called.toList ++ rest).head?, isBlank char = false := by
      obtain ⟨first, hfirst, hchar⟩ := hname.head?_append rest
      rw [hfirst]
      rintro char ⟨⟩
      exact isBlank_of_isNameChar hchar
    have hword : afterWord? (· == ·) callKeyword
        (callKeyword ++ gap ++ called.toList ++ rest) =
          some (gap ++ (called.toList ++ rest)) := by
      rw [afterWord?_beq_eq_some_iff, List.append_assoc, List.append_assoc]
    have hbehind : afterGap? (gap ++ (called.toList ++ rest)) = some (called.toList ++ rest) :=
      afterGap?_eq_some_iff.mpr ⟨gap, rfl, hgap, hsolid⟩
    rw [leadingCall?, hword, Option.bind_some, hbehind]
    simp only
    rw [leadingName_append hname.2 hends, if_neg hname.toList_ne_nil,
      String.ofList_toList]

theorem not_callsBehind_nil (front : List Char) (called : String) :
    ¬ CallsBehind front called [] := by
  rintro ⟨behind, htext, hcall⟩
  rw [(List.append_eq_nil_iff.mp htext.symm).2, ← leadingCall?_eq_some_iff] at hcall
  cases hcall

/-- A call stands at the front of a text or further right. -/
theorem callsBehind_cons {front : List Char} :
    CallsBehind front called (char :: text) ↔
      front = [] ∧ leadingCall? (char :: text) = some called ∨
        ∃ later, front = char :: later ∧ CallsBehind later called text := by
  rw [leadingCall?_eq_some_iff]
  constructor
  · rintro ⟨behind, htext, hcall⟩
    rcases List.cons_eq_append_iff.mp htext with ⟨rfl, rfl⟩ | ⟨later, rfl, rfl⟩
    · exact Or.inl ⟨rfl, hcall⟩
    · exact Or.inr ⟨later, rfl, behind, rfl, hcall⟩
  · rintro (⟨rfl, hcall⟩ | ⟨later, rfl, behind, rfl, hcall⟩)
    · exact ⟨char :: text, rfl, hcall⟩
    · exact ⟨behind, rfl, hcall⟩

theorem firstCall?_cons (char : Char) (text : List Char) :
    firstCall? (char :: text) = (leadingCall? (char :: text)).or (firstCall? text) := by
  rw [firstCall?, Option.orElse_eq_orElse, Option.orElse_eq_or]

theorem firstCall?_eq_none_iff :
    firstCall? text = none ↔ ∀ front called, ¬ CallsBehind front called text := by
  induction text with
  | nil => exact iff_of_true rfl not_callsBehind_nil
  | cons char text ih =>
      rw [firstCall?_cons, Option.or_eq_none_iff, ih]
      constructor
      · rintro ⟨hhere, hlater⟩ front called hcalls
        rcases callsBehind_cons.mp hcalls with ⟨-, hcall⟩ | ⟨later, -, hcall⟩
        · rw [hhere] at hcall
          cases hcall
        · exact hlater later called hcall
      · intro hnone
        constructor
        · rw [Option.eq_none_iff_forall_ne_some]
          exact fun called hcall => hnone [] called (callsBehind_cons.mpr (Or.inl ⟨rfl, hcall⟩))
        · exact fun front called hcall =>
            hnone (char :: front) called (callsBehind_cons.mpr (Or.inr ⟨front, rfl, hcall⟩))

/-- With a call at the very front, that is the first one. -/
theorem callsFirst_of_leadingCall? {here : String}
    (hhere : leadingCall? (char :: text) = some here) :
    CallsFirst (char :: text) called ↔ here = called := by
  have hfront : CallsBehind [] here (char :: text) := callsBehind_cons.mpr (Or.inl ⟨rfl, hhere⟩)
  constructor
  · rintro ⟨front, hcalls, hshortest⟩
    rcases callsBehind_cons.mp hcalls with ⟨-, hcall⟩ | ⟨later, rfl, -⟩
    · rw [hhere] at hcall
      exact Option.some.inj hcall
    · exact absurd (hshortest [] here hfront) (Nat.not_succ_le_zero later.length)
  · rintro rfl
    exact ⟨[], hfront, fun other name _ => Nat.zero_le other.length⟩

/-- Without one, the first call is the first one further right. -/
theorem callsFirst_cons (hhere : leadingCall? (char :: text) = none) :
    CallsFirst (char :: text) called ↔ CallsFirst text called := by
  have hlater : ∀ front name, CallsBehind front name (char :: text) ↔
      ∃ later, front = char :: later ∧ CallsBehind later name text := by
    intro front name
    rw [callsBehind_cons, hhere]
    simp
  simp only [CallsFirst, hlater]
  constructor
  · rintro ⟨-, ⟨front, rfl, hcalls⟩, hshortest⟩
    refine ⟨front, hcalls, fun other name hother => ?_⟩
    exact Nat.le_of_succ_le_succ (hshortest (char :: other) name ⟨other, rfl, hother⟩)
  · rintro ⟨front, hcalls, hshortest⟩
    refine ⟨char :: front, ⟨front, rfl, hcalls⟩, ?_⟩
    rintro - name ⟨other, rfl, hother⟩
    exact Nat.succ_le_succ (hshortest other name hother)

/-- The search moves on where a candidate fails, and stops at the first call. -/
theorem firstCall?_eq_some_iff : firstCall? text = some called ↔ CallsFirst text called := by
  induction text with
  | nil =>
      constructor
      · intro hcall
        cases hcall
      · rintro ⟨front, hcalls, -⟩
        exact absurd hcalls (not_callsBehind_nil front called)
  | cons char text ih =>
      rw [firstCall?_cons]
      cases hhere : leadingCall? (char :: text) with
      | none => rw [Option.none_or, ih, callsFirst_cons hhere]
      | some here => rw [Option.some_or, Option.some_inj, callsFirst_of_leadingCall? hhere]

/-! ## SQL -/

theorem sameLetter_iff (hletter : letter.isUpper = true) :
    sameLetter letter char = true ↔ IsFormOf letter char := by
  have hupper : char.toUpper = letter ↔ char = letter ∨ char = letter.toLower := by
    constructor
    · rintro rfl
      by_cases hlower : char.isLower = true
      · right
        rw [Char.toLower_toUpper_eq_toLower,
          Char.toLower_eq_of_not_isUpper (Char.not_isUpper_of_isLower hlower)]
      · left
        rw [Char.toUpper_eq_of_not_isLower hlower]
    · have hself : letter.toUpper = letter :=
        Char.toUpper_eq_of_not_isLower (Char.not_isLower_of_isUpper hletter)
      rintro (rfl | rfl)
      · exact hself
      · rw [Char.toUpper_toLower_eq_toUpper, hself]
  rw [sameLetter, IsFormOf, ← or_assoc, ← hupper]
  simp

theorem afterWord?_sameLetter_eq_some_iff {word : List Char}
    (hword : ∀ letter ∈ word, letter.isUpper = true) :
    afterWord? sameLetter word text = some rest ↔
      ∃ found, text = found ++ rest ∧ List.Forall₂ IsFormOf word found := by
  have hforms : ∀ found,
      List.Forall₂ (fun letter char => sameLetter letter char = true) word found ↔
        List.Forall₂ IsFormOf word found := by
    intro found
    induction word generalizing found with
    | nil => simp
    | cons letter word ih =>
        obtain ⟨hletter, hword⟩ := List.forall_mem_cons.mp hword
        simp only [List.forall₂_cons_left_iff, sameLetter_iff hletter, ih hword]
  simp only [afterWord?_eq_some_iff, hforms]

theorem isUpper_exec : ∀ letter ∈ "EXEC".toList, letter.isUpper = true :=
  List.all_eq_true.mp (by decide)

theorem isUpper_sql : ∀ letter ∈ "SQL".toList, letter.isUpper = true :=
  List.all_eq_true.mp (by decide)

theorem not_isBlank_of_forall₂ {second : List Char}
    (hsecond : List.Forall₂ IsFormOf "SQL".toList second) (rest : List Char) :
    ∀ char ∈ (second ++ rest).head?, isBlank char = false := by
  have hword : "SQL".toList = ['S', 'Q', 'L'] := rfl
  rw [hword] at hsecond
  cases hsecond with
  | cons hletter hlater =>
      rintro char ⟨⟩
      rcases hletter with rfl | rfl | ⟨-, rfl⟩ <;> decide

theorem leadsWithSql_iff : leadsWithSql text = true ↔ BeginsWithSql text := by
  rw [leadsWithSql]
  constructor
  · intro hleads
    split at hleads
    · cases hleads
    · rename_i behind hbehind
      obtain ⟨between, hexec, hgap⟩ := Option.bind_eq_some_iff.mp hbehind
      obtain ⟨rest, hsql⟩ := Option.isSome_iff_exists.mp hleads
      obtain ⟨first, rfl, hfirst⟩ := (afterWord?_sameLetter_eq_some_iff isUpper_exec).mp hexec
      obtain ⟨gap, rfl, hblanks, -⟩ := afterGap?_eq_some_iff.mp hgap
      obtain ⟨second, rfl, hsecond⟩ := (afterWord?_sameLetter_eq_some_iff isUpper_sql).mp hsql
      exact ⟨first, gap, second, rest, by simp only [List.append_assoc], hfirst, hblanks,
        hsecond⟩
  · rintro ⟨first, gap, second, rest, rfl, hfirst, hblanks, hsecond⟩
    have hexec : afterWord? sameLetter "EXEC".toList (first ++ gap ++ second ++ rest) =
        some (gap ++ (second ++ rest)) := by
      rw [afterWord?_sameLetter_eq_some_iff isUpper_exec]
      exact ⟨first, by simp only [List.append_assoc], hfirst⟩
    have hgap : afterGap? (gap ++ (second ++ rest)) = some (second ++ rest) :=
      afterGap?_eq_some_iff.mpr ⟨gap, rfl, hblanks, not_isBlank_of_forall₂ hsecond rest⟩
    have hsql : afterWord? sameLetter "SQL".toList (second ++ rest) = some rest :=
      (afterWord?_sameLetter_eq_some_iff isUpper_sql).mpr ⟨second, rfl, hsecond⟩
    rw [hexec, Option.bind_some, hgap]
    simp only
    rw [hsql]
    rfl

theorem mentionsSql_iff : mentionsSql text = true ↔ HoldsSql text := by
  induction text with
  | nil =>
      constructor
      · intro hmentions
        cases hmentions
      · rintro ⟨front, behind, htext, hsql⟩
        rw [(List.append_eq_nil_iff.mp htext.symm).2, ← leadsWithSql_iff] at hsql
        exact absurd hsql (by decide)
  | cons char text ih =>
      rw [mentionsSql, Bool.or_eq_true, ih, leadsWithSql_iff]
      constructor
      · rintro (hsql | ⟨front, behind, rfl, hsql⟩)
        · exact ⟨[], char :: text, rfl, hsql⟩
        · exact ⟨char :: front, behind, rfl, hsql⟩
      · rintro ⟨front, behind, htext, hsql⟩
        rcases List.cons_eq_append_iff.mp htext with ⟨rfl, rfl⟩ | ⟨later, rfl, rfl⟩
        · exact Or.inl hsql
        · exact Or.inr ⟨later, behind, rfl, hsql⟩

theorem header?_of_keyword (hkeyword : callKeyword <+: text) : header? text = none := by
  obtain ⟨rest, rfl⟩ := hkeyword
  rw [Option.eq_none_iff_forall_ne_some]
  intro label hheader
  obtain ⟨digits, name, htoList, hlength, hdigits, -⟩ := isLabel_of_header? hheader
  obtain ⟨tail, htext, -⟩ := header?_iff_isLabelledBy.mp hheader
  -- A label begins with a digit, and the keyword with a letter.
  cases digits with
  | nil => cases hlength
  | cons first digits =>
      rw [htoList] at htext
      obtain rfl : 'P' = first := (List.cons.inj htext).1
      exact absurd (hdigits 'P' List.mem_cons_self) (by decide)

theorem callTarget?_eq_some_iff :
    callTarget? text = some called ↔ callKeyword <+: text ∧ CallsFirst text called := by
  rw [callTarget?, ← firstCall?_eq_some_iff, ← List.isPrefixOf_iff_prefix]
  split
  · rename_i hkeyword
    rw [and_iff_right hkeyword]
  · rename_i hother
    simp [hother]

theorem callTarget?_eq_none_iff (hkeyword : callKeyword <+: text) :
    callTarget? text = none ↔ ∀ front called, ¬ CallsBehind front called text := by
  rw [callTarget?, if_pos (List.isPrefixOf_iff_prefix.mpr hkeyword), firstCall?_eq_none_iff]

end Line

/-! ## What a scanner does about it -/

namespace Scanner

/-- The line opens a paragraph with this label. -/
def Opens (scanner : Scanner) (line label : String) : Prop :=
  scanner.feed line = scanner.openParagraph label

/-- The line leaves the open paragraph open and adds these calls to it; whether it adds
SQL as well is left open. -/
def AddsCalls (scanner : Scanner) (line : String) (calls : List String) : Prop :=
  ∃ paragraph extended, scanner.current = some paragraph ∧ extended.name = paragraph.name ∧
    extended.calls = paragraph.calls ++ calls ∧
    scanner.feed line =
      { scanner with
        graph := scanner.graph.put paragraph.name extended
        current := some extended }

variable {scanner : Scanner} {paragraph : Paragraph} {line label : String} {calls : List String}

theorem opens_iff : scanner.Opens line label ↔ Outline.headerOf? line = some label := by
  constructor
  · intro hopens
    have hheaders := congrArg Scanner.headers hopens
    rw [headers_feed, openParagraph] at hheaders
    have hlabel : (Outline.headerOf? line).toList = [label] := List.append_cancel_right hheaders
    rwa [Option.toList_eq_singleton_iff] at hlabel
  · exact feed_header

theorem addsCalls_iff (hopen : scanner.current = some paragraph) :
    scanner.AddsCalls line calls ↔
      Outline.headerOf? line = none ∧ (Outline.callOf? line).toList = calls := by
  constructor
  · rintro ⟨same, extended, hsame, -, hcalls, hfeed⟩
    obtain rfl : paragraph = same := Option.some.inj (hopen ▸ hsame)
    have hplain : Outline.headerOf? line = none := by
      have hheaders := congrArg Scanner.headers hfeed
      rw [headers_feed] at hheaders
      have hnone : (Outline.headerOf? line).toList = [] := List.append_cancel_right hheaders
      rwa [Option.toList_eq_nil_iff] at hnone
    refine ⟨hplain, ?_⟩
    rw [feed_plain_of_some hplain hopen] at hfeed
    have hextended := congrArg Scanner.current hfeed
    obtain rfl := Option.some.inj hextended
    exact List.append_cancel_left hcalls
  · rintro ⟨hplain, rfl⟩
    exact ⟨paragraph, extend paragraph (Line.trimmed line.toList), hopen, rfl, rfl,
      feed_plain_of_some hplain hopen⟩

end Scanner

/-- The recognisers find what the patterns describe.  A line has the label that it begins
with; of a line that begins with the keyword, the call that counts is the first one in the
line, and there is none exactly if no call stands in it; and SQL is found wherever it
stands.  So a scanner with an open paragraph opens the paragraph of a label, records that
one call or none, and flags the paragraph if SQL is held by a line without a label. -/
theorem recognisers_follow_patterns (text : List Char) :
    (∀ label, Line.header? text = some label ↔ Line.IsLabelledBy text label) ∧
    (Line.callKeyword <+: text →
      (∀ called, Line.callTarget? text = some called ↔ Line.CallsFirst text called) ∧
      (Line.callTarget? text = none ↔ ∀ front called, ¬ Line.CallsBehind front called text)) ∧
    (Line.mentionsSql text = true ↔ Line.HoldsSql text) ∧
    ∀ (scanner : Scanner) (line : String), Line.trimmed line.toList = text →
      (∀ label, scanner.Opens line label ↔ Line.IsLabelledBy text label) ∧
      ∀ paragraph, scanner.current = some paragraph →
        (Line.callKeyword <+: text →
          (∀ called, scanner.AddsCalls line [called] ↔ Line.CallsFirst text called) ∧
          (scanner.AddsCalls line [] ↔ ∀ front called, ¬ Line.CallsBehind front called text)) ∧
        ((∀ label, ¬ Line.IsLabelledBy text label) →
          ∃ later, (scanner.feed line).current = some later ∧
            (later.usesSql = true ↔ paragraph.usesSql = true ∨ Line.HoldsSql text)) := by
  refine ⟨fun label => Line.header?_iff_isLabelledBy, ?_, Line.mentionsSql_iff, ?_⟩
  · intro hkeyword
    refine ⟨fun called => ?_, Line.callTarget?_eq_none_iff hkeyword⟩
    rw [Line.callTarget?_eq_some_iff, and_iff_right hkeyword]
  · rintro scanner line rfl
    refine ⟨fun label => ?_, fun paragraph hopen => ⟨fun hkeyword => ?_, ?_⟩⟩
    · rw [Scanner.opens_iff, Outline.headerOf?, Line.header?_iff_isLabelledBy]
    · have hplain : Outline.headerOf? line = none := Line.header?_of_keyword hkeyword
      simp only [Scanner.addsCalls_iff hopen, hplain, true_and, Option.toList_eq_singleton_iff,
        Option.toList_eq_nil_iff]
      refine ⟨fun called => ?_, Line.callTarget?_eq_none_iff hkeyword⟩
      rw [Outline.callOf?, Line.callTarget?_eq_some_iff, and_iff_right hkeyword]
    · intro hunlabelled
      have hplain : Outline.headerOf? line = none := by
        rw [Option.eq_none_iff_forall_ne_some]
        exact fun label hheader => hunlabelled label (Line.header?_iff_isLabelledBy.mp hheader)
      refine ⟨Scanner.extend paragraph (Line.trimmed line.toList), ?_, ?_⟩
      · rw [Scanner.feed_plain_of_some hplain hopen]
      · rw [Scanner.extend, Bool.or_eq_true, Line.mentionsSql_iff]

/-- The first two keywords of this line have no gap and then a name behind them, nor has
the first `EXEC`; the name ends in front of a letter that is not of its kind. -/
theorem recognisers_follow_patterns_failing_candidates :
    let line := "  PERFORM. PERFORMPERFORM\u2003200-B\u00E9 EXEC exec\u00A0\u017Fql \uFEFF"
    let text := Line.trimmed line.toList
    let scanner := ({} : Scanner).openParagraph "100-A"
    (Line.callKeyword <+: text ∧ Line.CallsFirst text "200-B") ∧
    (scanner.current = some { name := "100-A" } ∧ scanner.AddsCalls line ["200-B"]) ∧
    ((∀ label, ¬ Line.IsLabelledBy text label) ∧
      ∃ later, (scanner.feed line).current = some later ∧ later.usesSql = true) := by
  intro line text scanner
  obtain ⟨hlabel, hcall, hsql, hfeed⟩ := recognisers_follow_patterns text
  have hkeyword : Line.callKeyword <+: text := List.isPrefixOf_iff_prefix.mp (by decide +kernel)
  have hplain : Line.header? text = none := by decide +kernel
  have hunlabelled : ∀ label, ¬ Line.IsLabelledBy text label := by
    intro label hlabelled
    rw [← hlabel, hplain] at hlabelled
    cases hlabelled
  have hfirst : Line.CallsFirst text "200-B" :=
    ((hcall hkeyword).1 "200-B").mp (by decide +kernel)
  obtain ⟨hadds, hflags⟩ := (hfeed scanner line rfl).2 { name := "100-A" } rfl
  obtain ⟨later, hlater, hflag⟩ := hflags hunlabelled
  exact ⟨⟨hkeyword, hfirst⟩, ⟨rfl, ((hadds hkeyword).1 "200-B").mpr hfirst⟩, hunlabelled,
    later, hlater, hflag.mpr (Or.inr (hsql.mp (by decide +kernel)))⟩

end SqlReach
