import SqlReach.Proofs.Scanner.Coherence
import SqlReach.Proofs.Scanner.Padding

/-!
# Trimming a line

Trimming takes away blanks, then byte order marks, then blanks, once each, so at either
end of a line it stops in front of a mark that a blank divides from another mark.  Behind
a line this makes no difference, because no recogniser looks at the padding there.  In
front of a line it does: with a mark left in front, the line neither opens a paragraph nor
calls one.  So padding changes what a scanner does with a line exactly if the line opens
or calls a paragraph and a blank stands between two of the marks in front of it.
-/

namespace SqlReach

namespace Text

variable {drop : Char → Bool} {text tail : List Char}

theorem trim_sublist (drop : Char → Bool) (text : List Char) : (trim drop text).Sublist text := by
  have hright : (trimRight drop (text.dropWhile drop)).Sublist (text.dropWhile drop) := by
    rw [trimRight, ← List.reverse_sublist, List.reverse_reverse]
    exact List.dropWhile_sublist drop
  exact hright.trans (List.dropWhile_sublist drop)

/-- Nothing that can be trimmed is left at the ends of a trimmed text. -/
theorem ends_trim (drop : Char → Bool) (text : List Char) :
    (∀ char ∈ (trim drop text).head?, drop char = false) ∧
      ∀ char ∈ (trim drop text).getLast?, drop char = false := by
  constructor
  · intro char hchar
    have hfront : trim drop text <+: text.dropWhile drop := by
      rw [trim, trimRight, ← List.reverse_suffix, List.reverse_reverse]
      exact List.dropWhile_suffix drop
    obtain ⟨rest, hrest⟩ := hfront
    apply head?_dropWhile drop text
    rw [← hrest]
    exact List.mem_head?_append_of_mem_head? hchar
  · rw [trim, trimRight, List.getLast?_reverse]
    exact head?_dropWhile drop _

theorem trim_append_tail (htail : ∀ char ∈ tail, drop char = true) :
    trim drop (text ++ tail) = trim drop text := by
  have hright : ∀ kept, trimRight drop (kept ++ tail) = trimRight drop kept := by
    intro kept
    have hreverse : ∀ char ∈ tail.reverse, drop char = true :=
      fun char hchar => htail char (List.mem_reverse.mp hchar)
    rw [trimRight, List.reverse_append, List.dropWhile_append_of_pos hreverse, trimRight]
  rw [trim, trim, List.dropWhile_append]
  split
  · rename_i hempty
    rw [List.isEmpty_iff.mp hempty, List.dropWhile_eq_nil_iff.mpr htail]
  · exact hright _

end Text

namespace Line

open SqlReach.Text

/-- The marks in the padding in front of a text stand side by side: blanks, then marks,
then blanks are all that there is. -/
def MarkedOnce (text : List Char) : Prop :=
  ∃ before marks after, text.takeWhile isPadding = before ++ marks ++ after ∧
    (∀ char ∈ before, isBlank char = true) ∧ (∀ char ∈ marks, isMark char = true) ∧
      ∀ char ∈ after, isBlank char = true

/-- A text of which only the front is trimmed. -/
def trimmedLeft (text : List Char) : List Char :=
  ((text.dropWhile isBlank).dropWhile isMark).dropWhile isBlank

variable {text front tail : List Char} {char : Char}

/-! ## What is left in front of a trimmed text -/

theorem isPadding_of_isBlank (char : Char) (hchar : isBlank char = true) :
    isPadding char = true := by
  simp [isPadding, hchar]

theorem isPadding_of_isMark (char : Char) (hchar : isMark char = true) :
    isPadding char = true := by
  simp [isPadding, hchar]

theorem exists_eq_trimRight_append {drop : Char → Bool}
    (hdrop : ∀ char, drop char = true → isPadding char = true) (text : List Char) :
    ∃ rest, text = trimRight drop text ++ rest ∧ ∀ char ∈ rest, isPadding char = true := by
  refine ⟨(text.reverse.takeWhile drop).reverse, ?_, ?_⟩
  · rw [trimRight, ← List.reverse_append, List.takeWhile_append_dropWhile, List.reverse_reverse]
  · intro char hchar
    exact hdrop char (List.mem_takeWhile_imp (List.mem_reverse.mp hchar))

/-- Trimming at both ends and dropping at the front differ by padding at the end. -/
theorem exists_dropWhile_eq_trim_append {drop : Char → Bool}
    (hdrop : ∀ char, drop char = true → isPadding char = true) (text : List Char)
    (htail : ∀ char ∈ tail, isPadding char = true) :
    ∃ rest, (text ++ tail).dropWhile drop = trim drop text ++ rest ∧
      ∀ char ∈ rest, isPadding char = true := by
  obtain ⟨kept, hkept, hpadding⟩ := exists_dropWhile_append_padding drop text htail
  obtain ⟨cut, hcut, hcutPadding⟩ := exists_eq_trimRight_append hdrop (text.dropWhile drop)
  refine ⟨cut ++ kept, ?_, ?_⟩
  · calc
      (text ++ tail).dropWhile drop = text.dropWhile drop ++ kept := hkept
      _ = trim drop text ++ cut ++ kept := congrArg (· ++ kept) hcut
      _ = trim drop text ++ (cut ++ kept) := List.append_assoc _ _ _
  · exact List.forall_mem_append.mpr ⟨hcutPadding, hpadding⟩

/-- The same for the three rounds of trimming. -/
theorem exists_trimmedLeft_eq_append (text : List Char)
    (htail : ∀ char ∈ tail, isPadding char = true) :
    ∃ rest, trimmedLeft (text ++ tail) = trimmed text ++ rest ∧
      ∀ char ∈ rest, isPadding char = true := by
  obtain ⟨first, hfirst, hpadding⟩ :=
    exists_dropWhile_eq_trim_append isPadding_of_isBlank text htail
  obtain ⟨second, hsecond, hpadding⟩ :=
    exists_dropWhile_eq_trim_append isPadding_of_isMark (trim isBlank text) hpadding
  obtain ⟨third, hthird, hpadding⟩ :=
    exists_dropWhile_eq_trim_append isPadding_of_isBlank (trim isMark (trim isBlank text)) hpadding
  refine ⟨third, ?_, hpadding⟩
  rw [trimmedLeft, hfirst, hsecond, hthird]
  rfl

/-- For a reader who ignores padding behind a text, only the front is trimmed. -/
theorem IgnoresPadding.trimmed_eq {β : Type} {read : List Char → β} (hread : IgnoresPadding read)
    (text : List Char) : read (trimmed text) = read (trimmedLeft text) := by
  have hnone : ∀ char ∈ ([] : List Char), isPadding char = true := by simp
  obtain ⟨cut, hcut, hpadding⟩ := exists_trimmedLeft_eq_append text hnone
  rw [List.append_nil] at hcut
  rw [hcut, hread _ cut hpadding]

theorem IgnoresPadding.trimmed_append {β : Type} {read : List Char → β}
    (hread : IgnoresPadding read) (text : List Char)
    (htail : ∀ char ∈ tail, isPadding char = true) :
    read (trimmed (text ++ tail)) = read (trimmedLeft text) := by
  obtain ⟨cut, hcut, hpadding⟩ := exists_trimmedLeft_eq_append text htail
  calc
    read (trimmed (text ++ tail)) = read (trimmedLeft (text ++ tail)) := hread.trimmed_eq _
    _ = read (trimmed text ++ cut) := by rw [hcut]
    _ = read (trimmed text) := hread _ cut hpadding
    _ = read (trimmedLeft text) := hread.trimmed_eq text

theorem exists_eq_append_trimmedLeft (text : List Char) :
    ∃ before marks after, text = before ++ marks ++ after ++ trimmedLeft text ∧
      (∀ char ∈ before, isBlank char = true) ∧ (∀ char ∈ marks, isMark char = true) ∧
        ∀ char ∈ after, isBlank char = true := by
  refine ⟨text.takeWhile isBlank, (text.dropWhile isBlank).takeWhile isMark,
    ((text.dropWhile isBlank).dropWhile isMark).takeWhile isBlank, ?_, ?_, ?_, ?_⟩
  · simp only [trimmedLeft, List.append_assoc, List.takeWhile_append_dropWhile]
  all_goals exact fun _ => List.mem_takeWhile_imp

theorem forall_isPadding_append {before marks after : List Char}
    (hbefore : ∀ char ∈ before, isBlank char = true) (hmarks : ∀ char ∈ marks, isMark char = true)
    (hafter : ∀ char ∈ after, isBlank char = true) :
    ∀ char ∈ before ++ marks ++ after, isPadding char = true := by
  simp only [List.mem_append]
  rintro char ((hchar | hchar) | hchar)
  · exact isPadding_of_isBlank char (hbefore char hchar)
  · exact isPadding_of_isMark char (hmarks char hchar)
  · exact isPadding_of_isBlank char (hafter char hchar)

theorem mentionsSql_trimmedLeft (text : List Char) :
    mentionsSql (trimmedLeft text) = mentionsSql text := by
  obtain ⟨before, marks, after, htext, hbefore, hmarks, hafter⟩ :=
    exists_eq_append_trimmedLeft text
  conv_rhs =>
    rw [htext, mentionsSql_append_of_padding (forall_isPadding_append hbefore hmarks hafter)]

theorem header?_cons_padding (hchar : isPadding char = true) : header? (char :: text) = none := by
  by_contra hsome
  obtain ⟨label, hlabel⟩ := Option.ne_none_iff_exists'.mp hsome
  obtain ⟨⟨digits, rest, htoList, -⟩, hname⟩ := header?_eq_some_iff.mp hlabel
  rw [htoList, leadingName, List.takeWhile_cons, isNameChar_of_isPadding hchar] at hname
  simp at hname

theorem callTarget?_cons_padding (hchar : isPadding char = true) :
    callTarget? (char :: text) = none := by
  have hother : ¬ callKeyword <+: char :: text := by
    rintro ⟨rest, hrest⟩
    obtain rfl : 'P' = char := (List.cons.inj hrest).1
    exact absurd hchar (by decide)
  rw [callTarget?, if_neg (by rwa [List.isPrefixOf_iff_prefix])]

/-! ## Marks side by side -/

theorem not_isBlank_of_isMark (hchar : isMark char = true) : isBlank char = false := by
  obtain rfl : char = '\uFEFF' := by simpa [isMark] using hchar
  decide

theorem not_isMark_of_isBlank (hchar : isBlank char = true) : isMark char = false := by
  by_contra hmark
  rw [not_isBlank_of_isMark (Bool.eq_true_of_not_eq_false hmark)] at hchar
  cases hchar

theorem not_isBlank_of_not_isPadding (hchar : isPadding char = false) : isBlank char = false :=
  (Bool.or_eq_false_iff.mp hchar).1

theorem not_isMark_of_not_isPadding (hchar : isPadding char = false) : isMark char = false :=
  (Bool.or_eq_false_iff.mp hchar).2

/-- If the marks stand side by side, all padding in front is taken away. -/
theorem MarkedOnce.trimmedLeft_eq (hmarked : MarkedOnce text) :
    trimmedLeft text = text.dropWhile isPadding := by
  obtain ⟨before, marks, after, hpadding, hbefore, hmarks, hafter⟩ := hmarked
  have hsolid := head?_dropWhile isPadding text
  have htext : before ++ marks ++ after ++ text.dropWhile isPadding = text := by
    rw [← hpadding, List.takeWhile_append_dropWhile]
  generalize text.dropWhile isPadding = rest at hsolid htext
  have hblank : rest.dropWhile isBlank = rest :=
    dropWhile_eq_self fun char hchar => not_isBlank_of_not_isPadding (hsolid char hchar)
  have hmark : rest.dropWhile isMark = rest :=
    dropWhile_eq_self fun char hchar => not_isMark_of_not_isPadding (hsolid char hchar)
  have hunmarked : (after ++ rest).dropWhile isMark = after ++ rest := by
    cases after with
    | nil => exact hmark
    | cons first after =>
        apply dropWhile_eq_self
        rintro char ⟨⟩
        exact not_isMark_of_isBlank (hafter first List.mem_cons_self)
  rw [trimmedLeft, ← htext, List.append_assoc, List.append_assoc,
    List.dropWhile_append_of_pos hbefore]
  cases marks with
  | nil => rw [List.nil_append, List.dropWhile_append_of_pos hafter, hblank, hmark, hblank]
  | cons first marks =>
      have hkept : (first :: marks ++ (after ++ rest)).dropWhile isBlank =
          first :: marks ++ (after ++ rest) := by
        apply dropWhile_eq_self
        rintro char ⟨⟩
        exact not_isBlank_of_isMark (hmarks first List.mem_cons_self)
      rw [hkept, List.dropWhile_append_of_pos hmarks, hunmarked,
        List.dropWhile_append_of_pos hafter, hblank]

/-- Otherwise some of it is left. -/
theorem exists_trimmedLeft_eq_cons (hmarked : ¬ MarkedOnce text) :
    ∃ char rest, trimmedLeft text = char :: rest ∧ isPadding char = true := by
  by_contra hnone
  apply hmarked
  obtain ⟨before, marks, after, htext, hbefore, hmarks, hafter⟩ :=
    exists_eq_append_trimmedLeft text
  have hrest : (trimmedLeft text).takeWhile isPadding = [] := by
    cases hleft : trimmedLeft text with
    | nil => rfl
    | cons char rest =>
        rw [List.takeWhile_cons, if_neg]
        exact fun hchar => hnone ⟨char, rest, hleft, hchar⟩
  refine ⟨before, marks, after, ?_, hbefore, hmarks, hafter⟩
  rw [htext, List.takeWhile_append_of_pos (forall_isPadding_append hbefore hmarks hafter), hrest,
    List.append_nil]

theorem markedOnce_iff (text : List Char) :
    MarkedOnce text ↔ trimmedLeft text = text.dropWhile isPadding := by
  constructor
  · exact MarkedOnce.trimmedLeft_eq
  · intro hleft
    by_contra hmarked
    obtain ⟨char, rest, hcons, hchar⟩ := exists_trimmedLeft_eq_cons hmarked
    have hsolid := head?_dropWhile isPadding text char (by rw [← hleft, hcons]; rfl)
    rw [hsolid] at hchar
    cases hchar

instance (text : List Char) : Decidable (MarkedOnce text) :=
  decidable_of_iff _ (markedOnce_iff text).symm

theorem MarkedOnce.of_cons (hchar : isPadding char = true) (hmarked : MarkedOnce (char :: text)) :
    MarkedOnce text := by
  obtain ⟨before, marks, after, hpadding, hbefore, hmarks, hafter⟩ := hmarked
  rw [List.takeWhile_cons, if_pos hchar] at hpadding
  -- The first character is taken from the first of the three groups that has one.
  cases before with
  | cons first before =>
      exact ⟨before, marks, after, (List.cons.inj hpadding).2,
        (List.forall_mem_cons.mp hbefore).2, hmarks, hafter⟩
  | nil =>
      cases marks with
      | cons first marks =>
          exact ⟨[], marks, after, (List.cons.inj hpadding).2, hbefore,
            (List.forall_mem_cons.mp hmarks).2, hafter⟩
      | nil =>
          cases after with
          | cons first after =>
              exact ⟨[], [], after, (List.cons.inj hpadding).2, hbefore, hmarks,
                (List.forall_mem_cons.mp hafter).2⟩
          | nil => cases hpadding

theorem MarkedOnce.of_append (hfront : ∀ char ∈ front, isPadding char = true)
    (hmarked : MarkedOnce (front ++ text)) : MarkedOnce text := by
  induction front with
  | nil => exact hmarked
  | cons char front ih =>
      obtain ⟨hchar, hfront⟩ := List.forall_mem_cons.mp hfront
      exact ih hfront (hmarked.of_cons hchar)

/-- Padding in front leaves no trace if the marks stand side by side. -/
theorem MarkedOnce.trimmedLeft_append (hfront : ∀ char ∈ front, isPadding char = true)
    (hmarked : MarkedOnce (front ++ text)) : trimmedLeft (front ++ text) = trimmedLeft text := by
  rw [hmarked.trimmedLeft_eq, (hmarked.of_append hfront).trimmedLeft_eq,
    List.dropWhile_append_of_pos hfront]

/-! ## Trimming twice -/

theorem trim_isPadding_trim {drop : Char → Bool}
    (hdrop : ∀ char, drop char = true → isPadding char = true) (text : List Char) :
    trim isPadding (trim drop text) = trim isPadding text := by
  have hfront : ∀ char ∈ text.takeWhile drop, isPadding char = true :=
    fun char hchar => hdrop char (List.mem_takeWhile_imp hchar)
  obtain ⟨cut, hcut, hpadding⟩ := exists_eq_trimRight_append hdrop (text.dropWhile drop)
  calc
    trim isPadding (trim drop text) = trim isPadding (trim drop text ++ cut) :=
      (trim_append_tail hpadding).symm
    _ = trim isPadding (text.dropWhile drop) := congrArg (trim isPadding) hcut.symm
    _ = trim isPadding (text.takeWhile drop ++ text.dropWhile drop) := (trim_append hfront).symm
    _ = trim isPadding text := by rw [List.takeWhile_append_dropWhile]

theorem trim_isPadding_trimmed (text : List Char) :
    trim isPadding (trimmed text) = trim isPadding text := by
  calc
    trim isPadding (trimmed text) = trim isPadding (trim isMark (trim isBlank text)) :=
      trim_isPadding_trim isPadding_of_isBlank _
    _ = trim isPadding (trim isBlank text) := trim_isPadding_trim isPadding_of_isMark _
    _ = trim isPadding text := trim_isPadding_trim isPadding_of_isBlank text

/-- A text that trimming leaves alone has no padding at its ends. -/
theorem trimmed_eq_self_iff (text : List Char) :
    trimmed text = text ↔ trim isPadding text = text := by
  constructor
  · intro hself
    -- Each round only takes away, so each of them leaves the text alone.
    have hblank : trim isBlank text = text := by
      have hrounds : (trimmed text).Sublist (trim isBlank text) :=
        (trim_sublist isBlank _).trans (trim_sublist isMark _)
      rw [hself] at hrounds
      exact (trim_sublist isBlank text).antisymm hrounds
    have hmark : trim isMark text = text := by
      have hrounds : (trimmed text).Sublist (trim isMark (trim isBlank text)) :=
        trim_sublist isBlank _
      rw [hself, hblank] at hrounds
      exact (trim_sublist isMark text).antisymm hrounds
    have hblanks := hblank ▸ ends_trim isBlank text
    have hmarks := hmark ▸ ends_trim isMark text
    apply trim_eq_self
    · intro char hchar
      rw [isPadding, hblanks.1 char hchar, hmarks.1 char hchar]
      rfl
    · intro char hchar
      rw [isPadding, hblanks.2 char hchar, hmarks.2 char hchar]
      rfl
  · intro hself
    have hends := hself ▸ ends_trim isPadding text
    have hsolid : ∀ char, isPadding char = false → isSolid char = true := by
      intro char hchar
      simp_all [isPadding, isMark, isSolid]
    have hnone : ∀ char ∈ ([] : List Char), isBlank char = true := by simp
    have hkept : trimmed ([] ++ text) = text :=
      trimmed_append hnone (fun char hchar => hsolid char (hends.1 char hchar))
        fun char hchar => hsolid char (hends.2 char hchar)
    rwa [List.nil_append] at hkept

end Line

namespace Scanner

variable {scanner : Scanner} {line other : String}

theorem current_feed_fresh (line : String) :
    (({} : Scanner).feed line).current =
      (Outline.headerOf? line).map fun label => { name := label } := by
  cases hheader : Outline.headerOf? line with
  | some label =>
      rw [feed_header hheader]
      rfl
  | none =>
      rw [feed_plain_of_none _ hheader rfl]
      rfl

/-- What all scanners do with a line: they take its label, or else its call and its SQL. -/
theorem feed_eq_feed_iff :
    (∀ scanner : Scanner, scanner.feed line = scanner.feed other) ↔
      Outline.headerOf? line = Outline.headerOf? other ∧
        (Outline.headerOf? line = none → Outline.callOf? line = Outline.callOf? other ∧
          Outline.holdsSql line = Outline.holdsSql other) := by
  constructor
  · intro hfeed
    have hheader : Outline.headerOf? line = Outline.headerOf? other := by
      have hcurrent := congrArg Scanner.current (hfeed {})
      rw [current_feed_fresh, current_feed_fresh] at hcurrent
      exact Option.map_injective (fun _ _ => congrArg Paragraph.name) hcurrent
    refine ⟨hheader, fun hplain => ?_⟩
    have hcurrent := congrArg Scanner.current (hfeed (({} : Scanner).openParagraph ""))
    rw [feed_plain_of_some hplain rfl, feed_plain_of_some (hheader ▸ hplain) rfl] at hcurrent
    simp only [extend, Option.some.injEq, Paragraph.mk.injEq, List.nil_append, Bool.false_or,
      true_and] at hcurrent
    refine ⟨?_, hcurrent.2⟩
    have hcalls := congrArg List.head? hcurrent.1
    rwa [Option.head?_toList, Option.head?_toList] at hcalls
  · rintro ⟨hheader, hplain⟩ scanner
    cases hline : Outline.headerOf? line with
    | some label => rw [feed_header hline, feed_header (hheader ▸ hline)]
    | none =>
        obtain ⟨hcall, hsql⟩ := hplain hline
        cases hcurrent : scanner.current with
        | none =>
            rw [feed_plain_of_none _ hline hcurrent,
              feed_plain_of_none _ (hheader ▸ hline) hcurrent]
        | some paragraph =>
            have hextend : extend paragraph (Line.trimmed line.toList) =
                extend paragraph (Line.trimmed other.toList) := by
              simp only [Outline.callOf?, Outline.holdsSql] at hcall hsql
              rw [extend, extend, hcall, hsql]
            rw [feed_plain_of_some hline hcurrent, feed_plain_of_some (hheader ▸ hline) hcurrent,
              hextend]

end Scanner

namespace Outline

variable {front line back : String}

/-- Padding that is taken away altogether hides neither a label nor a call. -/
theorem padded_of_markedOnce (hfront : ∀ char ∈ front.toList, Line.isPadding char = true)
    (hback : ∀ char ∈ back.toList, Line.isPadding char = true)
    (hmarked : Line.MarkedOnce (front ++ line).toList) :
    headerOf? (front ++ line ++ back) = headerOf? line ∧
      callOf? (front ++ line ++ back) = callOf? line := by
  have hread : ∀ read : List Char → Option String, Line.IgnoresPadding read →
      read (Line.trimmed (front ++ line ++ back).toList) = read (Line.trimmed line.toList) := by
    intro read hread
    rw [String.toList_append] at hmarked
    rw [String.toList_append, hread.trimmed_append _ hback, String.toList_append,
      hmarked.trimmedLeft_append hfront, hread.trimmed_eq]
  rw [headerOf?, headerOf?, callOf?, callOf?]
  exact ⟨hread _ Line.ignoresPadding_header?, hread _ Line.ignoresPadding_callTarget?⟩

/-- Padding that is left over hides both. -/
theorem padded_of_not_markedOnce (hback : ∀ char ∈ back.toList, Line.isPadding char = true)
    (hmarked : ¬ Line.MarkedOnce (front ++ line).toList) :
    headerOf? (front ++ line ++ back) = none ∧ callOf? (front ++ line ++ back) = none := by
  obtain ⟨char, rest, hleft, hchar⟩ := Line.exists_trimmedLeft_eq_cons hmarked
  rw [headerOf?, callOf?, String.toList_append,
    Line.ignoresPadding_header?.trimmed_append _ hback,
    Line.ignoresPadding_callTarget?.trimmed_append _ hback, hleft]
  exact ⟨Line.header?_cons_padding hchar, Line.callTarget?_cons_padding hchar⟩

theorem holdsSql_padded (hfront : ∀ char ∈ front.toList, Line.isPadding char = true)
    (hback : ∀ char ∈ back.toList, Line.isPadding char = true) :
    holdsSql (front ++ line ++ back) = holdsSql line := by
  have hread := Line.ignoresPadding_mentionsSql
  rw [holdsSql, holdsSql, String.toList_append, hread.trimmed_append _ hback, hread.trimmed_eq,
    Line.mentionsSql_trimmedLeft, Line.mentionsSql_trimmedLeft, String.toList_append,
    Line.mentionsSql_append_of_padding hfront]

end Outline

/-- Padding around a line, in any order, leaves what every scanner does with the line as
it is, exactly if the marks in front of the line stand side by side or the line neither
opens nor calls a paragraph.  With the marks apart it is not seen to open or call one.
Trimming twice is trimming once exactly if the first time takes away all padding at both
ends. -/
theorem feed_padded_iff (front line back : String)
    (hfront : ∀ char ∈ front.toList, Line.isPadding char = true)
    (hback : ∀ char ∈ back.toList, Line.isPadding char = true) :
    ((∀ scanner : Scanner, scanner.feed (front ++ line ++ back) = scanner.feed line) ↔
      Line.MarkedOnce (front ++ line).toList ∨
        Outline.headerOf? line = none ∧ Outline.callOf? line = none) ∧
    (¬ Line.MarkedOnce (front ++ line).toList →
      Outline.headerOf? (front ++ line ++ back) = none ∧
        Outline.callOf? (front ++ line ++ back) = none) ∧
    (Line.trimmed (Line.trimmed line.toList) = Line.trimmed line.toList ↔
      Line.trimmed line.toList = Text.trim Line.isPadding line.toList) := by
  refine ⟨?_, Outline.padded_of_not_markedOnce hback, ?_⟩
  · have hsql : Outline.holdsSql (front ++ line ++ back) = Outline.holdsSql line :=
      Outline.holdsSql_padded hfront hback
    rw [Scanner.feed_eq_feed_iff]
    by_cases hmarked : Line.MarkedOnce (front ++ line).toList
    · obtain ⟨hheader, hcall⟩ := Outline.padded_of_markedOnce hfront hback hmarked
      exact iff_of_true ⟨hheader, fun _ => ⟨hcall, hsql⟩⟩ (Or.inl hmarked)
    · obtain ⟨hheader, hcall⟩ := Outline.padded_of_not_markedOnce hback hmarked
      rw [hheader, hcall, or_iff_right hmarked]
      constructor
      · exact fun hsame => ⟨hsame.1.symm, (hsame.2 rfl).1.symm⟩
      · exact fun hplain => ⟨hplain.1.symm, fun _ => ⟨hplain.2.symm, hsql⟩⟩
  · rw [Line.trimmed_eq_self_iff, Line.trim_isPadding_trimmed, eq_comm]

/-- Blanks around two marks in front and marks apart behind a header do no harm; with the
marks apart in front of a call, some scanner misses it. -/
theorem feed_padded_iff_both_sides :
    let front := " \uFEFF\uFEFF\t"
    let apart := "\uFEFF \uFEFF"
    (front.toList.all Line.isPadding ∧ apart.toList.all Line.isPadding) ∧
    (∀ scanner : Scanner, scanner.feed (front ++ "100-A." ++ apart) = scanner.feed "100-A.") ∧
    ¬ ∀ scanner : Scanner,
      scanner.feed (apart ++ "PERFORM 200-B" ++ front) = scanner.feed "PERFORM 200-B" := by
  intro front apart
  have hfront : front.toList.all Line.isPadding = true := by decide
  have hapart : apart.toList.all Line.isPadding = true := by decide
  refine ⟨⟨hfront, hapart⟩, ?_, ?_⟩
  · have hiff := feed_padded_iff front "100-A." apart (List.all_eq_true.mp hfront)
      (List.all_eq_true.mp hapart)
    exact hiff.1.mpr (Or.inl (by decide +kernel))
  · have hiff := feed_padded_iff apart "PERFORM 200-B" front (List.all_eq_true.mp hapart)
      (List.all_eq_true.mp hfront)
    intro hfeed
    exact absurd (hiff.1.mp hfeed) (by decide +kernel)

/-- Two marks with a blank between them, in front of a header, keep a fresh scanner from
opening the paragraph, and trimming stops at the second mark. -/
theorem marks_apart_hide_header :
    "\uFEFF \uFEFF".toList.all Line.isPadding = true ∧
      ({} : Scanner).feed ("\uFEFF \uFEFF" ++ "100-A." ++ "") ≠ ({} : Scanner).feed "100-A." ∧
      Line.trimmed (Line.trimmed "\uFEFF \uFEFF100-A.".toList) ≠
        Line.trimmed "\uFEFF \uFEFF100-A.".toList := by
  decide +kernel

end SqlReach
