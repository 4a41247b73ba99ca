import SqlReach.Proofs.Scanner.Image

/-!
# Padding behind a text

Padding is what trimming may take away: blanks and byte order marks.  No recogniser
looks at the padding behind a text, because a label, a call and SQL are made of name
characters and of the gaps between them, and padding can only follow the last word.  SQL
is found behind padding as well.
-/

namespace SqlReach

namespace Text

theorem head?_dropWhile (drop : Char → Bool) (text : List Char) :
    ∀ char ∈ (text.dropWhile drop).head?, drop char = false := by
  intro char hchar
  have hfirst := List.head?_dropWhile_not drop text
  rw [Option.mem_def.mp hchar] at hfirst
  exact hfirst

end Text

namespace Line

open SqlReach.Text

def isMark (char : Char) : Bool :=
  char == '\uFEFF'

/-- A blank or a byte order mark. -/
def isPadding (char : Char) : Bool :=
  isBlank char || isMark char

/-- A reader who does not look at the padding behind a text. -/
def IgnoresPadding {β : Type} (read : List Char → β) : Prop :=
  ∀ text tail, (∀ char ∈ tail, isPadding char = true) → read (text ++ tail) = read text

variable {text front tail : List Char} {char : Char}

theorem not_isPadding_of_isNameChar (hname : isNameChar char = true) :
    ¬ isPadding char = true := by
  have hsolid := isSolid_of_isNameChar hname
  simp_all [isPadding, isSolid, isMark]

theorem isNameChar_of_isPadding (hchar : isPadding char = true) :
    isNameChar char = false := by
  by_contra hname
  exact not_isPadding_of_isNameChar (Bool.eq_true_of_not_eq_false hname) hchar

/-! ## Padding behind a text -/

/-- A word at the front of a text is found there whatever padding follows. -/
theorem prefix_append_padding {word : List Char} (hword : ∀ char ∈ word, isNameChar char = true)
    (htail : ∀ char ∈ tail, isPadding char = true) : word <+: text ++ tail ↔ word <+: text := by
  constructor
  · rintro ⟨rest, hrest⟩
    rcases List.append_eq_append_iff.mp hrest with ⟨between, htext, -⟩ | ⟨between, rfl, hsplit⟩
    · exact ⟨between, htext.symm⟩
    · cases between with
      | nil => exact ⟨[], by simp⟩
      | cons char between =>
          have hpadding := htail char (hsplit ▸ List.mem_cons_self)
          have hletter := hword char (List.mem_append_right text List.mem_cons_self)
          exact absurd hpadding (not_isPadding_of_isNameChar hletter)
  · exact fun hprefix => hprefix.trans (List.prefix_append text tail)

theorem takeWhile_append_padding {keep : Char → Bool}
    (hkeep : ∀ char, isPadding char = true → keep char = false)
    (htail : ∀ char ∈ tail, isPadding char = true) :
    (text ++ tail).takeWhile keep = text.takeWhile keep := by
  have hnone : tail.takeWhile keep = [] := by
    cases tail with
    | nil => rfl
    | cons char tail =>
        rw [List.takeWhile_cons, hkeep char (htail char List.mem_cons_self)]
        rfl
  rw [List.takeWhile_append, hnone]
  split
  · rename_i hwhole
    rw [List.append_nil]
    exact ((List.takeWhile_prefix keep).eq_of_length hwhole).symm
  · rfl

theorem ignoresPadding_leadingName : IgnoresPadding leadingName :=
  fun _ _ => takeWhile_append_padding fun _ => isNameChar_of_isPadding

/-- Padding behind a text may be dropped with it, but what is left of it is padding. -/
theorem exists_dropWhile_append_padding (drop : Char → Bool) (text : List Char)
    (htail : ∀ char ∈ tail, isPadding char = true) :
    ∃ rest, (text ++ tail).dropWhile drop = text.dropWhile drop ++ rest ∧
      ∀ char ∈ rest, isPadding char = true := by
  rw [List.dropWhile_append]
  split
  · rename_i hempty
    refine ⟨tail.dropWhile drop, ?_, ?_⟩
    · rw [List.isEmpty_iff.mp hempty, List.nil_append]
    · exact fun char hchar => htail char ((List.dropWhile_sublist drop).subset hchar)
  · exact ⟨tail, rfl, htail⟩

/-- A label is all of the name at the front of a text. -/
theorem header?_eq_some_iff {label : String} :
    header? text = some label ↔ IsLabel label ∧ leadingName text = label.toList := by
  constructor
  · intro hheader
    refine ⟨isLabel_of_header? hheader, ?_⟩
    unfold header? at hheader
    split at hheader
    · rename_i first second third rest
      split at hheader
      · rename_i hdigits
        cases hheader
        simp only [Bool.and_eq_true] at hdigits
        simp [leadingName, isNameChar, Char.isAlphanum, hdigits.1]
      · cases hheader
    · cases hheader
  · rintro ⟨hlabel, hname⟩
    have hheader := header?_append hlabel (head?_dropWhile isNameChar text)
    rwa [← hname, leadingName, List.takeWhile_append_dropWhile] at hheader

theorem ignoresPadding_header? : IgnoresPadding header? := by
  intro text tail htail
  ext label
  rw [header?_eq_some_iff, header?_eq_some_iff, ignoresPadding_leadingName text tail htail]

/-! ## Words and padding -/

/-- No letter of a word is taken for padding. -/
def Misses (same : Char → Char → Bool) (word : List Char) : Prop :=
  ∀ letter ∈ word, ∀ char, isPadding char = true → same letter char = false

theorem afterWord?_cons_padding {same : Char → Char → Bool} {word : List Char}
    (hword : Misses same word) (hne : word ≠ []) (hchar : isPadding char = true) :
    afterWord? same word (char :: text) = none := by
  cases word with
  | nil => exact absurd rfl hne
  | cons letter word =>
      rw [afterWord?, hword letter List.mem_cons_self char hchar]
      rfl

theorem afterWord?_append_padding {same : Char → Char → Bool} {word : List Char}
    (hword : Misses same word) (htail : ∀ char ∈ tail, isPadding char = true) :
    afterWord? same word (text ++ tail) = (afterWord? same word text).map (· ++ tail) := by
  induction word generalizing text with
  | nil => rfl
  | cons letter word ih =>
      cases text with
      | nil =>
          cases tail with
          | nil => rfl
          | cons char tail =>
              exact afterWord?_cons_padding hword (List.cons_ne_nil letter word)
                (htail char List.mem_cons_self)
      | cons char text =>
          rw [List.cons_append, afterWord?, afterWord?]
          split
          · exact ih fun other hother => hword other (List.mem_cons_of_mem letter hother)
          · rfl

/-- What follows a gap is the same for a reader who does not look at padding. -/
theorem IgnoresPadding.elim_afterGap? {β : Type} {read : List Char → β}
    (hread : IgnoresPadding read) :
    IgnoresPadding fun text => (afterGap? text).elim (read []) read := by
  intro text tail htail
  cases text with
  | nil =>
      cases tail with
      | nil => rfl
      | cons char tail =>
          simp only [List.nil_append, afterGap?]
          split
          · have hrest : ∀ char ∈ tail.dropWhile isBlank, isPadding char = true :=
              fun other hother => htail other
                (List.mem_cons_of_mem char ((List.dropWhile_sublist isBlank).subset hother))
            exact hread [] _ hrest
          · rfl
  | cons char text =>
      simp only [List.cons_append, afterGap?]
      split
      · obtain ⟨rest, hdrop, hrest⟩ := exists_dropWhile_append_padding isBlank text htail
        simp only [Option.elim_some, hdrop, hread _ rest hrest]
      · rfl

/-- The same behind a word and a gap. -/
theorem IgnoresPadding.elim_afterWord? {β : Type} {read : List Char → β}
    (hread : IgnoresPadding read) {same : Char → Char → Bool} {word : List Char}
    (hword : Misses same word) :
    IgnoresPadding fun text =>
      ((afterWord? same word text).bind afterGap?).elim (read []) read := by
  intro text tail htail
  simp only [afterWord?_append_padding hword htail]
  cases afterWord? same word text with
  | none => rfl
  | some rest => exact hread.elim_afterGap? rest tail htail

/-! ## Calls -/

theorem isNameChar_callKeyword : ∀ letter ∈ callKeyword, isNameChar letter = true :=
  List.all_eq_true.mp (by decide)

theorem misses_callKeyword : Misses (· == ·) callKeyword := by
  intro letter hletter char hchar
  rw [beq_eq_false_iff_ne]
  rintro rfl
  exact not_isPadding_of_isNameChar (isNameChar_callKeyword letter hletter) hchar

/-- The name at the front of a text, if there is one. -/
def nameAt? (text : List Char) : Option String :=
  if leadingName text = [] then none else some (String.ofList (leadingName text))

theorem leadingCall?_eq (text : List Char) :
    leadingCall? text =
      ((afterWord? (· == ·) callKeyword text).bind afterGap?).elim (nameAt? []) nameAt? := by
  rw [leadingCall?]
  cases (afterWord? (· == ·) callKeyword text).bind afterGap? <;> rfl

theorem ignoresPadding_leadingCall? : IgnoresPadding leadingCall? := by
  have hread : IgnoresPadding nameAt? := by
    intro text tail htail
    rw [nameAt?, nameAt?, ignoresPadding_leadingName text tail htail]
  intro text tail htail
  rw [leadingCall?_eq, leadingCall?_eq]
  exact hread.elim_afterWord? misses_callKeyword text tail htail

theorem leadingCall?_cons_padding (hchar : isPadding char = true) :
    leadingCall? (char :: text) = none := by
  rw [leadingCall?, afterWord?_cons_padding misses_callKeyword (by decide) hchar]
  rfl

theorem firstCall?_of_padding (htail : ∀ char ∈ tail, isPadding char = true) :
    firstCall? tail = none := by
  induction tail with
  | nil => rfl
  | cons char tail ih =>
      obtain ⟨hchar, htail⟩ := List.forall_mem_cons.mp htail
      rw [firstCall?, leadingCall?_cons_padding hchar, ih htail]
      rfl

theorem ignoresPadding_firstCall? : IgnoresPadding firstCall? := by
  intro text tail htail
  induction text with
  | nil => exact firstCall?_of_padding htail
  | cons char text ih =>
      rw [List.cons_append, firstCall?, firstCall?, ih, ← List.cons_append,
        ignoresPadding_leadingCall? _ tail htail]

theorem ignoresPadding_callTarget? : IgnoresPadding callTarget? := by
  intro text tail htail
  have hprefix : callKeyword.isPrefixOf (text ++ tail) = callKeyword.isPrefixOf text := by
    rw [Bool.eq_iff_iff, List.isPrefixOf_iff_prefix, List.isPrefixOf_iff_prefix]
    exact prefix_append_padding isNameChar_callKeyword htail
  rw [callTarget?, callTarget?, hprefix, ignoresPadding_firstCall? text tail htail]

/-! ## SQL -/

theorem toNat_of_isPadding (hchar : isPadding char = true) :
    char.toNat ≤ 0x20 ∨ 0x85 ≤ char.toNat := by
  simp only [isPadding, isBlank, isMark, Bool.or_eq_true, Bool.and_eq_true, decide_eq_true_eq,
    beq_iff_eq] at hchar
  rcases hchar with hblank | rfl
  · omega
  · exact Or.inr (by decide)

theorem toUpper_of_isPadding (hchar : isPadding char = true) :
    char.toUpper = char := by
  have hnat := toNat_of_isPadding hchar
  rw [Char.toUpper, dif_neg]
  rintro ⟨hlow, hhigh⟩
  have hlow : 97 ≤ char.toNat := UInt32.le_iff_toNat_le.mp hlow
  have hhigh : char.toNat ≤ 122 := UInt32.le_iff_toNat_le.mp hhigh
  omega

theorem misses_sameLetter {word : List Char} (hword : ∀ letter ∈ word, isNameChar letter = true) :
    Misses sameLetter word := by
  intro letter hletter char hchar
  have hother : char ≠ letter := by
    rintro rfl
    exact not_isPadding_of_isNameChar (hword char hletter) hchar
  have hlong : char ≠ '\u017F' := by
    rintro rfl
    exact absurd hchar (by decide)
  simp [sameLetter, toUpper_of_isPadding hchar, hother, hlong]

theorem misses_exec : Misses sameLetter "EXEC".toList :=
  misses_sameLetter (List.all_eq_true.mp (by decide))

theorem misses_sql : Misses sameLetter "SQL".toList :=
  misses_sameLetter (List.all_eq_true.mp (by decide))

/-- The second word of SQL stands at the front of a text. -/
def endsSql (text : List Char) : Bool :=
  (afterWord? sameLetter "SQL".toList text).isSome

theorem leadsWithSql_eq (text : List Char) :
    leadsWithSql text =
      ((afterWord? sameLetter "EXEC".toList text).bind afterGap?).elim (endsSql []) endsSql := by
  rw [leadsWithSql]
  cases (afterWord? sameLetter "EXEC".toList text).bind afterGap? <;> rfl

theorem ignoresPadding_leadsWithSql : IgnoresPadding leadsWithSql := by
  have hread : IgnoresPadding endsSql := by
    intro text tail htail
    rw [endsSql, afterWord?_append_padding misses_sql htail, Option.isSome_map, endsSql]
  intro text tail htail
  rw [leadsWithSql_eq, leadsWithSql_eq]
  exact hread.elim_afterWord? misses_exec text tail htail

theorem mentionsSql_cons_padding (hchar : isPadding char = true) :
    mentionsSql (char :: text) = mentionsSql text := by
  have hleads : leadsWithSql (char :: text) = false := by
    rw [leadsWithSql, afterWord?_cons_padding misses_exec (by decide +kernel) hchar]
    rfl
  rw [mentionsSql, hleads, Bool.false_or]

/-- SQL is found behind padding as well. -/
theorem mentionsSql_append_of_padding (hfront : ∀ char ∈ front, isPadding char = true)
    (text : List Char) : mentionsSql (front ++ text) = mentionsSql text := by
  induction front with
  | nil => rfl
  | cons char front ih =>
      obtain ⟨hchar, hfront⟩ := List.forall_mem_cons.mp hfront
      rw [List.cons_append, mentionsSql_cons_padding hchar, ih hfront]

theorem ignoresPadding_mentionsSql : IgnoresPadding mentionsSql := by
  intro text tail htail
  induction text with
  | nil =>
      have hpadding := mentionsSql_append_of_padding htail []
      rwa [List.append_nil] at hpadding
  | cons char text ih =>
      rw [List.cons_append, mentionsSql, mentionsSql, ih, ← List.cons_append,
        ignoresPadding_leadsWithSql _ tail htail]

end Line

end SqlReach
