import SqlReach.Proofs.Scanner.Outline

/-!
# The lines of a text

A text is its lines with a line feed between any two of them.  An empty line is no
header, calls nothing and holds no SQL, so the scanner comes to the same state
whether or not it is fed the empty lines: only the parts of the text between the
line feeds matter, and of these only those that are not empty.
-/

namespace SqlReach

namespace Text

variable {α : Type} {divides : α → Bool}

/-- The parts of a text between the places where it is divided, without empty ones. -/
def parts (divides : α → Bool) (text : List α) : List (List α) :=
  (text.splitOnP divides).filter (!·.isEmpty)

/-- A divider belongs to neither side, and nothing else is lost. -/
theorem parts_append_cons {divider : α} (hdivider : divides divider = true)
    (before after : List α) :
    parts divides (before ++ divider :: after) = parts divides before ++ parts divides after := by
  rw [parts, List.splitOnP_append_cons before after hdivider, List.filter_append, parts, parts]

theorem parts_cons {divider : α} (hdivider : divides divider = true) (after : List α) :
    parts divides (divider :: after) = parts divides after :=
  parts_append_cons hdivider [] after

theorem parts_congr {other : α → Bool} {text : List α}
    (hagree : ∀ item ∈ text, divides item = other item) :
    parts divides text = parts other text := by
  have hsplit : text.splitOnP divides = text.splitOnP other := by
    induction text with
    | nil => rfl
    | cons first rest ih =>
        obtain ⟨hfirst, hrest⟩ := List.forall_mem_cons.mp hagree
        rw [List.splitOnP_cons_eq_if_modifyHead, List.splitOnP_cons_eq_if_modifyHead, hfirst,
          ih hrest]
  rw [parts, hsplit, parts]

/-- No divider is left inside a part. -/
theorem divides_eq_false_of_mem_splitOnP {text part : List α}
    (hpart : part ∈ text.splitOnP divides) : ∀ item ∈ part, divides item = false := by
  induction text generalizing part with
  | nil =>
      rw [List.splitOnP_nil, List.mem_singleton] at hpart
      simp [hpart]
  | cons first rest ih =>
      obtain ⟨head, tail, hsplit⟩ := List.exists_cons_of_ne_nil (List.splitOnP_ne_nil divides rest)
      rw [hsplit] at ih
      rw [List.splitOnP_cons_eq_if_modifyHead, hsplit] at hpart
      split at hpart
      · rcases List.mem_cons.mp hpart with rfl | hlater
        · simp
        · exact ih hlater
      · rename_i hfirst
        rw [List.modifyHead_cons] at hpart
        rcases List.mem_cons.mp hpart with rfl | hlater
        · have hhead := ih List.mem_cons_self
          simpa [hfirst] using hhead
        · exact ih (List.mem_cons_of_mem head hlater)

theorem subset_of_mem_splitOnP {text part : List α}
    (hpart : part ∈ text.splitOnP divides) : part ⊆ text := by
  induction text generalizing part with
  | nil =>
      rw [List.splitOnP_nil, List.mem_singleton] at hpart
      exact hpart ▸ List.Subset.refl _
  | cons first rest ih =>
      obtain ⟨head, tail, hsplit⟩ := List.exists_cons_of_ne_nil (List.splitOnP_ne_nil divides rest)
      rw [hsplit] at ih
      rw [List.splitOnP_cons_eq_if_modifyHead, hsplit] at hpart
      split at hpart
      · rcases List.mem_cons.mp hpart with rfl | hlater
        · exact List.nil_subset _
        · exact List.subset_cons_of_subset first (ih hlater)
      · rw [List.modifyHead_cons] at hpart
        rcases List.mem_cons.mp hpart with rfl | hlater
        · exact List.cons_subset_cons first (ih List.mem_cons_self)
        · exact List.subset_cons_of_subset first (ih (List.mem_cons_of_mem head hlater))

theorem not_mem_intercalate {char : Char} {separator : List Char} (hseparator : char ∉ separator)
    {texts : List (List Char)} (htexts : ∀ text ∈ texts, char ∉ text) :
    char ∉ separator.intercalate texts := by
  induction texts with
  | nil => simp [List.intercalate]
  | cons first rest ih =>
      obtain ⟨hfirst, hrest⟩ := List.forall_mem_cons.mp htexts
      cases rest with
      | nil => simpa [List.intercalate] using hfirst
      | cons second rest =>
          have hlater := ih hrest
          simp only [List.intercalate, List.intersperse_cons_cons, List.flatten_cons,
            List.mem_append, not_or] at hlater ⊢
          exact ⟨hfirst, hseparator, hlater⟩

/-- Lines that can be read one by one can be read together. -/
theorem mapM_map_eq_some {α β : Type} {read : β → Option α} {write : α → β} {items : List α}
    (hread : ∀ item ∈ items, read (write item) = some item) :
    (items.map write).mapM read = some items := by
  induction items with
  | nil => rfl
  | cons item items ih =>
      obtain ⟨hfirst, hrest⟩ := List.forall_mem_cons.mp hread
      rw [List.map_cons, List.mapM_cons, hfirst, ih hrest]
      rfl

end Text

namespace Scanner

/-! ## Dividing and joining -/

theorem linesOf_intercalate {lines : List String} (hne : lines ≠ [])
    (hlines : ∀ line ∈ lines, '\n' ∉ line.toList) :
    linesOf ("\n".intercalate lines) = lines := by
  have hsplit : ("\n".intercalate lines).toList.splitOn '\n' = lines.map String.toList := by
    rw [String.toList_intercalate]
    apply List.splitOn_intercalate
    · simpa using hlines
    · simpa using hne
  rw [linesOf, hsplit, List.map_map]
  simp [Function.comp_def]

theorem linesOf_ne_nil (text : String) : linesOf text ≠ [] := by
  simp [linesOf, List.splitOn_ne_nil]

theorem newline_not_mem_of_mem_linesOf {text line : String} (hline : line ∈ linesOf text) :
    '\n' ∉ line.toList := by
  obtain ⟨part, hpart, rfl⟩ := List.mem_map.mp hline
  rw [List.splitOn_eq_splitOnP] at hpart
  intro hmem
  rw [String.toList_ofList] at hmem
  simpa using Text.divides_eq_false_of_mem_splitOnP hpart '\n' hmem

/-! ## Empty lines -/

theorem put_outline_self {lines : List String} {label : String}
    (hlabel : label ∈ Outline.headers lines) :
    (outline lines).put label (Outline.paragraph lines label) = outline lines := by
  have hknown : label ∈ (Outline.headers lines).eraseDups := List.mem_eraseDups.mpr hlabel
  rw [Outline.put_outline, Register.keysWith, if_pos hknown, outline]
  congr 1
  apply List.map_congr_left
  intro known _
  split
  · rename_i heq
    rw [heq]
  · rfl

/-- An empty line leaves the scanner as it is. -/
theorem HasRead.feed_empty {scanner : Scanner} {lines : List String}
    (hread : scanner.HasRead lines) : scanner.feed "" = scanner := by
  cases hlast : (Outline.headers lines).getLast? with
  | none =>
      have hcurrent : scanner.current = none := by
        rw [hread.current_eq, hlast]
        rfl
      obtain ⟨graph, current, headers⟩ := scanner
      obtain rfl : current = none := hcurrent
      rfl
  | some label =>
      have hcurrent : scanner.current = some (Outline.paragraph lines label) := by
        rw [hread.current_eq, hlast]
        rfl
      have hgraph : scanner.graph.put label (Outline.paragraph lines label) = scanner.graph := by
        rw [hread.graph_eq]
        exact put_outline_self (List.mem_of_getLast? hlast)
      have hextend : ∀ paragraph : Paragraph, extend paragraph [] = paragraph := by
        intro paragraph
        have hcall : Line.callTarget? [] = none := rfl
        have hsql : Line.mentionsSql [] = false := rfl
        simp [extend, hcall, hsql]
      obtain ⟨graph, current, headers⟩ := scanner
      obtain rfl : current = some (Outline.paragraph lines label) := hcurrent
      have hfeed : Scanner.feed ⟨graph, some (Outline.paragraph lines label), headers⟩ "" =
          ⟨graph.put label (extend (Outline.paragraph lines label) []),
            some (extend (Outline.paragraph lines label) []), headers⟩ := rfl
      rw [hfeed, hextend, hgraph]

theorem feedLines_filter (lines : List String) :
    ({} : Scanner).feedLines (lines.filter (· ≠ "")) = ({} : Scanner).feedLines lines := by
  induction lines using List.reverseRecOn with
  | nil => rfl
  | append_singleton lines line ih =>
      rw [List.filter_append, feedLines_concat]
      by_cases hempty : line = ""
      · subst hempty
        rw [(hasRead_feedLines lines).feed_empty, ← ih]
        simp
      · have hkept : [line].filter (· ≠ "") = [line] := by simp [hempty]
        rw [hkept, feedLines_concat, ih]

/-- The scanner of a text depends on nothing but its lines that are not empty. -/
theorem ofText_eq_feedLines_parts (text : String) :
    ofText text =
      ({} : Scanner).feedLines ((Text.parts (· == '\n') text.toList).map String.ofList) := by
  have hlines : (linesOf text).filter (· ≠ "") =
      (Text.parts (· == '\n') text.toList).map String.ofList := by
    rw [linesOf, Text.parts, List.splitOn_eq_splitOnP, List.filter_map]
    congr 1
    apply List.filter_congr
    intro part _
    cases part with
    | nil => rfl
    | cons first rest => simp [String.ofList_eq_empty_iff]
  rw [ofText, ← feedLines_filter, hlines]

end Scanner

end SqlReach
