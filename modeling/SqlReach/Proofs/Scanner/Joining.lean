import SqlReach.Proofs.Scanner.Blocks
import SqlReach.Proofs.Scanner.Lines

/-!
# One program behind another

When a text that begins with a header stands behind another text, nothing that the
first text leaves open runs on into the second.  So the call graph of the two together
can be read off the call graphs of each: a paragraph of the second text is as that text
has it, also when the first text has one of the same name, every other paragraph is as
in the first text, and the names of the first text keep their places in front.
-/

namespace SqlReach

namespace Outline

variable (left : List String) {right : List String} {name : String}

/-- The last header with a given label is looked for from the end. -/
theorem behindHeader_append_of_mem (hname : name ∈ headers right) :
    behindHeader name (left ++ right) = behindHeader name right := by
  induction right using List.reverseRecOn with
  | nil => exact absurd hname List.not_mem_nil
  | append_singleton right line ih =>
      by_cases hline : headerOf? line = some name
      · rw [← List.append_assoc, behindHeader, behindHeader,
          List.rtakeWhile_concat_neg _ _ _ (by simp [hline]),
          List.rtakeWhile_concat_neg _ _ _ (by simp [hline])]
      · have hearlier : name ∈ headers right := by
          rw [headers_append, List.mem_append] at hname
          apply hname.resolve_right
          simpa [headers] using hline
        rw [← List.append_assoc, behindHeader_concat hline, behindHeader_concat hline, ih hearlier]

theorem behindHeader_append_of_not_mem (hname : name ∉ headers right) :
    behindHeader name (left ++ right) = behindHeader name left ++ right := by
  induction right using List.reverseRecOn with
  | nil => simp
  | append_singleton right line ih =>
      rw [headers_append, List.mem_append, not_or] at hname
      have hline : headerOf? line ≠ some name := by
        simpa [headers] using hname.2
      rw [← List.append_assoc, behindHeader_concat hline, ih hname.1, List.append_assoc]

/-- A header at the front of the second part ends whatever is open in the first. -/
theorem body_append_of_not_mem {header label : String} {rest : List String}
    (hright : right = header :: rest) (hheader : headerOf? header = some label)
    (hname : name ∉ headers right) : body name (left ++ right) = body name left := by
  rw [body, behindHeader_append_of_not_mem left hname, body, hright, List.takeWhile_append]
  split
  · rename_i hwhole
    rw [List.takeWhile_cons_of_neg (by simp [hheader]), List.append_nil]
    exact ((List.takeWhile_prefix _).eq_of_length hwhole).symm
  · rfl

theorem paragraph_append {header label : String} {rest : List String}
    (hright : right = header :: rest) (hheader : headerOf? header = some label) (name : String) :
    paragraph (left ++ right) name =
      if name ∈ headers right then paragraph right name else paragraph left name := by
  split
  · rename_i hname
    rw [paragraph, body, behindHeader_append_of_mem left hname]
    rfl
  · rename_i hname
    rw [paragraph, body_append_of_not_mem left hright hheader hname]
    rfl

theorem names_outline_append (right : List String) :
    (outline (left ++ right)).names =
      (outline left).names ++ (outline right).names.filter (· ∉ (outline left).names) := by
  rw [names_outline, names_outline, names_outline, headers_append, Register.eraseDups_append]

theorem find?_outline_append {header label : String} {rest : List String}
    (hright : right = header :: rest) (hheader : headerOf? header = some label) (name : String) :
    (outline (left ++ right)).find? name =
      if name ∈ (outline right).names then (outline right).find? name
      else (outline left).find? name := by
  have hdefined : name ∈ (outline right).names ↔ name ∈ headers right := by
    rw [names_outline, List.mem_eraseDups]
  simp only [find?_outline, hdefined, headers_append, List.mem_append,
    paragraph_append left hright hheader]
  by_cases hname : name ∈ headers right
  · simp [hname]
  · simp [hname]

end Outline

namespace Scanner

/-- A line feed between two texts belongs to neither. -/
theorem linesOf_append (first second : String) :
    linesOf (first ++ "\n" ++ second) = linesOf first ++ linesOf second := by
  have hsplit : (first ++ "\n" ++ second).toList.splitOn '\n' =
      first.toList.splitOn '\n' ++ second.toList.splitOn '\n' := by
    rw [String.toList_append, String.toList_append, List.append_assoc]
    simp only [List.splitOn_eq_splitOnP]
    exact List.splitOnP_append_cons _ _ (beq_self_eq_true '\n')
  rw [linesOf, hsplit, List.map_append, linesOf, linesOf]

end Scanner

/-- If the second of two texts begins with a header, the call graph of the two has the
names of the first and then the new names of the second.  The paragraphs of the second
text are as they are there, and the others as they are in the first. -/
theorem scan_append_overrides (first second : String) {line label : String}
    (hline : (Scanner.linesOf second).head? = some line)
    (hheader : Outline.headerOf? line = some label) :
    (scan (first ++ "\n" ++ second)).names =
      (scan first).names ++ (scan second).names.filter (· ∉ (scan first).names) ∧
    (∀ name ∈ (scan second).names,
      (scan (first ++ "\n" ++ second)).find? name = (scan second).find? name) ∧
    (∀ name, name ∉ (scan second).names →
      (scan (first ++ "\n" ++ second)).find? name = (scan first).find? name) := by
  obtain ⟨rest, hlines⟩ := List.head?_eq_some_iff.mp hline
  simp only [scan_eq_outline, Scanner.linesOf_append]
  have hfind := Outline.find?_outline_append (Scanner.linesOf first) hlines hheader
  refine ⟨Outline.names_outline_append _ _, ?_, ?_⟩
  · intro name hname
    rw [hfind, if_pos hname]
  · intro name hname
    rw [hfind, if_neg hname]

/-- The second paragraph is open at the end of the first text, and the second text begins
with it again. -/
theorem scan_append_overrides_at_seam :
    let first := "100-A.\n    PERFORM 200-B\n200-B.\n    PERFORM 100-A"
    let second := "200-B.\n    EXEC SQL\n300-C.\n"
    (Scanner.linesOf second).head? = some "200-B." ∧
    Outline.headerOf? "200-B." = some "200-B" ∧
    (scan (first ++ "\n" ++ second)).names = ["100-A", "200-B", "300-C"] ∧
    (scan (first ++ "\n" ++ second)).find? "200-B" =
      some { name := "200-B", usesSql := true } ∧
    (scan (first ++ "\n" ++ second)).find? "100-A" =
      some { name := "100-A", calls := ["200-B"] } := by
  intro first second
  have hline : (Scanner.linesOf second).head? = some "200-B." := by decide +kernel
  have hheader : Outline.headerOf? "200-B." = some "200-B" := by decide +kernel
  have hfirst : scan first =
      ⟨[("100-A", { name := "100-A", calls := ["200-B"] }),
        ("200-B", { name := "200-B", calls := ["100-A"] })]⟩ := by decide +kernel
  have hsecond : scan second =
      ⟨[("200-B", { name := "200-B", usesSql := true }), ("300-C", { name := "300-C" })]⟩ := by
    decide +kernel
  obtain ⟨hnames, hlater, hearlier⟩ := scan_append_overrides first second hline hheader
  rw [hfirst, hsecond] at hnames
  rw [hsecond] at hlater hearlier
  rw [hfirst] at hearlier
  exact ⟨hline, hheader, hnames, hlater "200-B" (by decide), hearlier "100-A" (by decide)⟩

end SqlReach
