import SqlReach.Proofs.Scanner.Names

/-!
# Programs made of blocks

A block is a header line together with the lines that follow it up to the next
header.  When no label occurs twice, nothing that one block says is taken back by
another one: the call graph of a program has one paragraph for each of its blocks,
in their order, and each can be read off its own block.
-/

namespace SqlReach

namespace Outline

variable {lines : List String} {label : String}

theorem headers_append (left right : List String) :
    headers (left ++ right) = headers left ++ headers right :=
  List.filterMap_append

theorem headers_eq_nil (hplain : ∀ line ∈ lines, headerOf? line = none) : headers lines = [] := by
  rw [headers, List.filterMap_eq_nil_iff]
  exact hplain

/-- Lines without a header belong to the paragraph that is open before them. -/
theorem paragraph_append_plain (hlast : (headers lines).getLast? = some label)
    {body : List String} (hplain : ∀ line ∈ body, headerOf? line = none) (name : String) :
    paragraph (lines ++ body) name =
      if name = label then
        { name := label
          calls := (paragraph lines label).calls ++ body.filterMap callOf?
          usesSql := (paragraph lines label).usesSql || body.any holdsSql }
      else paragraph lines name := by
  induction body using List.reverseRecOn generalizing name with
  | nil =>
      split
      · rename_i hname
        simp [hname, paragraph]
      · simp
  | append_singleton body line ih =>
      obtain ⟨hbody, hline⟩ := List.forall_mem_append.mp hplain
      have hheader : headerOf? line = none := hline line (List.mem_singleton_self line)
      have hopen : (headers (lines ++ body)).getLast? = some label := by
        rw [headers_append, headers_eq_nil hbody, List.append_nil, hlast]
      rw [← List.append_assoc, paragraph_concat_plain hheader hopen, ih hbody, ih hbody,
        if_pos rfl]
      split
      · have hcall : (Line.callTarget? (Line.trimmed line.toList)).toList =
            [line].filterMap callOf? := by
          rw [List.filterMap_cons, List.filterMap_nil, callOf?]
          cases Line.callTarget? (Line.trimmed line.toList) <;> rfl
        have hsql : Line.mentionsSql (Line.trimmed line.toList) = [line].any holdsSql := by
          simp [holdsSql]
        simp only [Scanner.extend, hcall, hsql, List.filterMap_append, List.any_append,
          List.append_assoc, Bool.or_assoc]
      · rfl

end Outline

/-- A header line with a label, and lines that are no headers behind it. -/
structure Block where
  label : String
  header : String
  body : List String
  header_eq : Outline.headerOf? header = some label
  body_plain : ∀ line ∈ body, Outline.headerOf? line = none

namespace Block

open Outline

def lines (block : Block) : List String :=
  block.header :: block.body

/-- What a block says about the paragraph that it opens. -/
def paragraph (block : Block) : Paragraph where
  name := block.label
  calls := block.body.filterMap callOf?
  usesSql := block.body.any holdsSql

theorem headers_lines (block : Block) : headers block.lines = [block.label] := by
  have hheader : headers [block.header] = [block.label] := by
    simp [headers, block.header_eq]
  rw [lines, ← List.singleton_append, headers_append, hheader, headers_eq_nil block.body_plain,
    List.append_nil]

theorem headers_flatMap_lines (blocks : List Block) :
    headers (blocks.flatMap lines) = blocks.map label := by
  induction blocks with
  | nil => rfl
  | cons block blocks ih =>
      rw [List.flatMap_cons, headers_append, headers_lines, ih, List.map_cons,
        List.singleton_append]

/-- A block at the end settles its own paragraph and leaves the others alone. -/
theorem paragraph_append_lines (block : Block) (earlier : List String) (name : String) :
    Outline.paragraph (earlier ++ block.lines) name =
      if name = block.label then block.paragraph else Outline.paragraph earlier name := by
  have hlast : (headers (earlier ++ [block.header])).getLast? = some block.label := by
    rw [headers_concat_header block.header_eq, List.getLast?_concat]
  have hsplit : earlier ++ block.lines = earlier ++ [block.header] ++ block.body := by
    simp [lines]
  rw [hsplit, paragraph_append_plain hlast block.body_plain,
    paragraph_concat_header block.header_eq, paragraph_concat_header block.header_eq]
  split
  · simp [paragraph]
  · rfl

theorem paragraph_flatMap_lines (preamble : List String) {blocks : List Block}
    (hlabels : (blocks.map label).Nodup) {block : Block} (hblock : block ∈ blocks) :
    Outline.paragraph (preamble ++ blocks.flatMap lines) block.label = block.paragraph := by
  induction blocks using List.reverseRecOn with
  | nil => exact absurd hblock List.not_mem_nil
  | append_singleton blocks last ih =>
      rw [List.map_append, List.nodup_append] at hlabels
      obtain ⟨hearlier, -, hdistinct⟩ := hlabels
      rw [List.flatMap_append, List.flatMap_singleton, ← List.append_assoc,
        paragraph_append_lines]
      rcases List.mem_append.mp hblock with hblock | hblock
      · have hother : block.label ≠ last.label :=
          hdistinct _ (List.mem_map_of_mem hblock) _ (List.mem_singleton_self _)
        rw [if_neg hother, ih hearlier hblock]
      · rw [List.mem_singleton.mp hblock, if_pos rfl]

/-- The call graph of blocks with different labels, behind lines without a header. -/
theorem outline_append_flatMap_lines {preamble : List String}
    (hpreamble : ∀ line ∈ preamble, headerOf? line = none) {blocks : List Block}
    (hlabels : (blocks.map label).Nodup) :
    outline (preamble ++ blocks.flatMap lines) =
      ⟨blocks.map fun block => (block.label, block.paragraph)⟩ := by
  have hheaders : (headers (preamble ++ blocks.flatMap lines)).eraseDups = blocks.map label := by
    rw [headers_append, headers_eq_nil hpreamble, List.nil_append, headers_flatMap_lines]
    exact Register.eraseDups_eq_self hlabels
  rw [outline, hheaders, List.map_map]
  congr 1
  apply List.map_congr_left
  intro block hblock
  exact congrArg (Prod.mk block.label) (paragraph_flatMap_lines preamble hlabels hblock)

end Block

end SqlReach
