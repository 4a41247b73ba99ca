import SqlReach.Proofs.Analysis.Verdict
import SqlReach.Proofs.Scanner.Names

/-!
# More calls, more SQL

A positive verdict survives whatever is added to a program.  One more call can
change the order of the whole traversal and move the places where the tree is cut
short, so the two trees are not compared with one another: both verdicts are
statements about reachability, and reachability only grows.  A line that is no
header adds to the paragraph in which it is inserted, if that copy of the
paragraph is the one that counts, and to no other.
-/

namespace SqlReach

/-- Whatever is recorded for the small paragraph is recorded for the large one. -/
structure Paragraph.IsWithin (small large : Paragraph) : Prop where
  calls_subset : small.calls ⊆ large.calls
  usesSql_imp : small.usesSql = true → large.usesSql = true

namespace CallGraph

/-- Whatever the small graph records under a name, the large one records as well. -/
structure IsWithin (small large : CallGraph) : Prop where
  calls_subset : ∀ name, small.callsOf name ⊆ large.callsOf name
  usesSql_imp : ∀ name, small.usesSql name = true → large.usesSql name = true

variable {small large : CallGraph}

theorem Reaches.mono (hwithin : small.IsWithin large) {start target : String}
    (hreaches : small.Reaches start target) : large.Reaches start target := by
  induction hreaches with
  | refl => exact .refl
  | step reached called ih => exact .step ih (hwithin.calls_subset _ called)

theorem IsWithin.containsSql_expand (hwithin : small.IsWithin large) {start : String}
    (hsql : (expand small start []).tree.containsSql = true) :
    (expand large start []).tree.containsSql = true := by
  rw [containsSql_expand_iff] at hsql ⊢
  obtain ⟨target, hreaches, htarget⟩ := hsql
  exact ⟨target, hreaches.mono hwithin, hwithin.usesSql_imp target htarget⟩

end CallGraph

/-! ## Inserted lines -/

namespace Outline

/-- `Inserted lines longer` says that `longer` comes from `lines` by inserting
lines that are no headers, any number of them at any positions. -/
inductive Inserted : List String → List String → Prop
  | nil : Inserted [] []
  | keep {lines longer : List String} (line : String) (hrest : Inserted lines longer) :
      Inserted (line :: lines) (line :: longer)
  | insert {lines longer : List String} {line : String} (hplain : headerOf? line = none)
      (hrest : Inserted lines longer) : Inserted lines (line :: longer)

/-- The longer text has the same headers, and what the shorter one says about a
paragraph it says as well. -/
structure Covers (longer lines : List String) : Prop where
  headers_eq : headers longer = headers lines
  isWithin : ∀ name ∈ headers lines, (paragraph lines name).IsWithin (paragraph longer name)

variable {lines longer : List String} {line : String}

theorem isWithin_extend (paragraph : Paragraph) (text : List Char) :
    paragraph.IsWithin (Scanner.extend paragraph text) where
  calls_subset := List.subset_append_left _ _
  usesSql_imp hsql := by simp [Scanner.extend, hsql]

theorem extend_isWithin_extend {small large : Paragraph} (hwithin : small.IsWithin large)
    (text : List Char) : (Scanner.extend small text).IsWithin (Scanner.extend large text) where
  calls_subset := by
    rw [Scanner.extend, Scanner.extend]
    exact List.append_subset.mpr
      ⟨List.subset_append_of_subset_left _ hwithin.calls_subset, List.subset_append_right _ _⟩
  usesSql_imp := by
    simp only [Scanner.extend, Bool.or_eq_true]
    exact Or.imp_left hwithin.usesSql_imp

theorem covers_refl (lines : List String) : Covers lines lines where
  headers_eq := rfl
  isWithin _ _ := ⟨List.Subset.refl _, id⟩

theorem Covers.trans {longest : List String} (hfirst : Covers longest longer)
    (hsecond : Covers longer lines) : Covers longest lines where
  headers_eq := hfirst.headers_eq.trans hsecond.headers_eq
  isWithin name hname := by
    have hlow := hsecond.isWithin name hname
    have hhigh := hfirst.isWithin name (hsecond.headers_eq ▸ hname)
    exact ⟨List.Subset.trans hlow.calls_subset hhigh.calls_subset,
      hhigh.usesSql_imp ∘ hlow.usesSql_imp⟩

/-- A line that is no header changes nothing but the last paragraph, which grows. -/
theorem covers_concat_plain (hplain : headerOf? line = none) (lines : List String) :
    Covers (lines ++ [line]) lines where
  headers_eq := headers_concat_plain hplain
  isWithin name hname := by
    obtain ⟨label, hlast⟩ : ∃ label, (headers lines).getLast? = some label :=
      ⟨_, List.getLast?_eq_some_getLast (List.ne_nil_of_mem hname)⟩
    rw [paragraph_concat_plain hplain hlast]
    split
    · rename_i hlabel
      rw [hlabel]
      exact isWithin_extend _ _
    · exact ⟨List.Subset.refl _, id⟩

/-- The same line behind both texts keeps the longer one ahead. -/
theorem Covers.concat (hcovers : Covers longer lines) (line : String) :
    Covers (longer ++ [line]) (lines ++ [line]) := by
  cases hheader : headerOf? line with
  | some label =>
      constructor
      · rw [headers_concat_header hheader, headers_concat_header hheader, hcovers.headers_eq]
      · intro name hname
        rw [paragraph_concat_header hheader, paragraph_concat_header hheader]
        -- A header begins its paragraph afresh in both texts, so what was inserted into
        -- an earlier copy of it no longer counts.
        split
        · exact ⟨List.Subset.refl _, id⟩
        · rename_i hother
          rw [headers_concat_header hheader, List.mem_append, List.mem_singleton] at hname
          exact hcovers.isWithin name (hname.resolve_right hother)
  | none =>
      constructor
      · rw [headers_concat_plain hheader, headers_concat_plain hheader, hcovers.headers_eq]
      · intro name hname
        rw [headers_concat_plain hheader] at hname
        obtain ⟨label, hlast⟩ : ∃ label, (headers lines).getLast? = some label :=
          ⟨_, List.getLast?_eq_some_getLast (List.ne_nil_of_mem hname)⟩
        have hlonger : (headers longer).getLast? = some label := by
          rw [hcovers.headers_eq, hlast]
        rw [paragraph_concat_plain hheader hlast, paragraph_concat_plain hheader hlonger]
        split
        · rename_i hlabel
          exact extend_isWithin_extend (hcovers.isWithin label (hlabel ▸ hname)) _
        · exact hcovers.isWithin name hname

/-- Reading on through two texts, of which one has insertions, keeps it ahead. -/
theorem Inserted.covers_append {tail longerTail : List String}
    (hinserted : Inserted tail longerTail) (hcovers : Covers longer lines) :
    Covers (longer ++ longerTail) (lines ++ tail) := by
  induction hinserted generalizing lines longer with
  | nil => simpa using hcovers
  | keep line hrest ih => simpa using ih (hcovers.concat line)
  | insert hplain hrest ih => simpa using ih ((covers_concat_plain hplain longer).trans hcovers)

theorem Inserted.covers (hinserted : Inserted lines longer) : Covers longer lines := by
  simpa using hinserted.covers_append (covers_refl [])

theorem Covers.outline_isWithin (hcovers : Covers longer lines) :
    (outline lines).IsWithin (outline longer) where
  calls_subset name := by
    intro called hcalled
    have hname := mem_headers_of_called hcalled
    rw [callsOf_outline hname] at hcalled
    rw [callsOf_outline (hcovers.headers_eq ▸ hname)]
    exact (hcovers.isWithin name hname).calls_subset hcalled
  usesSql_imp name := by
    intro hsql
    have hname := mem_headers_of_usesSql hsql
    rw [usesSql_outline hname] at hsql
    rw [usesSql_outline (hcovers.headers_eq ▸ hname)]
    exact (hcovers.isWithin name hname).usesSql_imp hsql

end Outline

/-- The search for SQL is monotone in the call graph, and inserting lines that are
no headers anywhere into a text never turns a positive verdict into a negative one. -/
theorem verdict_monotone :
    (∀ (small large : CallGraph) (start : String), small.IsWithin large →
      (expand small start []).tree.containsSql = true →
        (expand large start []).tree.containsSql = true) ∧
    ∀ (text longer start : String) (source : Option String),
      Outline.Inserted (Scanner.linesOf text) (Scanner.linesOf longer) →
        (analyze text start source).usesSql = true →
          (analyze longer start source).usesSql = true := by
  constructor
  · intro small large start hwithin
    exact hwithin.containsSql_expand
  · intro text longer start source hinserted
    have hwithin : (scan text).IsWithin (scan longer) := by
      rw [scan_eq_outline, scan_eq_outline]
      exact hinserted.covers.outline_isWithin
    exact hwithin.containsSql_expand

/-- Two calls are inserted, one of them into a copy of the paragraph that a later
header replaces. -/
theorem verdict_monotone_repeated_header :
    Outline.Inserted (Scanner.linesOf "100-A.\n100-A.\n EXEC SQL")
        (Scanner.linesOf "100-A.\n PERFORM 200-B\n100-A.\n PERFORM 300-C\n EXEC SQL") ∧
      (analyze "100-A.\n100-A.\n EXEC SQL" "100-A" none).usesSql = true ∧
      (analyze "100-A.\n PERFORM 200-B\n100-A.\n PERFORM 300-C\n EXEC SQL" "100-A" none).usesSql =
        true := by
  have hshort : Scanner.linesOf "100-A.\n100-A.\n EXEC SQL" =
      ["100-A.", "100-A.", " EXEC SQL"] := by
    decide +kernel
  have hlong : Scanner.linesOf "100-A.\n PERFORM 200-B\n100-A.\n PERFORM 300-C\n EXEC SQL" =
      ["100-A.", " PERFORM 200-B", "100-A.", " PERFORM 300-C", " EXEC SQL"] := by
    decide +kernel
  have hinserted : Outline.Inserted (Scanner.linesOf "100-A.\n100-A.\n EXEC SQL")
      (Scanner.linesOf "100-A.\n PERFORM 200-B\n100-A.\n PERFORM 300-C\n EXEC SQL") := by
    rw [hshort, hlong]
    apply Outline.Inserted.keep
    apply Outline.Inserted.insert (by decide +kernel)
    apply Outline.Inserted.keep
    apply Outline.Inserted.insert (by decide +kernel)
    exact .keep _ .nil
  have hsql : (analyze "100-A.\n100-A.\n EXEC SQL" "100-A" none).usesSql = true := by
    rw [usesSql_analyze_iff_reaches]
    exact ⟨"100-A", .refl, by decide +kernel⟩
  exact ⟨hinserted, hsql, verdict_monotone.2 _ _ _ _ hinserted hsql⟩

end SqlReach
