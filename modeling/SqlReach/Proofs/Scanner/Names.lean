import SqlReach.Proofs.Scanner.Outline

/-!
# The names in a scanned program

Looking up a name in the call graph of a program gives what the outline says
about it, and nothing for a name without a header.  Whatever a paragraph calls is
a name in the narrow sense: letters, digits, hyphens and underscores, at least
one of them.
-/

namespace SqlReach

namespace Line

/-- A text that can be called: one name character or more, and nothing else. -/
def IsName (name : String) : Prop :=
  name ≠ "" ∧ ∀ char ∈ name.toList, isNameChar char = true

variable {text : List Char} {name : String}

theorem IsName.toList_ne_nil (hname : IsName name) : name.toList ≠ [] := by
  rw [ne_eq, String.toList_eq_nil_iff]
  exact hname.1

theorem isName_of_leadingCall? (hcall : leadingCall? text = some name) : IsName name := by
  simp only [leadingCall?] at hcall
  split at hcall
  · cases hcall
  · rename_i rest hrest
    split at hcall
    · cases hcall
    · rename_i hne
      cases hcall
      refine ⟨by simpa [String.ext_iff] using hne, ?_⟩
      intro char hchar
      rw [String.toList_ofList, leadingName] at hchar
      exact List.mem_takeWhile_imp hchar

theorem isName_of_firstCall? (hcall : firstCall? text = some name) : IsName name := by
  induction text with
  | nil => cases hcall
  | cons first rest ih =>
      simp only [firstCall?, Option.orElse_eq_orElse, Option.orElse_eq_or,
        Option.or_eq_some_iff] at hcall
      rcases hcall with hhere | ⟨-, hlater⟩
      · exact isName_of_leadingCall? hhere
      · exact ih hlater

theorem isName_of_callTarget? (hcall : callTarget? text = some name) : IsName name := by
  simp only [callTarget?] at hcall
  split at hcall
  · exact isName_of_firstCall? hcall
  · cases hcall

end Line

namespace Outline

variable {lines : List String} {name called : String}

theorem names_outline (lines : List String) :
    (outline lines).names = (headers lines).eraseDups := by
  simp [CallGraph.names, outline, Function.comp_def]

theorem find?_outline (lines : List String) (name : String) :
    (outline lines).find? name =
      if name ∈ headers lines then some (paragraph lines name) else none := by
  rw [CallGraph.find?, outline, Register.lookup_map]
  simp only [List.mem_eraseDups]

theorem callsOf_outline (hname : name ∈ headers lines) :
    (outline lines).callsOf name = (paragraph lines name).calls := by
  rw [CallGraph.callsOf, find?_outline, if_pos hname]

theorem usesSql_outline (hname : name ∈ headers lines) :
    (outline lines).usesSql name = (paragraph lines name).usesSql := by
  rw [CallGraph.usesSql, find?_outline, if_pos hname]

theorem mem_headers_of_called (hcalled : called ∈ (outline lines).callsOf name) :
    name ∈ headers lines := by
  by_contra hname
  rw [CallGraph.callsOf, find?_outline, if_neg hname] at hcalled
  exact absurd hcalled List.not_mem_nil

theorem mem_headers_of_usesSql (hsql : (outline lines).usesSql name = true) :
    name ∈ headers lines := by
  by_contra hname
  rw [CallGraph.usesSql, find?_outline, if_neg hname] at hsql
  cases hsql

theorem isName_of_called (hcalled : called ∈ (outline lines).callsOf name) :
    Line.IsName called := by
  rw [callsOf_outline (mem_headers_of_called hcalled)] at hcalled
  obtain ⟨line, -, hcall⟩ := List.mem_filterMap.mp hcalled
  exact Line.isName_of_callTarget? hcall

end Outline

theorem scan_eq_outline (text : String) : scan text = outline (Scanner.linesOf text) :=
  (Scanner.hasRead_feedLines (Scanner.linesOf text)).graph_eq

end SqlReach
