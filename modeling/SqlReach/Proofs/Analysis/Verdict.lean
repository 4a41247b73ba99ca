import SqlReach.Analysis
import SqlReach.Proofs.Expansion.Coverage

/-!
# The verdict of an analysis

The verdict is read off a call tree in which repeated paragraphs are cut short.
This module proves that it is nevertheless a statement about the whole call
graph: it is positive exactly when a chain of calls leads from the start to a
paragraph with SQL.
-/

namespace SqlReach

namespace CallGraph

variable {graph : CallGraph}

theorem Reaches.of_call {start next target : String} (hcalled : next ∈ graph.callsOf start)
    (hreaches : graph.Reaches next target) : graph.Reaches start target := by
  rw [← reachesAvoiding_nil] at hreaches ⊢
  exact .of_call List.not_mem_nil hcalled hreaches

theorem Reaches.exists_path {start target : String} (hreaches : graph.Reaches start target) :
    ∃ path, graph.IsCallChain path ∧ path.head? = some start ∧ path.getLast? = some target := by
  rw [← reachesAvoiding_nil] at hreaches
  obtain ⟨path, hchain, hhead, hlast, -⟩ := hreaches.exists_path
  exact ⟨path, hchain, hhead, hlast⟩

theorem IsCallChain.reaches {path : List String} (hchain : graph.IsCallChain path)
    {start target : String} (hhead : path.head? = some start)
    (hlast : path.getLast? = some target) : graph.Reaches start target := by
  rw [← reachesAvoiding_nil]
  exact hchain.reachesAvoiding hhead hlast fun _ _ => List.not_mem_nil

/-- Expanding a start that begins with nothing visited finds SQL if and only if
a paragraph that the start reaches holds it. -/
theorem containsSql_expand_iff (graph : CallGraph) (start : String) :
    (expand graph start []).tree.containsSql = true ↔
      ∃ target, graph.Reaches start target ∧ graph.usesSql target = true := by
  have hexpands := Expansion.expands_expand graph start []
  rw [hexpands.containsSql_iff]
  simp only [hexpands.mem_names_iff_reaches]

end CallGraph

theorem usesSql_analyze_iff_reaches (text start : String) (source : Option String) :
    (analyze text start source).usesSql = true ↔
      ∃ target, (scan text).Reaches start target ∧ (scan text).usesSql target = true :=
  CallGraph.containsSql_expand_iff (scan text) start

theorem usesSql_analyze_eq_false_iff (text start : String) (source : Option String) :
    (analyze text start source).usesSql = false ↔
      ∀ name, (scan text).Reaches start name → (scan text).usesSql name = false := by
  rw [← Bool.not_eq_true, usesSql_analyze_iff_reaches]
  simp

/-- The verdict is positive if and only if there is a path of calls, of one name
or more, that begins at the start and ends at a paragraph with SQL. -/
theorem usesSql_analyze_iff_exists_path (text start : String) (source : Option String) :
    (analyze text start source).usesSql = true ↔
      ∃ path target, (scan text).IsCallChain path ∧ path.head? = some start ∧
        path.getLast? = some target ∧ (scan text).usesSql target = true := by
  have hverdict : (analyze text start source).usesSql =
      (expand (scan text) start []).tree.containsSql := rfl
  rw [hverdict, CallGraph.containsSql_expand_iff]
  constructor
  · rintro ⟨target, hreaches, hsql⟩
    obtain ⟨path, hchain, hhead, hlast⟩ := hreaches.exists_path
    exact ⟨path, target, hchain, hhead, hlast, hsql⟩
  · rintro ⟨path, target, hchain, hhead, hlast, hsql⟩
    exact ⟨target, hchain.reaches hhead hlast, hsql⟩

end SqlReach
