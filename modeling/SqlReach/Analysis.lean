import SqlReach.Expansion
import SqlReach.Scanner

/-!
# The analysis of a program

An analysis answers one question about a program: starting from a given
paragraph, can control reach a paragraph that holds an SQL statement?  It keeps
the call tree as the evidence for its verdict.
-/

namespace SqlReach

structure Analysis where
  start : String
  /-- Where the program text came from, if it is known. -/
  source : Option String := none
  /-- How many paragraphs the program has. -/
  sections : Int := 0
  usesSql : Bool
  tree : CallTree

/-- The work behind an analysis: the scanned program and the expanded start. -/
structure Survey where
  start : String
  scanner : Scanner
  expansion : Expansion

namespace Survey

def ofText (text start : String) : Survey :=
  let scanner := Scanner.ofText text
  { start, scanner, expansion := expand scanner.graph start [] }

def analysis (survey : Survey) (source : Option String) : Analysis where
  start := survey.start
  source := source
  sections := survey.scanner.graph.sections.length
  usesSql := survey.expansion.tree.containsSql
  tree := survey.expansion.tree

end Survey

def analyze (text start : String) (source : Option String) : Analysis :=
  (Survey.ofText text start).analysis source

end SqlReach
