import SqlReach.CallGraph
import SqlReach.Line

/-!
# Scanning a program

The scanner reads a program line by line and builds its call graph.  A header
opens a paragraph, also when a paragraph of that name was read before: the new
one then takes its place.  Every other line adds to the open paragraph, and
lines before the first header are ignored.
-/

namespace SqlReach

structure Scanner where
  graph : CallGraph := {}
  /-- The paragraph that is open, as it is stored in the graph. -/
  current : Option Paragraph := none
  /-- The headers read so far, the latest first. -/
  headers : List String := []
deriving DecidableEq

namespace Scanner

/-- Opens a new, empty paragraph. -/
def openParagraph (scanner : Scanner) (name : String) : Scanner where
  graph := scanner.graph.put name { name }
  current := some { name }
  headers := name :: scanner.headers

/-- What a line that is no header adds to the open paragraph. -/
def extend (paragraph : Paragraph) (text : List Char) : Paragraph where
  name := paragraph.name
  calls := paragraph.calls ++ (Line.callTarget? text).toList
  usesSql := paragraph.usesSql || Line.mentionsSql text

def feedTrimmed (scanner : Scanner) (text : List Char) : Scanner :=
  match Line.header? text with
  | some name => scanner.openParagraph name
  | none =>
      match scanner.current with
      | none => scanner
      | some paragraph =>
          let extended := extend paragraph text
          { scanner with
            graph := scanner.graph.put paragraph.name extended
            current := some extended }

def feed (scanner : Scanner) (line : String) : Scanner :=
  scanner.feedTrimmed (Line.trimmed line.toList)

def feedLines (scanner : Scanner) (lines : List String) : Scanner :=
  lines.foldl feed scanner

/-- The lines of a text; only the line feed divides them. -/
def linesOf (text : String) : List String :=
  (text.toList.splitOn '\n').map String.ofList

def ofText (text : String) : Scanner :=
  ({} : Scanner).feedLines (linesOf text)

end Scanner

/-- The call graph of a program text. -/
def scan (text : String) : CallGraph :=
  (Scanner.ofText text).graph

end SqlReach
