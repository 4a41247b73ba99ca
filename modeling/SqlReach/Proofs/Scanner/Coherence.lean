import SqlReach.Proofs.Scanner.Outline

/-!
# The open paragraph and the graph

The scanner has two views of the paragraph that is open: the one it holds and the one
in the graph.  However it has been fed, line by line or many lines at a time, the two
are the same paragraph, and there is none exactly as long as the graph is empty.  So a
line can do no more than this: a header puts an empty paragraph under its label, any
other line adds to the open paragraph, and every other entry of the graph stays as it
is.  A key never changes its place once it is there.
-/

namespace SqlReach

theorem CallGraph.mem_names_of_find? {graph : CallGraph} {name : String} {paragraph : Paragraph}
    (hfind : graph.find? name = some paragraph) : name ∈ graph.names := by
  obtain ⟨before, rest, hsections, -⟩ := List.lookup_eq_some_iff.mp hfind
  simp [names, hsections]

namespace Scanner

/-- What can be asked of a scanner: to read a line, which may have line feeds in it, or
to read the lines of a list. -/
inductive Action where
  | feed (line : String)
  | feedLines (lines : List String)

def act (scanner : Scanner) : Action → Scanner
  | .feed line => scanner.feed line
  | .feedLines lines => scanner.feedLines lines

/-- A fresh scanner after a series of actions. -/
def after (actions : List Action) : Scanner :=
  actions.foldl act {}

/-- The open paragraph is the one that the graph holds under its name, and there is one
as soon as the graph holds anything. -/
structure IsCoherent (scanner : Scanner) : Prop where
  current_eq_none_iff : scanner.current = none ↔ scanner.graph.sections = []
  find?_current : ∀ paragraph, scanner.current = some paragraph →
    scanner.graph.find? paragraph.name = some paragraph
  names_nodup : scanner.graph.names.Nodup

variable {scanner : Scanner} {line label : String} {paragraph : Paragraph}

theorem feed_plain_of_none (scanner : Scanner) (hplain : Outline.headerOf? line = none)
    (hcurrent : scanner.current = none) : scanner.feed line = scanner := by
  simp only [Outline.headerOf?] at hplain
  simp only [feed, feedTrimmed, hplain, hcurrent]

theorem feed_plain_of_some (hplain : Outline.headerOf? line = none)
    (hcurrent : scanner.current = some paragraph) :
    scanner.feed line =
      { scanner with
        graph := scanner.graph.put paragraph.name
          (extend paragraph (Line.trimmed line.toList))
        current := some (extend paragraph (Line.trimmed line.toList)) } := by
  simp only [Outline.headerOf?] at hplain
  simp only [feed, feedTrimmed, hplain, hcurrent]

theorem headers_feed (scanner : Scanner) (line : String) :
    (scanner.feed line).headers = (Outline.headerOf? line).toList ++ scanner.headers := by
  cases hheader : Outline.headerOf? line with
  | some label =>
      rw [feed_header hheader]
      rfl
  | none =>
      cases hcurrent : scanner.current with
      | none =>
          rw [feed_plain_of_none scanner hheader hcurrent]
          rfl
      | some paragraph =>
          rw [feed_plain_of_some hheader hcurrent]
          rfl

/-! ## Storing a paragraph -/

theorem names_put (graph : CallGraph) (name : String) (stored : Paragraph) :
    (graph.put name stored).names = Register.keysWith name graph.names :=
  Register.keys_put name stored graph.sections

/-- Whatever paragraph is stored under its own name and opened, the views agree. -/
theorem isCoherent_of_put (hnames : scanner.graph.names.Nodup) {stored : Paragraph}
    {later : Scanner} (hgraph : later.graph = scanner.graph.put stored.name stored)
    (hcurrent : later.current = some stored) : later.IsCoherent := by
  have hfind : later.graph.find? stored.name = some stored := by
    rw [hgraph, CallGraph.find?, CallGraph.put, Register.lookup_put, if_pos rfl]
  constructor
  · have hsections : later.graph.sections ≠ [] := by
      intro hempty
      rw [CallGraph.find?, hempty] at hfind
      cases hfind
    simp [hcurrent, hsections]
  · intro paragraph hparagraph
    obtain rfl : stored = paragraph := by simpa [hcurrent] using hparagraph
    exact hfind
  · rw [hgraph, names_put]
    exact Register.nodup_keysWith hnames stored.name

/-! ## One line, and any number of lines -/

theorem IsCoherent.feed (hcoherent : scanner.IsCoherent) (line : String) :
    (scanner.feed line).IsCoherent := by
  cases hheader : Outline.headerOf? line with
  | some label =>
      rw [feed_header hheader]
      exact isCoherent_of_put hcoherent.names_nodup rfl rfl
  | none =>
      cases hcurrent : scanner.current with
      | none =>
          rw [feed_plain_of_none scanner hheader hcurrent]
          exact hcoherent
      | some paragraph =>
          rw [feed_plain_of_some hheader hcurrent]
          exact isCoherent_of_put hcoherent.names_nodup rfl rfl

theorem IsCoherent.act (hcoherent : scanner.IsCoherent) (action : Action) :
    (scanner.act action).IsCoherent := by
  cases action with
  | feed line =>
      rw [Scanner.act]
      exact hcoherent.feed line
  | feedLines lines =>
      rw [Scanner.act, feedLines]
      induction lines generalizing scanner with
      | nil => exact hcoherent
      | cons line lines ih =>
          rw [List.foldl_cons]
          exact ih (hcoherent.feed line)

theorem isCoherent_after (actions : List Action) : (after actions).IsCoherent := by
  induction actions using List.reverseRecOn with
  | nil => exact ⟨by simp [after], by simp [after], List.nodup_nil⟩
  | append_singleton actions action ih =>
      rw [after, List.foldl_append]
      exact ih.act action

/-! ## What a line changes -/

/-- A header opens an empty paragraph.  It replaces the one under its label or is
appended, and no other is touched. -/
theorem feed_header_changes (scanner : Scanner) (hheader : Outline.headerOf? line = some label) :
    (scanner.feed line).current = some { name := label } ∧
    ((∃ before old rest, scanner.graph.sections = before ++ (label, old) :: rest ∧
        (scanner.feed line).graph.sections = before ++ (label, { name := label }) :: rest) ∨
      label ∉ scanner.graph.names ∧
        (scanner.feed line).graph.sections =
          scanner.graph.sections ++ [(label, { name := label })]) := by
  rw [feed_header hheader, openParagraph, CallGraph.put]
  refine ⟨rfl, ?_⟩
  rcases Register.put_cases label { name := label } scanner.graph.sections with
    ⟨before, old, rest, hsections, -, hput⟩ | hnew
  · exact Or.inl ⟨before, old, rest, hsections, hput⟩
  · exact Or.inr hnew

/-- A plain line changes the entry of the open paragraph, where it stands. -/
theorem IsCoherent.feed_plain_changes (hcoherent : scanner.IsCoherent)
    (hplain : Outline.headerOf? line = none) (hcurrent : scanner.current = some paragraph) :
    ∃ before rest,
      (scanner.feed line).current = some (extend paragraph (Line.trimmed line.toList)) ∧
      scanner.graph.sections = before ++ (paragraph.name, paragraph) :: rest ∧
      (scanner.feed line).graph.sections =
        before ++ (paragraph.name, extend paragraph (Line.trimmed line.toList)) :: rest := by
  have hstored := hcoherent.find?_current paragraph hcurrent
  rw [feed_plain_of_some hplain hcurrent, CallGraph.put]
  rcases Register.put_cases paragraph.name (extend paragraph (Line.trimmed line.toList))
    scanner.graph.sections with ⟨before, old, rest, hsections, hlookup, hput⟩ | ⟨hnew, -⟩
  · rw [CallGraph.find?, hlookup] at hstored
    cases hstored
    exact ⟨before, rest, rfl, hsections, hput⟩
  · exact absurd (CallGraph.mem_names_of_find? hstored) hnew

theorem names_prefix_feed (scanner : Scanner) (line : String) :
    scanner.graph.names <+: (scanner.feed line).graph.names := by
  cases hheader : Outline.headerOf? line with
  | some label =>
      rw [feed_header hheader]
      exact names_put _ _ _ ▸ Register.prefix_keysWith _ _
  | none =>
      cases hcurrent : scanner.current with
      | none =>
          simpa only [feed_plain_of_none scanner hheader hcurrent] using List.prefix_refl _
      | some paragraph =>
          rw [feed_plain_of_some hheader hcurrent]
          exact names_put _ _ _ ▸ Register.prefix_keysWith _ _

end Scanner

/-- After any series of actions no paragraph is open if and only if the graph is empty,
and the open paragraph is the one that the graph holds under its name.  A header then
opens an empty paragraph, which takes the place of the one under its label or stands at
the end if there was none.  Any other line leaves a scanner without an open paragraph as
it is, and otherwise changes the entry of that paragraph: it adds at most one call and
may set the flag.  No other entry changes, and the old keys stay in front of a new one. -/
theorem scanner_views_agree (actions : List Scanner.Action) (line : String) :
    let scanner := Scanner.after actions
    (scanner.current = none ↔ scanner.graph.sections = []) ∧
    (∀ paragraph, scanner.current = some paragraph →
      paragraph.name ∈ scanner.graph.names ∧
        scanner.graph.find? paragraph.name = some paragraph) ∧
    (∀ label, Outline.headerOf? line = some label →
      (scanner.feed line).current = some { name := label } ∧
      ((∃ before old rest, scanner.graph.sections = before ++ (label, old) :: rest ∧
          (scanner.feed line).graph.sections = before ++ (label, { name := label }) :: rest) ∨
        label ∉ scanner.graph.names ∧
          (scanner.feed line).graph.sections =
            scanner.graph.sections ++ [(label, { name := label })])) ∧
    (Outline.headerOf? line = none → scanner.current = none → scanner.feed line = scanner) ∧
    (Outline.headerOf? line = none → ∀ paragraph, scanner.current = some paragraph →
      ∃ before rest grown, (scanner.feed line).current = some grown ∧
        scanner.graph.sections = before ++ (paragraph.name, paragraph) :: rest ∧
        (scanner.feed line).graph.sections = before ++ (paragraph.name, grown) :: rest ∧
        grown.name = paragraph.name ∧
        grown.calls = paragraph.calls ++ (Outline.callOf? line).toList ∧
        grown.usesSql = (paragraph.usesSql || Outline.holdsSql line)) ∧
    scanner.graph.names.Nodup ∧ scanner.graph.names <+: (scanner.feed line).graph.names := by
  intro scanner
  have hcoherent : scanner.IsCoherent := Scanner.isCoherent_after actions
  refine ⟨hcoherent.current_eq_none_iff, ?_, ?_, ?_, ?_, hcoherent.names_nodup,
    scanner.names_prefix_feed line⟩
  · intro paragraph hcurrent
    have hfind := hcoherent.find?_current paragraph hcurrent
    exact ⟨CallGraph.mem_names_of_find? hfind, hfind⟩
  · exact fun label hheader => scanner.feed_header_changes hheader
  · exact fun hplain hcurrent => scanner.feed_plain_of_none hplain hcurrent
  · intro hplain paragraph hcurrent
    obtain ⟨before, rest, hgrown, hsections, hfed⟩ :=
      hcoherent.feed_plain_changes hplain hcurrent
    exact ⟨before, rest, _, hgrown, hsections, hfed, rfl, rfl, rfl⟩

/-- Two paragraphs are read, the second one with a line that has a line feed in it.  The
first label again replaces the first entry, a call is added to the second one, and before
the first header a line changes nothing. -/
theorem scanner_views_agree_two_paragraphs :
    let actions : List Scanner.Action :=
      [.feedLines ["100-A.", "    PERFORM 200-B", "200-B."], .feed "EXEC SQL\n100-A."]
    let opened : Paragraph := { name := "200-B", usesSql := true }
    let scanner := Scanner.after actions
    (scanner.current = some opened ∧ scanner.graph.find? "200-B" = some opened) ∧
    (Outline.headerOf? "100-A. AGAIN" = some "100-A" ∧
      (scanner.feed "100-A. AGAIN").current = some { name := "100-A" }) ∧
    (Outline.headerOf? "PERFORM 100-A." = none ∧
      ∃ grown, (scanner.feed "PERFORM 100-A.").current = some grown ∧
        grown.calls = [] ++ (Outline.callOf? "PERFORM 100-A.").toList) ∧
    ((Scanner.after []).current = none ∧
      (Scanner.after []).feed "PERFORM 100-A." = Scanner.after []) := by
  intro actions opened scanner
  have hopen : scanner.current = some opened := by decide +kernel
  have hheader : Outline.headerOf? "100-A. AGAIN" = some "100-A" := by decide +kernel
  have hplain : Outline.headerOf? "PERFORM 100-A." = none := by decide +kernel
  obtain ⟨-, hstored, hopens, -⟩ := scanner_views_agree actions "100-A. AGAIN"
  obtain ⟨-, -, -, -, hgrows, -⟩ := scanner_views_agree actions "PERFORM 100-A."
  obtain ⟨-, -, -, hkept, -⟩ := scanner_views_agree [] "PERFORM 100-A."
  obtain ⟨before, rest, grown, hgrown, -, -, -, hcalls, -⟩ := hgrows hplain opened hopen
  exact ⟨⟨hopen, (hstored opened hopen).2⟩, ⟨hheader, (hopens "100-A" hheader).1⟩,
    ⟨hplain, grown, hgrown, hcalls⟩, rfl, hkept hplain rfl⟩

end SqlReach
