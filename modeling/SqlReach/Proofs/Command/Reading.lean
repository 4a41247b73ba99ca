import SqlReach.Proofs.Command.Terminal
import SqlReach.Proofs.Command.Transcript
import SqlReach.Proofs.FileTree.Resolution

/-!
# Reading the source of a run

A run resolves the path of its source before it reads it, and reading resolves it again.
In a tree without cycles of links nothing is left to resolve the second time.  So a run
reads what a reader finds that is given the path as it was, or fails as that reader does,
provided that no link is moved when the journal is set up before.
-/

namespace SqlReach

/-- The limits do not matter for a path: it is resolved as it is without them. -/
def FileTree.Limits.Suffice (limits : Limits) (tree : FileTree) (directory : Directory)
    (path : String) : Prop :=
  ∀ ample : Limits, ample.Allow tree →
    tree.resolve limits directory path = tree.resolve ample directory path

namespace Command

variable {start : Start} {settings : Settings} {session : Session}

/-- Setting up the journal leaves every path as it is, if there is a journal already or if
what is recorded meanwhile is logged without moving anything but files. -/
theorem leadsAlike_prepared {places : List Location} {log : Option Location}
    (hplace : session.world.journal.isSome = true ∨
      (withJournal start settings session).LogsWithin
        (Remark.lines start.stamp (withJournal start settings session).world.journal
          (setupRemarks start settings session)) places log) :
    session.world.toDisk.LeadsAlike (prepared start settings session).world.toDisk := by
  have hsetup := (withJournal_keeps start settings session).2.leadsAlike
  have hrecords := (says_prepared start settings session).records
  cases hjournal : session.world.journal with
  | some journal =>
      have hprepared : prepared start settings session = session := by
        simp only [prepared, setUpJournal, hjournal]
      rw [hprepared]
      exact (Disk.grows_refl _).leadsAlike
  | none =>
      rw [hjournal] at hplace
      obtain ⟨hdirectory, hkeeps⟩ := hrecords.keeps (hplace.resolve_left (by simp))
      exact hsetup.trans ⟨hkeeps.sameLinks, hdirectory⟩

/-! ## Resolving twice -/

/-- What comes of reading at a path as it is.  The path is resolved, and the reading is
recorded before the file is opened. -/
def textAt (start : Start) (settings : Settings) (path : String) (session : Session) :
    Except Source.ReadError String :=
  match session.world.tree.resolve start.machine.inner.limits session.world.directory path with
  | .error cause => .error (.unresolved cause)
  | .ok source =>
      Source.readAt start.machine.inner.codecs
        (session.record start (Trace.reading source)).world.tree settings.sourceEncoding source

/-- Where the journal is kept on the terminal, recording does not come between. -/
theorem textAt_of_no_file (hfile : ∀ journal ∈ session.world.journal, journal.file = none)
    (path : String) :
    textAt start settings path session =
      Source.read start.machine.inner session.world.tree session.world.directory
        settings.sourceEncoding path := by
  rw [textAt, Source.read]
  cases session.world.tree.resolve start.machine.inner.limits session.world.directory path with
  | error cause => rfl
  | ok source =>
      dsimp only
      rw [Session.record_toDisk start (Trace.reading source) hfile]

/-- What a run comes to, once something was read at the resolved path or failed to be. -/
def afterReading (start : Start) (paragraph : String) (format : Option Format)
    (path : AbsolutePath) (session : Session) : Except Source.ReadError String → Outcome
  | .error cause => fail start path cause (atReading start path session)
  | .ok text =>
      report format (analyze text paragraph (some path.text))
        (atReport start path text paragraph session)

theorem analyzeAt_eq_afterReading (start : Start) (settings : Settings) (paragraph : String)
    (format : Option Format) (path : AbsolutePath) (session : Session) :
    analyzeAt start settings paragraph format path session =
      afterReading start paragraph format path session
        (textAt start settings path.text session) := by
  cases hread : sourceText start settings path session with
  | error cause =>
      rw [analyzeAt_of_error hread, show textAt start settings path.text session = _ from hread]
      rfl
  | ok text =>
      rw [analyzeAt_of_ok hread, show textAt start settings path.text session = _ from hread]
      rfl

/-- A path that is resolved to a real location is resolved to it wherever the same links
are. -/
theorem resolve_of_leadsAlike {before after : Disk} (hleads : before.LeadsAlike after)
    {there : Location} (hreal : before.tree.IsReal there) {limits : FileTree.Limits} {path : String}
    (hresolve : before.tree.resolve limits before.directory path = .ok { location := there }) :
    after.tree.resolve limits after.directory path = .ok { location := there } := by
  have hlinks : before.tree.replaceLinks limits before.directory path =
      .ok { location := there } := by
    rw [FileTree.resolve] at hresolve
    cases hreached : before.tree.replaceLinks limits before.directory path with
    | error cause =>
        simp only [hreached] at hresolve
        cases hresolve
    | ok reached =>
        simp only [hreached] at hresolve
        split at hresolve
        · cases hresolve
        · exact hresolve
  apply (hleads.sameLinks.isReal hreal).resolve_eq
  rw [hleads.directory_eq, ← hleads.sameLinks.replaceLinks_eq, hlinks]

/-- In a tree without cycles of links a path is resolved to one in which nothing is left to
resolve, whatever the limits.  What is read there is what is read at the path itself.  So a
run analyzes the text that a reader finds at the path at once, or reports the cause for
which that reader fails, unless links or the working directory were moved while the journal
was set up.  They are not, if there is a journal already, if it is kept on the terminal, if
there is room in the log file or if there are only files in its places.  The limits of the
machine must not stand in the way when the path is resolved for the first time. -/
theorem resolved_path_is_read_alike (world : World) (path : String)
    (hacyclic : world.tree.IsAcyclic) (hpath : Path.hasNull path = false)
    (hthere : world.directory.lost = 0 ∨ Path.isAbsolute path = true) :
    ∃ resolved : AbsolutePath,
      (∀ limits : FileTree.Limits, limits.Allow world.tree →
        world.tree.resolve limits world.directory path = .ok resolved) ∧
      (∀ limits : FileTree.Limits,
        world.tree.resolve limits world.directory resolved.text = .ok resolved) ∧
      (∀ reader : Reader, reader.limits.Suffice world.tree world.directory path → ∀ encoding,
        Source.read reader world.tree world.directory encoding resolved.text =
          Source.read reader world.tree world.directory encoding path) ∧
      ∀ start settings arguments session paragraph format, session.world = world →
        start.machine.limits.Suffice world.tree world.directory path →
        start.machine.inner.limits.Suffice world.tree world.directory path →
        Asks settings arguments paragraph path format →
        (setUpJournal start settings session).2 = none →
        let ready := prepared start settings session
        let journaled := withJournal start settings session
        (world.toDisk.LeadsAlike ready.world.toDisk →
          runWith start settings arguments session =
            afterReading start paragraph format resolved ready
              (textAt start settings path ready)) ∧
        ((∀ journal ∈ ready.world.journal, journal.file = none) →
          textAt start settings path ready =
            Source.read start.machine.inner ready.world.tree ready.world.directory
              settings.sourceEncoding path) ∧
        (∀ places log, world.journal.isSome = true ∨
          journaled.LogsWithin (Remark.lines start.stamp journaled.world.journal
            (setupRemarks start settings session)) places log →
          world.toDisk.LeadsAlike ready.world.toDisk) := by
  have hdirectory := FileTree.isReal_of_directory world.standing
  obtain ⟨there, hreal, hresolve⟩ := hacyclic.exists_resolve_eq hdirectory hpath hthere
  have hagain : ∀ limits : FileTree.Limits,
      world.tree.resolve limits world.directory there.text = .ok { location := there } :=
    fun limits => hreal.resolve_text limits world.directory
  have hsuffice : ∀ limits : FileTree.Limits,
      limits.Suffice world.tree world.directory path →
        world.tree.resolve limits world.directory path = .ok { location := there } := by
    intro limits hlimits
    have hample : FileTree.Limits.Allow { links := world.tree.linkCount, path := none }
        world.tree := ⟨rfl, le_rfl⟩
    rw [hlimits _ hample, hresolve _ hample]
  refine ⟨{ location := there }, hresolve, hagain, ?_, ?_⟩
  · intro reader hlimits encoding
    rw [Source.read, Source.read, hsuffice _ hlimits]
    simp only [AbsolutePath.text, Bool.false_eq_true, if_false, hagain]
  · rintro start settings arguments session paragraph format rfl hlimits hinner hasks hsetup ready
      journaled
    refine ⟨fun hleads => ?_, fun hfile => textAt_of_no_file hfile path,
      fun places log => leadsAlike_prepared⟩
    have hlocated := resolve_of_leadsAlike hleads hreal (hsuffice _ hlimits)
    have hfirst := resolve_of_leadsAlike hleads hreal (hsuffice _ hinner)
    have hsecond := (hleads.sameLinks.isReal hreal).resolve_text start.machine.inner.limits
      ready.world.directory
    rw [runWith_of_locates ⟨⟨path, hasks, hlocated⟩, hsetup⟩, analyzeAt_eq_afterReading]
    congr 1
    simp only [textAt, AbsolutePath.text, Bool.false_eq_true, if_false]
    rw [hfirst, hsecond]

/-- A link to the directory around where another one leads. -/
def linkedTree : FileTree where
  entries :=
    [({ text := "d" }, .directory [({ text := "n" }, .file [])]),
      ({ text := "k" }, .link "/d/e"), ({ text := "l" }, .link "k/..")]

theorem linkedTree_link {link : Location} {target : String}
    (hentry : linkedTree.find? link = some (.link target)) :
    link = Location.root.child { text := "k" } ∧ target = "/d/e" ∨
      link = Location.root.child { text := "l" } ∧ target = "k/.." := by
  have hmem : link.names ∈ linkedTree.root.linkNames := Node.mem_linkNames hentry
  have hnames : linkedTree.root.linkNames = [[{ text := "k" }], [{ text := "l" }]] := by rfl
  obtain ⟨names⟩ := link
  rw [hnames, List.mem_cons, List.mem_singleton] at hmem
  rcases hmem with rfl | rfl
  · cases hentry
    exact Or.inl ⟨rfl, rfl⟩
  · cases hentry
    exact Or.inr ⟨rfl, rfl⟩

/-- The one link needs the other, which needs none. -/
theorem linkedTree_needs {link other : Location} (hneeds : linkedTree.Needs link other) :
    link = Location.root.child { text := "l" } ∧ other = Location.root.child { text := "k" } := by
  obtain ⟨target, hlink, before, text, rest, between, name, next, hnames, -, hname, rfl, hentry⟩ :=
    hneeds
  have hmem : text ∈ Path.names target := hnames ▸ List.mem_append_right _ List.mem_cons_self
  obtain rfl := Name.text_of_ofText? hname
  have hlast : name.text = "k" ∧ between.child name = Location.root.child { text := "k" } ∨
      name.text = "l" := by
    rcases linkedTree_link hentry with ⟨hplace, -⟩ | ⟨hplace, -⟩
    · exact Or.inl ⟨congrArg Name.text (Location.child_inj hplace).2, hplace⟩
    · exact Or.inr (congrArg Name.text (Location.child_inj hplace).2)
  rcases linkedTree_link hlink with ⟨-, rfl⟩ | ⟨hfirst, rfl⟩
  · rcases hlast with ⟨htext, -⟩ | htext <;> exact absurd (htext ▸ hmem) (by decide)
  · rcases hlast with ⟨-, hplace⟩ | htext
    · exact ⟨hfirst, hplace⟩
    · exact absurd (htext ▸ hmem) (by decide)

theorem isAcyclic_linkedTree : linkedTree.IsAcyclic where
  hasNull_target link target hentry := by
    rcases linkedTree_link hentry with ⟨-, rfl⟩ | ⟨-, rfl⟩ <;> decide
  not_needs_self link hcycle := by
    obtain ⟨next, hfirst, -⟩ := Relation.TransGen.head'_iff.mp hcycle
    obtain ⟨last, -, hlast⟩ := Relation.TransGen.tail'_iff.mp hcycle
    have hnames := (linkedTree_needs hfirst).1.symm.trans (linkedTree_needs hlast).2
    exact absurd hnames (by decide)

theorem resolved_path_is_read_alike_linked :
    let world : World := { tree := linkedTree }
    let start : Start := { machine := { limits := { links := 4, path := none } }, stamp := "TIME" }
    let path := "none/../l/./n"
    let ready := prepared start {} { world }
    (world.tree.IsAcyclic ∧ Path.hasNull path = false ∧ world.directory.lost = 0) ∧
    ∃ resolved : AbsolutePath,
      world.tree.resolve start.machine.limits world.directory path = .ok resolved ∧
      world.tree.resolve start.machine.limits world.directory resolved.text = .ok resolved ∧
      runWith start {} ["100-A", path] { world } =
        afterReading start "100-A" (some .text) resolved ready (textAt start {} path ready) := by
  intro world start path ready
  have hpath : Path.hasNull path = false := by decide
  have hasks : Asks {} ["100-A", path] "100-A" path (some .text) := ⟨by cbv, by decide, by decide⟩
  obtain ⟨hsetup, -, -, hdisk⟩ := (onTerminal_default linkedTree).setUpJournal start
  have hleads : world.toDisk.LeadsAlike ready.world.toDisk := by
    rw [hdisk]
    exact (Disk.grows_refl _).leadsAlike
  have hallow : start.machine.limits.Allow world.tree := ⟨rfl, by decide⟩
  have hinner : start.machine.inner.limits.Allow world.tree := ⟨rfl, by decide⟩
  obtain ⟨resolved, hresolve, hagain, -, hruns⟩ :=
    resolved_path_is_read_alike world path isAcyclic_linkedTree hpath (Or.inl rfl)
  obtain ⟨hrun, -⟩ := hruns start {} _ { world } _ _ rfl
    (fun ample hample => (hresolve _ hallow).trans (hresolve _ hample).symm)
    (fun ample hample => (hresolve _ hinner).trans (hresolve _ hample).symm) hasks hsetup
  exact ⟨⟨isAcyclic_linkedTree, hpath, rfl⟩, resolved, hresolve _ hallow, hagain _, hrun hleads⟩

end Command

end SqlReach
