import Mathlib.Data.List.Induction
import SqlReach.Command
import SqlReach.Proofs.Arguments.FormatChoice

/-!
# Words and format options in any order

Words and format options can follow one another in any order and number.  The start
paragraph and the file are taken from the first run of adjacent words, and an option ends
the run even when only one word of it has been taken: the file then stays empty, and a
word behind the option is left over.  This module says which lists of words and format
options are accepted, what is read from them, and which words are left over otherwise.
-/

namespace SqlReach.Arguments

/-- A word is no option, since it does not begin with a hyphen. -/
structure Word where
  text : String
  head?_ne : text.toList.head? ≠ some '-'

/-- A word or the choice of a format, which is made in two arguments or joined into one. -/
inductive Item where
  | word (taken : Word)
  | choice (joined : Bool) (format : Format)

namespace Item

def arguments : Item → List String
  | word taken => [taken.text]
  | choice false format => ["--format", format.name]
  | choice true format => ["--format=" ++ format.name]

def word? : Item → Option String
  | word taken => some taken.text
  | choice _ _ => none

def format? : Item → Option Format
  | word _ => none
  | choice _ format => some format

def isWord (item : Item) : Bool :=
  item.word?.isSome

/-- What the arguments of an item are read as, one by one. -/
def readings : Item → List Reading
  | word taken => [.word taken.text]
  | choice false format => [.format none, .word format.name]
  | choice true format => [.format (some format.name)]

end Item

def argumentsOf (items : List Item) : List String :=
  items.flatMap Item.arguments

def wordsOf (items : List Item) : List String :=
  items.filterMap Item.word?

def formatsOf (items : List Item) : List Format :=
  items.filterMap Item.format?

/-- No option stands between two words. -/
def Unbroken (items : List Item) : Prop :=
  ∀ before item after, items = before ++ item :: after → item.isWord = false →
    wordsOf before = [] ∨ wordsOf after = []

/-- The items from the first word on. -/
def fromFirstWord (items : List Item) : List Item :=
  items.dropWhile fun item => !item.isWord

/-- The first run of adjacent words. -/
def firstRun (items : List Item) : List String :=
  wordsOf ((fromFirstWord items).takeWhile Item.isWord)

def laterWords (items : List Item) : List String :=
  wordsOf ((fromFirstWord items).dropWhile Item.isWord)

/-- All words but the first two of the first run, or as many as there are of them. -/
def leftoverOf (items : List Item) : List String :=
  (firstRun items).drop 2 ++ laterWords items

variable {items : List Item} {taken : Word} {joined : Bool} {format : Format}

/-! ## Words in a row -/

theorem wordsOf_append (left right : List Item) :
    wordsOf (left ++ right) = wordsOf left ++ wordsOf right :=
  List.filterMap_append

theorem wordsOf_takeWhile_append_dropWhile (items : List Item) :
    wordsOf (items.takeWhile Item.isWord) ++ wordsOf (items.dropWhile Item.isWord) =
      wordsOf items := by
  rw [← wordsOf_append, List.takeWhile_append_dropWhile]

theorem wordsOf_fromFirstWord (items : List Item) :
    wordsOf (fromFirstWord items) = wordsOf items := by
  induction items with
  | nil => rfl
  | cons item items ih =>
      cases item with
      | word taken => rfl
      | choice joined format => exact ih

/-- The first run and the words behind it are all words. -/
theorem firstRun_append_laterWords (items : List Item) :
    firstRun items ++ laterWords items = wordsOf items := by
  rw [firstRun, laterWords, wordsOf_takeWhile_append_dropWhile, wordsOf_fromFirstWord]

theorem unbroken_cons_choice :
    Unbroken (.choice joined format :: items) ↔ Unbroken items := by
  constructor
  · rintro hunbroken before item after rfl hchoice
    exact hunbroken (.choice joined format :: before) item after rfl hchoice
  · intro hunbroken before item after hitems hchoice
    cases before with
    | nil => exact Or.inl rfl
    | cons first before =>
        obtain ⟨rfl, rfl⟩ := List.cons.inj hitems
        exact hunbroken before item after rfl hchoice

/-- Behind a first word, no word follows an option. -/
theorem unbroken_cons_word :
    Unbroken (.word taken :: items) ↔ wordsOf (items.dropWhile Item.isWord) = [] := by
  constructor
  · intro hunbroken
    cases hrest : items.dropWhile Item.isWord with
    | nil => rfl
    | cons item after =>
        -- The run ends at an option, which has the first word in front of it.
        have hchoice : item.isWord = false := by
          have hhead := List.head?_dropWhile_not Item.isWord items
          rw [hrest] at hhead
          exact hhead
        have hitems : Item.word taken :: items =
            (.word taken :: items.takeWhile Item.isWord) ++ item :: after := by
          rw [List.cons_append, ← hrest, List.takeWhile_append_dropWhile]
        rcases hunbroken _ item after hitems hchoice with hbefore | hafter
        · cases hbefore
        · cases item with
          | word other => cases hchoice
          | choice joined format => exact hafter
  · intro hnone before item after hitems hchoice
    cases before with
    | nil =>
        obtain ⟨rfl, -⟩ := List.cons.inj hitems
        cases hchoice
    | cons first before =>
        rw [List.cons_append] at hitems
        obtain ⟨-, rfl⟩ := List.cons.inj hitems
        right
        cases item with
        | word other => cases hchoice
        | choice joined format =>
            rw [List.dropWhile_append] at hnone
            split at hnone
            · exact hnone
            · rw [wordsOf_append, List.append_eq_nil_iff] at hnone
              exact hnone.2

theorem unbroken_iff (items : List Item) : Unbroken items ↔ laterWords items = [] := by
  induction items with
  | nil =>
      refine iff_of_true (fun before item after hitems => ?_) rfl
      cases before <;> cases hitems
  | cons item items ih =>
      cases item with
      | word taken => exact unbroken_cons_word
      | choice joined format => exact unbroken_cons_choice.trans ih

theorem firstRun_of_unbroken (hunbroken : Unbroken items) : firstRun items = wordsOf items := by
  rw [← firstRun_append_laterWords, (unbroken_iff items).mp hunbroken, List.append_nil]

instance (items : List Item) : Decidable (Unbroken items) :=
  decidable_of_iff _ (unbroken_iff items).symm

/-- Nothing is left over if and only if there are at most two words and no option stands
between them. -/
theorem leftoverOf_eq_nil_iff (items : List Item) :
    leftoverOf items = [] ↔ (wordsOf items).length ≤ 2 ∧ Unbroken items := by
  rw [leftoverOf, List.append_eq_nil_iff, List.drop_eq_nil_iff, unbroken_iff,
    ← firstRun_append_laterWords]
  constructor
  · rintro ⟨hlength, hlater⟩
    rw [hlater, List.append_nil]
    exact ⟨hlength, rfl⟩
  · rintro ⟨hlength, hlater⟩
    rw [hlater, List.append_nil] at hlength
    exact ⟨hlength, hlater⟩

/-! ## Reading the arguments -/

theorem readArgument_word (taken : Word) :
    readArgument taken.text = .ok (.word taken.text) := by
  have hhead := taken.head?_ne
  unfold readArgument
  split <;> simp_all

theorem readArgument_option : readArgument "--format" = .ok (.format none) := rfl

theorem readArgument_joined (format : Format) :
    readArgument ("--format=" ++ format.name) = .ok (.format (some format.name)) := by
  cases format <;> rfl

theorem readAll_argumentsOf (items : List Item) :
    readAll (argumentsOf items) = .ok (items.flatMap Item.readings) := by
  induction items with
  | nil => rfl
  | cons item items ih =>
      rw [argumentsOf, List.flatMap_cons, List.flatMap_cons, ← argumentsOf]
      cases item with
      | word taken =>
          rw [Item.arguments, List.singleton_append,
            readAll_cons (readArgument_word taken) (by simp), ih]
          rfl
      | choice joined format =>
          cases joined with
          | false =>
              rw [Item.arguments, List.cons_append, List.singleton_append,
                readAll_cons readArgument_option (by simp),
                readAll_cons (readArgument_name format) (by simp), ih]
              rfl
          | true =>
              rw [Item.arguments, List.singleton_append,
                readAll_cons (readArgument_joined format) (by simp), ih]
              rfl

/-! ## Taking the items one by one -/

namespace State

def takeItem (state : State) : Item → State
  | .word taken => state.takeWord taken.text
  | .choice _ format => { state.interrupt with format := some format }

/-- What has been taken from the words: the start paragraph, the file, and the words that
are left over, the latest first. -/
structure Holds (state : State) (start file : Option String) (leftover : List String) :
    Prop where
  start_eq : state.start = start
  file_eq : state.file = file
  leftover_eq : state.leftover = leftover

/-- An option ends the run of words. -/
theorem takeItem_choice {state : State} (hstage : state.stage ≠ .first) (joined : Bool)
    (format : Format) :
    state.takeItem (.choice joined format) =
      { state with stage := .done false, format := some format } := by
  rw [takeItem, interrupt]
  split
  · rename_i hfirst
    exact absurd hfirst hstage
  · rfl

/-- Once the run of words has ended, further words are left over. -/
theorem holds_of_done (state : State) {afterSecond : Bool}
    (hstage : state.stage = .done afterSecond) (items : List Item) :
    (items.foldl takeItem state).Holds state.start state.file
      ((wordsOf items).reverse ++ state.leftover) := by
  induction items generalizing state afterSecond with
  | nil => exact ⟨rfl, rfl, rfl⟩
  | cons item items ih =>
      rw [List.foldl_cons]
      cases item with
      | word taken =>
          have htake : state.takeItem (.word taken) =
              { state with stage := .done false, leftover := taken.text :: state.leftover } := by
            rw [takeItem, takeWord, hstage]
            rfl
          have hwords : (wordsOf (.word taken :: items)).reverse ++ state.leftover =
              (wordsOf items).reverse ++ taken.text :: state.leftover := by
            rw [List.append_cons, ← List.reverse_cons]
            rfl
          rw [htake, hwords]
          exact ih _ rfl
      | choice joined format =>
          rw [takeItem_choice (by simp [hstage])]
          exact ih _ rfl

/-- With one word taken, the file is the word that follows at once. -/
theorem holds_of_second (state : State) (hstage : state.stage = .second)
    (hfile : state.file = none) (hleftover : state.leftover = []) (items : List Item) :
    (items.foldl takeItem state).Holds state.start
      (wordsOf (items.takeWhile Item.isWord))[0]?
      ((wordsOf (items.takeWhile Item.isWord)).drop 1 ++
        wordsOf (items.dropWhile Item.isWord)).reverse := by
  cases items with
  | nil => exact ⟨rfl, hfile, hleftover⟩
  | cons item items =>
      rw [List.foldl_cons]
      cases item with
      | word taken =>
          have hword : taken.text ≠ "--" := by
            intro hdivider
            exact taken.head?_ne (by rw [hdivider]; rfl)
          have htake : state.takeItem (.word taken) =
              { state with stage := .done true, file := some taken.text } := by
            rw [takeItem, takeWord, hstage]
            simp only [if_neg hword]
          rw [htake]
          have hrest := holds_of_done
            { state with stage := .done true, file := some taken.text } rfl items
          refine ⟨hrest.start_eq, hrest.file_eq, hrest.leftover_eq.trans ?_⟩
          rw [hleftover, List.append_nil, ← wordsOf_takeWhile_append_dropWhile]
          rfl
      | choice joined format =>
          rw [takeItem_choice (by simp [hstage])]
          have hrest := holds_of_done
            { state with stage := .done false, format := some format } rfl items
          refine ⟨hrest.start_eq, hrest.file_eq.trans hfile, hrest.leftover_eq.trans ?_⟩
          rw [hleftover, List.append_nil]
          rfl

/-- From the beginning, both are taken from the first run of words. -/
theorem holds_of_first (format : Option Format) (items : List Item) :
    (items.foldl takeItem { format }).Holds (firstRun items)[0]? (firstRun items)[1]?
      (leftoverOf items).reverse := by
  induction items generalizing format with
  | nil => exact ⟨rfl, rfl, rfl⟩
  | cons item items ih =>
      rw [List.foldl_cons]
      cases item with
      | word taken =>
          exact holds_of_second { format, stage := .second, start := some taken.text }
            rfl rfl rfl items
      | choice joined chosen =>
          -- No run has begun yet, so the option ends none.
          exact ih (some chosen)

theorem format_takeItem (state : State) (item : Item) :
    (state.takeItem item).format = item.format?.or state.format := by
  cases item with
  | word taken =>
      rw [takeItem, takeWord]
      split <;> rfl
  | choice joined format => rfl

/-- The last choice of a format counts. -/
theorem format_foldl_takeItem (state : State) (items : List Item) :
    (items.foldl takeItem state).format = (formatsOf items).getLast?.or state.format := by
  induction items using List.reverseRecOn with
  | nil => rfl
  | append_singleton items item ih =>
      have hformats : formatsOf (items ++ [item]) = formatsOf items ++ formatsOf [item] :=
        List.filterMap_append
      rw [List.foldl_append, List.foldl_cons, List.foldl_nil, format_takeItem, ih, hformats]
      cases item with
      | word taken => simp [Item.format?, formatsOf]
      | choice joined format => simp [Item.format?, formatsOf]

end State

theorem consume_readings (state : State) (items : List Item) :
    consume state (items.flatMap Item.readings) = (items.foldl State.takeItem state).finish := by
  induction items generalizing state with
  | nil => rfl
  | cons item items ih =>
      rw [List.flatMap_cons, List.foldl_cons, ← ih]
      cases item with
      | word taken => rfl
      | choice joined format =>
          cases joined <;>
            simp only [Item.readings, List.cons_append, List.nil_append, consume,
              takeFormat_name, State.takeItem]

/-- What is read from words and format options, or else which words are left over. -/
theorem parse_argumentsOf (format : Format) (items : List Item) :
    parse format (argumentsOf items) =
      if leftoverOf items = [] then
        .ok (.analysis (firstRun items)[0]? (firstRun items)[1]?
          (some ((formatsOf items).getLast?.getD format)))
      else .error (.unrecognized (leftoverOf items)) := by
  have hholds := State.holds_of_first (some format) items
  have hformat := State.format_foldl_takeItem { format := some format } items
  rw [parse, readAll_argumentsOf]
  simp only
  rw [consume_readings, State.finish, hholds.start_eq, hholds.file_eq, hholds.leftover_eq,
    hformat, List.reverse_reverse, Option.or_some]
  simp only [List.reverse_eq_nil_iff]

theorem refusalText_unrecognized (leftover : List String) :
    refusalText (.unrecognized leftover) =
      "usage: " ++ usage ++ "\nperformscan: error: unrecognized arguments: " ++
        " ".intercalate leftover ++ "\n" := by
  have htext : "\nperformscan: error: unrecognized arguments: " =
      "\nperformscan: error: " ++ "unrecognized arguments: " := rfl
  have hmessage : (Refusal.unrecognized leftover).message =
      "unrecognized arguments: " ++ " ".intercalate leftover := rfl
  simp only [refusalText, hmessage, htext, String.append_assoc]

/-- A list of words and format options in any order is accepted if and only if there are
at most two words and no option stands between them.  The words are then the start
paragraph and the file, as far as there are any, and the last option chooses the format.
Otherwise the run ends with status one, after the usage and the words that are left over
have been printed: the world is as it was, so that no journal has been set up, and nothing
depends on its files. -/
theorem parse_words_and_formats (items : List Item) (start : Command.Start)
    (settings : Settings) (session : Session) :
    let accepted := (wordsOf items).length ≤ 2 ∧ Unbroken items
    ((∃ request, parse settings.outputFormat (argumentsOf items) = .ok request) ↔ accepted) ∧
    (accepted →
      parse settings.outputFormat (argumentsOf items) =
        .ok (.analysis (wordsOf items)[0]? (wordsOf items)[1]?
          (some ((formatsOf items).getLast?.getD settings.outputFormat)))) ∧
    (¬ accepted →
      Command.runWith start settings (argumentsOf items) session =
        ⟨.exit 1, { session with
          err := session.err ++ ("usage: " ++ usage ++
            "\nperformscan: error: unrecognized arguments: " ++
              " ".intercalate (leftoverOf items) ++ "\n") }⟩) := by
  intro accepted
  have hparse := parse_argumentsOf settings.outputFormat items
  have haccepted : leftoverOf items = [] ↔ accepted := leftoverOf_eq_nil_iff items
  refine ⟨⟨?_, ?_⟩, ?_, ?_⟩
  · rintro ⟨request, hrequest⟩
    by_contra hrefused
    rw [hparse, if_neg (mt haccepted.mp hrefused)] at hrequest
    cases hrequest
  · intro hwords
    rw [hparse, if_pos (haccepted.mpr hwords)]
    exact ⟨_, rfl⟩
  · intro hwords
    rw [hparse, if_pos (haccepted.mpr hwords), firstRun_of_unbroken hwords.2]
  · intro hrefused
    rw [if_neg (mt haccepted.mp hrefused)] at hparse
    rw [Command.runWith, hparse]
    simp only [refusalText_unrecognized]

/-- With options around the words, both words are taken, and the last option counts; with
an option between them, the second word is left over, and an empty one behind it. -/
theorem parse_words_and_formats_around_and_between :
    let session : Session := { world := { tree := {}, directory := .root } }
    parse .mermaid ["--format=json", "100-A", "m.cbl", "--format", "text"] =
      .ok (.analysis (some "100-A") (some "m.cbl") (some .text)) ∧
    Command.runWith { stamp := "" } {}
        ["100-A", "--format", "json", "m.cbl", "--format=text", ""] session =
      ⟨.exit 1, { session with
        err := "usage: " ++ usage ++
          "\nperformscan: error: unrecognized arguments: " ++ "m.cbl " ++ "\n" }⟩ := by
  intro session
  let paragraph : Word := ⟨"100-A", by decide⟩
  let file : Word := ⟨"m.cbl", by decide⟩
  let empty : Word := ⟨"", by decide⟩
  have haround := (parse_words_and_formats
    [.choice true .json, .word paragraph, .word file, .choice false .text]
    { stamp := "" } { outputFormat := .mermaid } session).2.1
  have hbetween := (parse_words_and_formats
    [.word paragraph, .choice false .json, .word file, .choice true .text, .word empty]
    { stamp := "" } {} session).2.2
  exact ⟨haround (by decide), hbetween (by decide)⟩

end SqlReach.Arguments
