import SqlReach.Arguments

/-!
# The choice of a format

The value of a format option decides nothing but the format: two lists of arguments
that differ only in the formats they choose are refused alike, ask for help alike,
or ask for the analysis of the same paragraph in the same file.
-/

namespace SqlReach.Arguments

/-- Two answers that differ at most in the format asked for. -/
inductive SameButFormat : Except Refusal Request → Except Refusal Request → Prop
  | refused (refusal : Refusal) : SameButFormat (.error refusal) (.error refusal)
  | help : SameButFormat (.ok .help) (.ok .help)
  | analysis (start file : Option String) {first second : Option Format}
      (hformat : first.isSome = second.isSome) :
      SameButFormat (.ok (.analysis start file first)) (.ok (.analysis start file second))

/-- `DifferInFormat left right` says that the two lists of arguments are the same but
for the values of format options, all of which are names of formats.  Behind a double
hyphen there are no options, so the lists are the same there. -/
inductive DifferInFormat : List String → List String → Prop
  | same (arguments : List String) : DifferInFormat arguments arguments
  | keep {argument : String} {left right : List String} (hdivider : argument ≠ "--")
      (hrest : DifferInFormat left right) :
      DifferInFormat (argument :: left) (argument :: right)
  | joined {first second : String} {left right : List String} (chosen other : Format)
      (hfirst : readArgument first = .ok (.format (some chosen.name)))
      (hsecond : readArgument second = .ok (.format (some other.name)))
      (hrest : DifferInFormat left right) :
      DifferInFormat (first :: left) (second :: right)
  | apart {option : String} {left right : List String} (chosen other : Format)
      (hoption : readArgument option = .ok (.format none)) (hrest : DifferInFormat left right) :
      DifferInFormat (option :: chosen.name :: left) (option :: other.name :: right)

/-- The same for arguments that have been read one by one. -/
inductive ReadingsDiffer : List Reading → List Reading → Prop
  | same (readings : List Reading) : ReadingsDiffer readings readings
  | keep (reading : Reading) {left right : List Reading} (hrest : ReadingsDiffer left right) :
      ReadingsDiffer (reading :: left) (reading :: right)
  | joined (chosen other : Format) {left right : List Reading}
      (hrest : ReadingsDiffer left right) :
      ReadingsDiffer (.format (some chosen.name) :: left) (.format (some other.name) :: right)
  | apart (chosen other : Format) {left right : List Reading}
      (hrest : ReadingsDiffer left right) :
      ReadingsDiffer (.format none :: .word chosen.name :: left)
        (.format none :: .word other.name :: right)

theorem sameButFormat_refl (answer : Except Refusal Request) : SameButFormat answer answer := by
  cases answer with
  | error refusal => exact .refused refusal
  | ok request =>
      cases request with
      | help => exact .help
      | analysis start file format => exact .analysis start file rfl

/-! ## Reading the arguments one by one -/

theorem unnamed_ne_divider (argument : List Char) : unnamed argument ≠ .divider := by
  unfold unnamed
  split <;> simp

theorem readLong_ne_divider (argument : List Char) : readLong argument ≠ .ok .divider := by
  simp only [readLong]
  split
  · simp
  · simp
  · simp
  · simpa using unnamed_ne_divider argument

theorem eq_of_readArgument_divider {argument : String}
    (hread : readArgument argument = .ok .divider) : argument = "--" := by
  unfold readArgument at hread
  split at hread
  · rename_i htoList
    exact String.toList_inj.mp htoList
  · exact absurd hread (readLong_ne_divider _)
  · cases hread
  · exact absurd (Except.ok.inj hread) (unnamed_ne_divider _)
  · cases hread

theorem readArgument_name (format : Format) :
    readArgument format.name = .ok (.word format.name) := by
  cases format <;> rfl

theorem readAll_cons {argument : String} {reading : Reading}
    (hread : readArgument argument = .ok reading) (hdivider : reading ≠ .divider)
    (arguments : List String) :
    readAll (argument :: arguments) = (readAll arguments).map (reading :: ·) := by
  rw [readAll, hread]
  cases reading with
  | divider => exact absurd rfl hdivider
  | word text => cases readAll arguments <;> rfl
  | help value => cases readAll arguments <;> rfl
  | format value => cases readAll arguments <;> rfl
  | unknown text => cases readAll arguments <;> rfl

theorem readAll_cons_of_error {argument : String} {refusal : Refusal}
    (hread : readArgument argument = .error refusal) (arguments : List String) :
    readAll (argument :: arguments) = .error refusal := by
  rw [readAll, hread]
  rfl

theorem map_word_format (answer : Except Refusal (List Reading)) (value : String) :
    (answer.map (.word value :: ·)).map (.format none :: ·) =
      answer.map (.format none :: .word value :: ·) := by
  cases answer <;> rfl

/-- Two lists of arguments are refused alike, or their readings differ in formats. -/
inductive ReadAlike : Except Refusal (List Reading) → Except Refusal (List Reading) → Prop
  | refused (refusal : Refusal) : ReadAlike (.error refusal) (.error refusal)
  | read {before after : List Reading} (hreadings : ReadingsDiffer before after) :
      ReadAlike (.ok before) (.ok after)

/-- What holds behind the first arguments holds together with them. -/
theorem ReadAlike.map {left right : Except Refusal (List Reading)}
    (halike : ReadAlike left right) {more other : List Reading → List Reading}
    (hmore : ∀ before after, ReadingsDiffer before after →
      ReadingsDiffer (more before) (other after)) :
    ReadAlike (left.map more) (right.map other) := by
  cases halike with
  | refused refusal => exact .refused refusal
  | read hreadings => exact .read (hmore _ _ hreadings)

theorem readAlike_refl (answer : Except Refusal (List Reading)) : ReadAlike answer answer := by
  cases answer with
  | error refusal => exact .refused refusal
  | ok readings => exact .read (.same readings)

theorem readAlike_of_differ {left right : List String} (hdiffer : DifferInFormat left right) :
    ReadAlike (readAll left) (readAll right) := by
  induction hdiffer with
  | same arguments => exact readAlike_refl _
  | keep hdivider hrest ih =>
      rename_i argument left right
      cases hread : readArgument argument with
      | error refusal =>
          rw [readAll_cons_of_error hread, readAll_cons_of_error hread]
          exact readAlike_refl _
      | ok reading =>
          have hreading : reading ≠ .divider := by
            rintro rfl
            exact hdivider (eq_of_readArgument_divider hread)
          rw [readAll_cons hread hreading, readAll_cons hread hreading]
          exact ih.map fun before after => .keep reading
  | joined chosen other hfirst hsecond hrest ih =>
      rw [readAll_cons hfirst (by simp), readAll_cons hsecond (by simp)]
      exact ih.map fun before after => .joined chosen other
  | apart chosen other hoption hrest ih =>
      rw [readAll_cons hoption (by simp), readAll_cons hoption (by simp),
        readAll_cons (readArgument_name chosen) (by simp),
        readAll_cons (readArgument_name other) (by simp), map_word_format, map_word_format]
      exact ih.map fun before after => .apart chosen other

/-! ## Going through the readings -/

section Commute

variable (state : State) (format : Option Format)

/-- No step but a format option looks at the format. -/
theorem takeWord_format (word : String) :
    ({ state with format } : State).takeWord word = { state.takeWord word with format } := by
  unfold State.takeWord
  split <;> simp_all [State.leave]

theorem takeDivider_format :
    ({ state with format } : State).takeDivider = { state.takeDivider with format } := by
  unfold State.takeDivider
  split <;> simp_all [State.leave]

theorem interrupt_format :
    ({ state with format } : State).interrupt = { state.interrupt with format } := by
  unfold State.interrupt
  split <;> simp_all

theorem takeFormat_format (value : String) :
    takeFormat { state with format } value = takeFormat state value := by
  simp only [takeFormat, interrupt_format]

end Commute

theorem takeFormat_name (state : State) (format : Format) :
    takeFormat state format.name = .ok { state.interrupt with format := some format } := by
  cases format <;> rfl

/-- A format option without a word behind it is refused. -/
theorem consume_missingFormat {state : State} {rest : List Reading}
    (hword : ¬ ∃ value later, rest = .word value :: later) :
    consume state (.format none :: rest) = .error .missingFormat := by
  cases rest with
  | nil => rfl
  | cons next later =>
      cases next with
      | word value => exact absurd ⟨value, later, rfl⟩ hword
      | divider => rfl
      | help value => rfl
      | format value => rfl
      | unknown text => rfl

/-- Going through the same readings from two states that differ in the format. -/
theorem consume_format (state : State) {first second : Option Format}
    (hformat : first.isSome = second.isSome) (readings : List Reading) :
    SameButFormat (consume { state with format := first } readings)
      (consume { state with format := second } readings) := by
  induction readings generalizing state with
  | nil =>
      simp only [consume, State.finish]
      split
      · exact .analysis state.start state.file hformat
      · exact .refused _
  | cons reading rest ih =>
      cases reading with
      | word text =>
          simp only [consume, takeWord_format]
          exact ih (state.takeWord text)
      | divider =>
          simp only [consume, takeDivider_format]
          exact ih state.takeDivider
      | help value =>
          cases value with
          | none => exact .help
          | some value => exact .refused (.ignoredValue value)
      | unknown text =>
          simp only [consume, interrupt_format]
          exact ih (state.interrupt.leave text)
      | format value =>
          cases value with
          | some value =>
              simp only [consume, takeFormat_format]
              exact sameButFormat_refl _
          | none =>
              by_cases hword : ∃ value later, rest = .word value :: later
              · obtain ⟨value, later, rfl⟩ := hword
                simp only [consume, takeFormat_format]
                exact sameButFormat_refl _
              · rw [consume_missingFormat hword, consume_missingFormat hword]
                exact .refused .missingFormat

theorem consume_differ {left right : List Reading} (hdiffer : ReadingsDiffer left right)
    (state : State) {first second : Option Format} (hformat : first.isSome = second.isSome) :
    SameButFormat (consume { state with format := first } left)
      (consume { state with format := second } right) := by
  cases hdiffer with
  | same => exact consume_format state hformat left
  | joined chosen other hrest =>
      simp only [consume, takeFormat_name, interrupt_format]
      exact consume_differ hrest state.interrupt rfl
  | apart chosen other hrest =>
      simp only [consume, takeFormat_name, interrupt_format]
      exact consume_differ hrest state.interrupt rfl
  | keep reading hrest =>
      cases reading with
      | word text =>
          simp only [consume, takeWord_format]
          exact consume_differ hrest (state.takeWord text) hformat
      | divider =>
          simp only [consume, takeDivider_format]
          exact consume_differ hrest state.takeDivider hformat
      | help value =>
          cases value with
          | none => exact .help
          | some value => exact .refused (.ignoredValue value)
      | unknown text =>
          simp only [consume, interrupt_format]
          exact consume_differ hrest (state.interrupt.leave text) hformat
      | format value =>
          cases value with
          | some value =>
              simp only [consume, takeFormat_format]
              cases htake : takeFormat state value with
              | error refusal => exact .refused refusal
              | ok taken => exact consume_differ hrest taken rfl
          | none =>
              -- The option takes the next reading, so the two lists are compared behind it.
              cases hrest with
              | same => exact consume_format state hformat _
              | joined chosen other hrest => exact .refused .missingFormat
              | apart chosen other hrest => exact .refused .missingFormat
              | keep next hrest =>
                  by_cases hword : ∃ value, next = .word value
                  · obtain ⟨value, rfl⟩ := hword
                    simp only [consume, takeFormat_format]
                    cases htake : takeFormat state value with
                    | error refusal => exact .refused refusal
                    | ok taken => exact consume_differ hrest taken rfl
                  · rw [consume_missingFormat (by simpa using hword),
                      consume_missingFormat (by simpa using hword)]
                    exact .refused .missingFormat

/-- Arguments that differ in the formats they choose ask for the same, whatever the
format is where none is chosen. -/
theorem parse_differ {left right : List String} (hdiffer : DifferInFormat left right)
    (first second : Format) : SameButFormat (parse first left) (parse second right) := by
  have halike := readAlike_of_differ hdiffer
  unfold parse
  generalize readAll left = before, readAll right = after at halike ⊢
  cases halike with
  | refused refusal => exact .refused refusal
  | read hreadings => exact consume_differ hreadings { format := none } rfl

end SqlReach.Arguments
