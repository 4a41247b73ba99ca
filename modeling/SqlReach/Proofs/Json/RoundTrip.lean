import SqlReach.Proofs.Json.Numbers
import SqlReach.Proofs.Json.Strings

/-!
# Reading indented JSON

A value that is written on many lines is read back unchanged, whatever its depth:
its members keep their order, its strings keep every character, and the blanks
between its parts do not matter.  The only values left out are those with a number
that has a fraction, because such a number has many texts.

The reader carries a bound on its steps.  Each step reads at least one character,
so the length of a text is always enough to read it.
-/

namespace SqlReach.Json

open SqlReach.Text

mutual

/-- No number with a fraction or an exponent occurs in the value. -/
def IsIntegral : Json → Prop
  | decimal _ _ _ => False
  | array items => AreIntegral items
  | object members => MembersAreIntegral members
  | _ => True

def AreIntegral : List Json → Prop
  | [] => True
  | item :: items => IsIntegral item ∧ AreIntegral items

def MembersAreIntegral : List (String × Json) → Prop
  | [] => True
  | (_, value) :: members => IsIntegral value ∧ MembersAreIntegral members

end

/-! ## Blanks -/

theorem skipBlanks_cons {char : Char} (hchar : isInsignificant char = false) (rest : List Char) :
    skipBlanks (char :: rest) = char :: rest := by
  simp [skipBlanks, hchar]

theorem skipBlanks_space (rest : List Char) : skipBlanks (' ' :: rest) = skipBlanks rest := rfl

theorem toList_newline (column : Nat) :
    (newline column).toList = '\n' :: List.replicate column ' ' := by
  simp [newline]

theorem length_newline (column : Nat) : (newline column).toList.length = column + 1 := by
  simp [toList_newline]

theorem skipBlanks_newline (column : Nat) (rest : List Char) :
    skipBlanks ((newline column).toList ++ rest) = skipBlanks rest := by
  rw [toList_newline, skipBlanks, List.dropWhile_append_of_pos, skipBlanks]
  intro char hchar
  rw [List.mem_cons, List.mem_replicate] at hchar
  rcases hchar with rfl | ⟨-, rfl⟩ <;> rfl

/-- Blanks in front of a value are skipped. -/
theorem value?_congr {text other : List Char} (hskip : skipBlanks text = skipBlanks other)
    (fuel : Nat) : value? fuel text = value? fuel other := by
  cases fuel with
  | zero => rfl
  | succ fuel => rw [value?, value?, hskip]

theorem key?_congr {text other : List Char} (hskip : skipBlanks text = skipBlanks other) :
    key? text = key? other := by
  rw [key?, key?, hskip]

/-! ## Scalars -/

theorem plainAscii_printable (char : Char) (hplain : plainAscii char = true) :
    0x20 ≤ char.toNat := by
  simp only [plainAscii, Bool.and_eq_true, decide_eq_true_eq] at hplain
  exact hplain.1

theorem value?_quote (fuel : Nat) (text : String) (rest : List Char) :
    value? (fuel + 1) ((quote plainAscii text).toList ++ rest) = some (string text, rest) := by
  obtain ⟨escaped, hquote, hread⟩ := stringBody?_quote plainAscii_printable text rest
  rw [hquote, value?, skipBlanks_cons rfl]
  simp [hread]

theorem key?_quote (key : String) (rest : List Char) :
    key? ((quote plainAscii key).toList ++ ':' :: rest) = some (key, rest) := by
  obtain ⟨escaped, hquote, hread⟩ := stringBody?_quote plainAscii_printable key (':' :: rest)
  have hcolon : skipBlanks (':' :: rest) = ':' :: rest := skipBlanks_cons rfl rest
  rw [hquote, key?, skipBlanks_cons rfl]
  simp [hread, hcolon]

theorem keyword?_append (word : String) (value : Json) (rest : List Char) :
    keyword? word value (word.toList ++ rest) = some (value, rest) := by
  rw [keyword?, if_pos (by simp), ← String.length_toList, List.drop_left]

theorem value?_null (fuel : Nat) (rest : List Char) :
    value? (fuel + 1) ("null".toList ++ rest) = some (null, rest) := by
  have hread := keyword?_append "null" null rest
  simpa [value?, skipBlanks, isInsignificant] using hread

theorem value?_boolText (fuel : Nat) (value : Bool) (rest : List Char) :
    value? (fuel + 1) ((boolText value).toList ++ rest) = some (bool value, rest) := by
  cases value with
  | false =>
      have hread := keyword?_append "false" (bool false) rest
      simpa [boolText, value?, skipBlanks, isInsignificant] using hread
  | true =>
      have hread := keyword?_append "true" (bool true) rest
      simpa [boolText, value?, skipBlanks, isInsignificant] using hread

/-- What begins a number begins nothing else and is not blank. -/
theorem ne_of_begins_number {first : Char} (hfirst : first = '-' ∨ first.isDigit = true) :
    ∀ char ∈ ['"', '[', ']', '\x7b', 'n', 't', 'f', ' ', '\n', '\r', '\t'], first ≠ char := by
  have hothers : ∀ char ∈ ['"', '[', ']', '\x7b', 'n', 't', 'f', ' ', '\n', '\r', '\t'],
      ¬(char = '-' ∨ char.isDigit = true) := by
    simp
  rintro char hchar rfl
  exact hothers first hchar hfirst

theorem value?_number {first : Char} (hfirst : first = '-' ∨ first.isDigit = true) (fuel : Nat)
    (text : List Char) : value? (fuel + 1) (first :: text) = number? (first :: text) := by
  have hother := ne_of_begins_number hfirst
  simp only [List.forall_mem_cons] at hother
  rw [value?, skipBlanks_cons (by simp [isInsignificant, hother])]
  split <;> simp_all

theorem value?_toString (fuel : Nat) (value : Int) {rest : List Char} (hends : EndsNumber rest) :
    value? (fuel + 1) ((toString value).toList ++ rest) = some (integer value, rest) := by
  obtain ⟨first, later, htext, hfirst⟩ := exists_toString_eq_cons value
  rw [htext, List.cons_append, value?_number hfirst, ← List.cons_append, ← htext,
    number?_toString value hends]

/-! ## Arrays, objects and what is in them -/

theorem toList_prettyAt_array (column : Nat) (item : Json) (items : List Json) :
    (prettyAt column (array (item :: items))).toList =
      '[' :: ((newline (column + 2)).toList ++ ((prettyAt (column + 2) item).toList ++
        ((prettyItems (column + 2) items).toList ++ ((newline column).toList ++ [']'])))) := by
  simp [prettyAt]

theorem toList_prettyAt_object (column : Nat) (key : String) (value : Json)
    (members : List (String × Json)) :
    (prettyAt column (object ((key, value) :: members))).toList =
      '\x7b' :: ((newline (column + 2)).toList ++ ((quote plainAscii key).toList ++
        ':' :: ' ' :: ((prettyAt (column + 2) value).toList ++
          ((prettyMembers (column + 2) members).toList ++
            ((newline column).toList ++ ['\x7d']))))) := by
  simp [prettyAt]

theorem toList_prettyItems_cons (column : Nat) (item : Json) (items : List Json) :
    (prettyItems column (item :: items)).toList =
      ',' :: ((newline column).toList ++ ((prettyAt column item).toList ++
        (prettyItems column items).toList)) := by
  simp [prettyItems]

theorem toList_prettyMembers_cons (column : Nat) (key : String) (value : Json)
    (members : List (String × Json)) :
    (prettyMembers column ((key, value) :: members)).toList =
      ',' :: ((newline column).toList ++ ((quote plainAscii key).toList ++
        ':' :: ' ' :: ((prettyAt column value).toList ++
          (prettyMembers column members).toList))) := by
  simp [prettyMembers]

/-- A written value begins with a character that neither is blank nor closes an array. -/
theorem exists_prettyAt_eq_cons {value : Json} (hvalue : value.IsIntegral) (column : Nat) :
    ∃ first later, (prettyAt column value).toList = first :: later ∧
      isInsignificant first = false ∧ first ≠ ']' := by
  cases value with
  | null => exact ⟨'n', "ull".toList, by simp [prettyAt], rfl, by decide⟩
  | bool value =>
      cases value with
      | false => exact ⟨'f', "alse".toList, by simp [prettyAt, boolText], rfl, by decide⟩
      | true => exact ⟨'t', "rue".toList, by simp [prettyAt, boolText], rfl, by decide⟩
  | integer value =>
      obtain ⟨first, later, htext, hfirst⟩ := exists_toString_eq_cons value
      have hother := ne_of_begins_number hfirst
      simp only [List.forall_mem_cons] at hother
      exact ⟨first, later, by rw [prettyAt, htext], by simp [isInsignificant, hother], hother.2.2.1⟩
  | decimal negative mantissa exponent => exact hvalue.elim
  | string value =>
      obtain ⟨escaped, hquote, -⟩ := stringBody?_quote plainAscii_printable value []
      rw [List.append_nil] at hquote
      exact ⟨'"', escaped, by rw [prettyAt, hquote], rfl, by decide⟩
  | array items =>
      cases items with
      | nil => exact ⟨'[', [']'], by simp [prettyAt], rfl, by decide⟩
      | cons item items => exact ⟨'[', _, toList_prettyAt_array column item items, rfl, by decide⟩
  | object members =>
      cases members with
      | nil => exact ⟨'\x7b', ['\x7d'], by simp [prettyAt], rfl, by decide⟩
      | cons member members =>
          exact ⟨'\x7b', _, toList_prettyAt_object column member.1 member.2 members, rfl,
            by decide⟩

/-- A list that goes on with a comma, or else with the line break before its closing
bracket, ends a number that stands in it. -/
theorem endsNumber_separator {others : List Char} (hcomma : ∀ char ∈ others.head?, char = ',')
    (outer : Nat) (rest : List Char) :
    EndsNumber (others ++ ((newline outer).toList ++ rest)) := by
  cases others with
  | nil =>
      rw [toList_newline]
      exact endsNumber_cons rfl (by decide) (by decide) (by decide) _
  | cons char later =>
      obtain rfl : char = ',' := hcomma char rfl
      exact endsNumber_cons rfl (by decide) (by decide) (by decide) _

theorem endsNumber_prettyItems (column outer : Nat) (items : List Json) (rest : List Char) :
    EndsNumber ((prettyItems column items).toList ++ ((newline outer).toList ++ rest)) := by
  apply endsNumber_separator
  cases items <;> simp [prettyItems]

theorem endsNumber_prettyMembers (column outer : Nat) (members : List (String × Json))
    (rest : List Char) :
    EndsNumber ((prettyMembers column members).toList ++ ((newline outer).toList ++ rest)) := by
  apply endsNumber_separator
  cases members <;> simp [prettyMembers]

theorem length_prettyAt_pos {value : Json} (hvalue : value.IsIntegral) (column : Nat) :
    0 < (prettyAt column value).toList.length := by
  obtain ⟨first, later, htext, -, -⟩ := exists_prettyAt_eq_cons hvalue column
  rw [htext]
  exact Nat.succ_pos _

/-- The opening bracket of an array that is not empty hands over to its items. -/
theorem value?_bracket {value : Json} (hvalue : value.IsIntegral) (column inner fuel : Nat)
    (rest : List Char) :
    value? (fuel + 1) ('[' :: ((newline inner).toList ++
        ((prettyAt column value).toList ++ rest))) =
      items? fuel ((prettyAt column value).toList ++ rest) [] := by
  obtain ⟨first, later, htext, hblank, hclose⟩ := exists_prettyAt_eq_cons hvalue column
  rw [value?, skipBlanks_cons rfl]
  simp only [skipBlanks_newline, htext, List.cons_append, skipBlanks_cons hblank]
  split
  · rename_i heq
    exact absurd (List.cons.inj heq).1 hclose
  · rfl

/-- The opening brace of an object that is not empty hands over to its members. -/
theorem value?_brace (key : String) (inner fuel : Nat) (rest : List Char) :
    value? (fuel + 1) ('\x7b' :: ((newline inner).toList ++
        ((quote plainAscii key).toList ++ rest))) =
      members? fuel ((quote plainAscii key).toList ++ rest) [] := by
  obtain ⟨escaped, hquote, -⟩ := stringBody?_quote plainAscii_printable key rest
  rw [value?, skipBlanks_cons rfl, hquote]
  simp only [skipBlanks_newline, skipBlanks_cons (show isInsignificant '"' = false from rfl)]
  rfl

mutual

/-- A written value is read back, and what follows it is left. -/
theorem value?_prettyAt (value : Json) (hvalue : value.IsIntegral) (column fuel : Nat)
    (rest : List Char) (hends : EndsNumber rest)
    (hfuel : (prettyAt column value).toList.length ≤ fuel) :
    value? fuel ((prettyAt column value).toList ++ rest) = some (value, rest) := by
  have hpositive := length_prettyAt_pos hvalue column
  obtain ⟨fuel, rfl⟩ := Nat.exists_eq_add_one.mpr (show 0 < fuel by omega)
  cases value with
  | null => exact value?_null fuel rest
  | bool value => exact value?_boolText fuel value rest
  | integer value => exact value?_toString fuel value hends
  | decimal negative mantissa exponent => exact hvalue.elim
  | string value => exact value?_quote fuel value rest
  | array items =>
      cases items with
      | nil => simp [prettyAt, value?, skipBlanks, isInsignificant]
      | cons item items =>
          obtain ⟨hitem, hitems⟩ := hvalue
          rw [toList_prettyAt_array] at hfuel ⊢
          simp only [List.length_cons, List.length_append, length_newline] at hfuel
          obtain ⟨fuel, rfl⟩ := Nat.exists_eq_add_one.mpr (show 0 < fuel by omega)
          have hread := value?_prettyAt item hitem (column + 2) fuel
            ((prettyItems (column + 2) items).toList ++ ((newline column).toList ++ ']' :: rest))
            (endsNumber_prettyItems _ _ _ _) (by omega)
          simp only [List.cons_append, List.append_assoc, List.nil_append]
          rw [value?_bracket hitem]
          exact items?_prettyItems items hitems _ _ fuel rest _ item [] hread (by omega)
  | object members =>
      cases members with
      | nil => simp [prettyAt, value?, skipBlanks, isInsignificant]
      | cons member members =>
          obtain ⟨key, value⟩ := member
          obtain ⟨hvalue, hmembers⟩ := hvalue
          rw [toList_prettyAt_object] at hfuel ⊢
          simp only [List.length_cons, List.length_append, length_newline] at hfuel
          obtain ⟨fuel, rfl⟩ := Nat.exists_eq_add_one.mpr (show 0 < fuel by omega)
          have hread := value?_prettyAt value hvalue (column + 2) fuel
            ((prettyMembers (column + 2) members).toList ++
              ((newline column).toList ++ '\x7d' :: rest))
            (endsNumber_prettyMembers _ _ _ _) (by omega)
          simp only [List.cons_append, List.append_assoc, List.nil_append]
          rw [value?_brace]
          exact members?_prettyMembers members hmembers _ _ fuel rest _ _ key value []
            (key?_quote key _) ((value?_congr (skipBlanks_space _) fuel).trans hread) (by omega)

/-- Once an item is read, the items behind it are read up to the closing bracket. -/
theorem items?_prettyItems (items : List Json) (hitems : AreIntegral items)
    (column outer fuel : Nat) (rest text : List Char) (item : Json) (done : List Json)
    (hitem : value? fuel text =
      some (item, (prettyItems column items).toList ++ ((newline outer).toList ++ ']' :: rest)))
    (hfuel : (prettyItems column items).toList.length ≤ fuel) :
    items? (fuel + 1) text done = some (array (done.reverse ++ item :: items), rest) := by
  cases items with
  | nil =>
      have hclose : skipBlanks (']' :: rest) = ']' :: rest := skipBlanks_cons rfl rest
      rw [items?, hitem]
      simp [prettyItems, skipBlanks_newline, hclose]
  | cons next items =>
      obtain ⟨hnext, hitems⟩ := hitems
      rw [toList_prettyItems_cons] at hitem hfuel
      simp only [List.length_cons, List.length_append, length_newline] at hfuel
      obtain ⟨fuel, rfl⟩ := Nat.exists_eq_add_one.mpr (show 0 < fuel by omega)
      have hread := value?_prettyAt next hnext column fuel
        ((prettyItems column items).toList ++ ((newline outer).toList ++ ']' :: rest))
        (endsNumber_prettyItems _ _ _ _) (by omega)
      have hitemsRead := items?_prettyItems items hitems column outer fuel rest _ next
        (item :: done) ((value?_congr (skipBlanks_newline column _) fuel).trans hread) (by omega)
      rw [items?, hitem]
      simp only [List.cons_append, List.append_assoc, skipBlanks_cons
        (show isInsignificant ',' = false from rfl), hitemsRead]
      simp

/-- The same for the members of an object. -/
theorem members?_prettyMembers (members : List (String × Json))
    (hmembers : MembersAreIntegral members) (column outer fuel : Nat)
    (rest text valueText : List Char) (key : String) (value : Json)
    (done : List (String × Json)) (hkey : key? text = some (key, valueText))
    (hvalue : value? fuel valueText =
      some (value, (prettyMembers column members).toList ++
        ((newline outer).toList ++ '\x7d' :: rest)))
    (hfuel : (prettyMembers column members).toList.length ≤ fuel) :
    members? (fuel + 1) text done =
      some (object (done.reverse ++ (key, value) :: members), rest) := by
  cases members with
  | nil =>
      have hclose : skipBlanks ('\x7d' :: rest) = '\x7d' :: rest := skipBlanks_cons rfl rest
      rw [members?, hkey]
      simp [hvalue, prettyMembers, skipBlanks_newline, hclose]
  | cons member members =>
      obtain ⟨nextKey, next⟩ := member
      obtain ⟨hnext, hmembers⟩ := hmembers
      rw [toList_prettyMembers_cons] at hvalue hfuel
      simp only [List.length_cons, List.length_append, length_newline] at hfuel
      obtain ⟨fuel, rfl⟩ := Nat.exists_eq_add_one.mpr (show 0 < fuel by omega)
      have hread := value?_prettyAt next hnext column fuel
        ((prettyMembers column members).toList ++ ((newline outer).toList ++ '\x7d' :: rest))
        (endsNumber_prettyMembers _ _ _ _) (by omega)
      have hmembersRead := members?_prettyMembers members hmembers column outer fuel rest _ _
        nextKey next ((key, value) :: done)
        ((key?_congr (skipBlanks_newline column _)).trans (key?_quote nextKey _))
        ((value?_congr (skipBlanks_space _) fuel).trans hread) (by omega)
      rw [members?, hkey]
      simp only [hvalue, List.cons_append, List.append_assoc, skipBlanks_cons
        (show isInsignificant ',' = false from rfl), hmembersRead]
      simp

end

/-- Writing a value on many lines and reading the text gives the value. -/
theorem parse?_pretty {value : Json} (hvalue : value.IsIntegral) :
    parse? value.pretty = some value := by
  have hread := value?_prettyAt value hvalue 0 ((prettyAt 0 value).toList.length + 1) []
    endsNumber_nil (Nat.le_succ _)
  rw [List.append_nil] at hread
  simp [parse?, pretty, hread, skipBlanks]

end SqlReach.Json
