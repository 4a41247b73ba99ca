import SqlReach.Json.Parser

/-!
# Whole numbers in JSON texts

A whole number is written with a sign, if it is negative, and its decimal digits
without zeros in front.  It is read back from any text that does not go on with
something that would belong to the number.
-/

namespace SqlReach.Json

/-- What may follow a whole number: neither a digit nor the beginning of a fraction
or an exponent. -/
def EndsNumber (rest : List Char) : Prop :=
  ∀ char ∈ rest.head?, char.isDigit = false ∧ char ≠ '.' ∧ char ≠ 'e' ∧ char ≠ 'E'

theorem endsNumber_nil : EndsNumber [] := by
  simp [EndsNumber]

theorem endsNumber_cons {char : Char} (hdigit : char.isDigit = false) (hpoint : char ≠ '.')
    (hlower : char ≠ 'e') (hupper : char ≠ 'E') (rest : List Char) :
    EndsNumber (char :: rest) := by
  simp [EndsNumber, hdigit, hpoint, hlower, hupper]

variable {rest : List Char}

theorem digitsValue_toDigits (number : Nat) :
    digitsValue (Nat.toDigits 10 number) = number :=
  Nat.ofDigitChars_ten_toDigits

theorem isDigit_toDigits (number : Nat) :
    ∀ char ∈ Nat.toDigits 10 number, char.isDigit = true := by
  intro char hchar
  exact Nat.isDigit_of_mem_toDigits (by decide) (by decide) hchar

theorem exists_toDigits_eq_cons (number : Nat) :
    ∃ first later, Nat.toDigits 10 number = first :: later ∧ first.isDigit = true := by
  cases hdigits : Nat.toDigits 10 number with
  | nil => exact absurd hdigits Nat.toDigits_ne_nil
  | cons first later =>
      refine ⟨first, later, rfl, isDigit_toDigits number first ?_⟩
      rw [hdigits]
      exact List.mem_cons_self

/-- Only zero is written with a zero in front. -/
theorem head?_toDigits_ne_zero {number : Nat} (hpositive : 0 < number) :
    (Nat.toDigits 10 number).head? ≠ some '0' := by
  induction number using Nat.strongRecOn with
  | _ number ih =>
      by_cases hsmall : number < 10
      · rw [Nat.toDigits_of_lt_base hsmall]
        have hdigits : ∀ digit < 10, 0 < digit → [Nat.digitChar digit].head? ≠ some '0' := by
          decide
        exact hdigits number hsmall hpositive
      · rw [Nat.toDigits_of_base_le (by decide) (Nat.le_of_not_lt hsmall), List.head?_append]
        have hquotient := ih (number / 10) (by omega) (by omega)
        obtain ⟨first, later, hdigits, -⟩ := exists_toDigits_eq_cons (number / 10)
        rw [hdigits] at hquotient ⊢
        exact hquotient

theorem takeWhile_isDigit_eq_nil (hends : EndsNumber rest) :
    rest.takeWhile Char.isDigit = [] := by
  cases rest with
  | nil => rfl
  | cons char rest => simp [(hends char rfl).1]

theorem dropWhile_isDigit_eq_self (hends : EndsNumber rest) :
    rest.dropWhile Char.isDigit = rest := by
  cases rest with
  | nil => rfl
  | cons char rest => simp [(hends char rfl).1]

theorem digits?_append {digits : List Char} (hdigits : ∀ char ∈ digits, char.isDigit = true)
    (hsome : digits ≠ []) (hends : EndsNumber rest) :
    digits? (digits ++ rest) = some (digits, rest) := by
  rw [digits?, List.takeWhile_append_of_pos hdigits, List.dropWhile_append_of_pos hdigits,
    takeWhile_isDigit_eq_nil hends, dropWhile_isDigit_eq_self hends, List.append_nil]
  cases digits with
  | nil => exact absurd rfl hsome
  | cons first later => rfl

theorem wholeDigits?_toDigits (number : Nat) (hends : EndsNumber rest) :
    wholeDigits? (Nat.toDigits 10 number ++ rest) = some (Nat.toDigits 10 number, rest) := by
  rcases Nat.eq_zero_or_pos number with rfl | hpositive
  · rw [Nat.toDigits_zero]
    rfl
  · have hread := digits?_append (isDigit_toDigits number) Nat.toDigits_ne_nil hends
    have hhead := head?_toDigits_ne_zero hpositive
    obtain ⟨first, later, hdigits, -⟩ := exists_toDigits_eq_cons number
    rw [hdigits] at hread hhead ⊢
    rw [wholeDigits?, hread]
    intro others hzero
    exact hhead (congrArg List.head? hzero)

theorem fraction?_of_ends (hends : EndsNumber rest) : fraction? rest = some ([], rest) := by
  cases rest with
  | nil => rfl
  | cons char rest =>
      obtain ⟨-, hpoint, -, -⟩ := hends char rfl
      rw [fraction?]
      intro later hchar
      exact hpoint (List.cons.inj hchar).1

theorem exponent?_of_ends (hends : EndsNumber rest) : exponent? rest = some (none, rest) := by
  cases rest with
  | nil => rfl
  | cons char rest =>
      obtain ⟨-, -, hlower, hupper⟩ := hends char rfl
      rw [exponent?]
      · intro later hchar
        exact hlower (List.cons.inj hchar).1
      · intro later hchar
        exact hupper (List.cons.inj hchar).1

theorem unsigned?_toDigits (negative : Bool) (number : Nat) (hends : EndsNumber rest) :
    unsigned? negative (Nat.toDigits 10 number ++ rest) =
      some (integer (if negative then -(number : Int) else number), rest) := by
  simp [unsigned?, wholeDigits?_toDigits number hends, fraction?_of_ends hends,
    exponent?_of_ends hends, digitsValue_toDigits]

/-- The text of an integer begins with its sign or with a digit. -/
theorem exists_toString_eq_cons (value : Int) :
    ∃ first later, (toString value).toList = first :: later ∧
      (first = '-' ∨ first.isDigit = true) := by
  rw [Int.toString_eq_repr, Int.repr_eq_if]
  split
  · obtain ⟨first, later, hdigits, hfirst⟩ := exists_toDigits_eq_cons value.toNat
    exact ⟨first, later, by rw [Nat.toList_repr, hdigits], Or.inr hfirst⟩
  · exact ⟨'-', Nat.toDigits 10 (-value).toNat, by simp, Or.inl rfl⟩

/-- The text of an integer is read back. -/
theorem number?_toString (value : Int) (hends : EndsNumber rest) :
    number? ((toString value).toList ++ rest) = some (integer value, rest) := by
  rw [Int.toString_eq_repr, Int.repr_eq_if]
  split
  · rename_i hnonnegative
    obtain ⟨first, later, hdigits, hfirst⟩ := exists_toDigits_eq_cons value.toNat
    rw [Nat.toList_repr, number?, unsigned?_toDigits false value.toNat hends]
    · simp [Int.toNat_of_nonneg hnonnegative]
    · intro text hminus
      rw [hdigits] at hminus
      rw [(List.cons.inj hminus).1] at hfirst
      exact absurd hfirst (by decide)
  · rename_i hnegative
    have hvalue : -((-value).toNat : Int) = value := by omega
    rw [String.toList_append, Nat.toList_repr]
    simp only [String.reduceToList, List.cons_append, List.nil_append, number?,
      unsigned?_toDigits true (-value).toNat hends]
    rw [if_true, hvalue]

end SqlReach.Json
