import Mathlib.Algebra.Order.Ring.Nat
import Mathlib.Data.List.Basic
import SqlReach.Json.Parser

/-!
# Strings in JSON texts

A string is written between quotes, with escapes for the quote, the backslash and
every character that does not stand for itself.  Reading undoes each escape: the
short ones, the hexadecimal ones, and the pairs of units for characters beyond
the sixteen-bit range.
-/

namespace SqlReach.Json

open SqlReach.Text

/-! ## Hexadecimal digits -/

theorem hexDigit?_digitChar : ∀ digit < 16, hexDigit? (Nat.digitChar digit) = some digit := by
  decide

/-- Widening a number by one place moves its last digit to the end. -/
theorem toList_hexadecimal_succ (width number : Nat) :
    (hexadecimal (width + 2) number).toList =
      (hexadecimal (width + 1) (number / 16)).toList ++ [Nat.digitChar (number % 16)] := by
  simp only [hexadecimal, String.toList_ofList]
  by_cases hsmall : number < 16
  · rw [Nat.toDigits_of_lt_base hsmall, Nat.div_eq_of_lt hsmall, Nat.mod_eq_of_lt hsmall,
      Nat.toDigits_zero]
    simp [List.replicate_succ']
  · rw [Nat.toDigits_of_base_le (by decide) (Nat.le_of_not_lt hsmall)]
    simp

theorem toList_hexadecimal_one {number : Nat} (hsmall : number < 16) :
    (hexadecimal 1 number).toList = [Nat.digitChar number] := by
  simp [hexadecimal, Nat.toDigits_of_lt_base hsmall]

theorem length_hexadecimal {width number : Nat} (hfits : number < 16 ^ (width + 1)) :
    (hexadecimal (width + 1) number).toList.length = width + 1 := by
  induction width generalizing number with
  | zero => rw [toList_hexadecimal_one (by simpa using hfits)]; rfl
  | succ width ih =>
      have hquotient : number / 16 < 16 ^ (width + 1) := by
        rw [Nat.pow_succ] at hfits
        omega
      rw [toList_hexadecimal_succ, List.length_append, ih hquotient]
      rfl

theorem ofHexadecimal?_concat (digits : List Char) (digit : Char) :
    ofHexadecimal? (digits ++ [digit]) =
      (ofHexadecimal? digits).bind fun value => (hexDigit? digit).map (16 * value + ·) := by
  simp [ofHexadecimal?, List.foldlM_append]

/-- A number that fits the width is read back. -/
theorem ofHexadecimal?_hexadecimal {width number : Nat} (hfits : number < 16 ^ (width + 1)) :
    ofHexadecimal? (hexadecimal (width + 1) number).toList = some number := by
  induction width generalizing number with
  | zero =>
      have hsmall : number < 16 := by simpa using hfits
      rw [toList_hexadecimal_one hsmall]
      simp [ofHexadecimal?, hexDigit?_digitChar number hsmall]
  | succ width ih =>
      have hquotient : number / 16 < 16 ^ (width + 1) := by
        rw [Nat.pow_succ] at hfits
        omega
      rw [toList_hexadecimal_succ, ofHexadecimal?_concat, ih hquotient, Option.bind_some,
        hexDigit?_digitChar (number % 16) (Nat.mod_lt number (by decide)), Option.map_some,
        Nat.div_add_mod]

/-! ## Escapes -/

theorem exists_toList_unitEscape {unit : Nat} (hunit : unit < 0x10000) :
    ∃ a b c d, (unitEscape unit).toList = ['\\', 'u', a, b, c, d] ∧
      ofHexadecimal? [a, b, c, d] = some unit := by
  have hread : ofHexadecimal? (hexadecimal 4 unit).toList = some unit :=
    ofHexadecimal?_hexadecimal hunit
  obtain ⟨a, b, c, d, hdigits⟩ := List.length_eq_four.mp (length_hexadecimal hunit)
  rw [hdigits] at hread
  refine ⟨a, b, c, d, ?_, hread⟩
  simp [unitEscape, hdigits]

theorem stringBody?_unitEscape {unit : Nat} (hunit : unit < 0x10000)
    (hlow : isLowUnit unit = false) (hhigh : isHighUnit unit = false) (rest done : List Char) :
    stringBody? ((unitEscape unit).toList ++ rest) done =
      stringBody? rest (Char.ofNat unit :: done) := by
  obtain ⟨a, b, c, d, hescape, hread⟩ := exists_toList_unitEscape hunit
  simp only [hescape, List.cons_append, List.nil_append]
  rw [stringBody?]
  simp [hread, hlow, hhigh]

theorem stringBody?_pairEscape {high low : Nat} (hhigh : isHighUnit high = true)
    (hlow : isLowUnit low = true) (rest done : List Char) :
    stringBody? ((unitEscape high).toList ++ ((unitEscape low).toList ++ rest)) done =
      stringBody? rest (pairChar high low :: done) := by
  have hhighBounds : 0xD800 ≤ high ∧ high ≤ 0xDBFF := by
    simpa [isHighUnit] using hhigh
  have hlowBounds : 0xDC00 ≤ low ∧ low ≤ 0xDFFF := by
    simpa [isLowUnit] using hlow
  have hnotLow : isLowUnit high = false := by
    simp [isLowUnit]
    omega
  obtain ⟨a, b, c, d, hescape, hread⟩ :=
    exists_toList_unitEscape (show high < 0x10000 by omega)
  obtain ⟨e, f, g, h, hescapeLow, hreadLow⟩ :=
    exists_toList_unitEscape (show low < 0x10000 by omega)
  simp only [hescape, hescapeLow, List.cons_append, List.nil_append]
  rw [stringBody?]
  simp [hread, hreadLow, hnotLow, hhigh, hlow]

/-- The escape of a character by its code is read back as the character. -/
theorem stringBody?_codeEscape (char : Char) (rest done : List Char) :
    stringBody? ((codeEscape char.toNat).toList ++ rest) done =
      stringBody? rest (char :: done) := by
  have hvalid : char.toNat < 0xD800 ∨ 0xDFFF < char.toNat ∧ char.toNat < 0x110000 := char.valid
  unfold codeEscape
  split
  · rename_i hsmall
    rw [stringBody?_unitEscape hsmall, Char.ofNat_toNat]
    · simp [isLowUnit]
      omega
    · simp [isHighUnit]
      omega
  · rename_i hlarge
    have hcode : 0x10000 + (0xD800 + (char.toNat - 0x10000) / 0x400 - 0xD800) * 0x400 +
        (0xDC00 + (char.toNat - 0x10000) % 0x400 - 0xDC00) = char.toNat := by
      omega
    rw [String.toList_append, List.append_assoc, stringBody?_pairEscape, pairChar, hcode,
      Char.ofNat_toNat]
    · simp [isHighUnit]
      omega
    · simp [isLowUnit]
      omega

theorem stringBody?_plain {char : Char} (hquote : char ≠ '"') (hbackslash : char ≠ '\\')
    (hcontrol : 0x20 ≤ char.toNat) (rest done : List Char) :
    stringBody? (char :: rest) done = stringBody? rest (char :: done) := by
  rw [stringBody?, if_neg (Nat.not_lt.mpr hcontrol)]
  · exact hquote
  · intro a b c d later hchar
    exact absurd hchar hbackslash
  · intro letter later hchar
    exact absurd hchar hbackslash

section Quoted

variable {plain : Char → Bool} (hplain : ∀ char, plain char = true → 0x20 ≤ char.toNat)
include hplain

/-- Whatever way a character is written, it is read back. -/
theorem stringBody?_escapeChar (char : Char) (rest done : List Char) :
    stringBody? ((escapeChar plain char).toList ++ rest) done =
      stringBody? rest (char :: done) := by
  by_cases hquote : char = '"'
  · simp [hquote, escapeChar, stringBody?, simpleEscape?]
  by_cases hbackslash : char = '\\'
  · simp [hbackslash, escapeChar, stringBody?, simpleEscape?]
  by_cases hshort : char ∈ ['\n', '\r', '\t', '\x08', '\x0c']
  · simp only [List.mem_cons, List.not_mem_nil, or_false] at hshort
    rcases hshort with rfl | rfl | rfl | rfl | rfl <;>
      simp [escapeChar, stringBody?, simpleEscape?]
  have hescape : escapeChar plain char =
      if plain char then char.toString else codeEscape char.toNat := by
    simp only [List.mem_cons, List.not_mem_nil, or_false, not_or] at hshort
    simp [escapeChar, hquote, hbackslash, hshort]
  rw [hescape]
  split
  · rename_i hchar
    rw [Char.toString_eq_singleton, String.toList_singleton, List.singleton_append]
    exact stringBody?_plain hquote hbackslash (hplain char hchar) rest done
  · exact stringBody?_codeEscape char rest done

theorem stringBody?_escapes (chars rest done : List Char) :
    stringBody? (chars.flatMap (fun char => (escapeChar plain char).toList) ++ '"' :: rest) done =
      some (String.ofList (done.reverse ++ chars), rest) := by
  induction chars generalizing done with
  | nil => simp [stringBody?]
  | cons char chars ih =>
      rw [List.flatMap_cons, List.append_assoc, stringBody?_escapeChar hplain, ih]
      simp

/-- A quoted text is read back, and what stands behind it is left. -/
theorem stringBody?_quote (text : String) (rest : List Char) :
    ∃ escaped, (quote plain text).toList ++ rest = '"' :: escaped ∧
      stringBody? escaped [] = some (text, rest) := by
  refine ⟨text.toList.flatMap (fun char => (escapeChar plain char).toList) ++ '"' :: rest, ?_, ?_⟩
  · simp [quote, String.toList_join, List.flatMap_map]
  · simpa using stringBody?_escapes hplain text.toList rest []

end Quoted

end SqlReach.Json
