import Mathlib
import SqlReach.Proofs.Encoding.LineBreaks

/-!
# The bytes of a character

What is written in UTF-8 is read back.  The first byte of a character decides how
many bytes follow and which of them may come second, and the ranges are chosen such
that exactly the bytes of characters pass: neither overlong forms nor surrogates do.
So bytes beyond ASCII never stand for an ASCII character, damaged or not.
-/

namespace SqlReach.Utf8

theorem toNat_ofNat_of_lt {code : Nat} (hcode : code < 256) :
    (UInt8.ofNat code).toNat = code := by
  rw [UInt8.toNat_ofNat']
  exact Nat.mod_eq_of_lt hcode

theorem readChar_of_lt {byte : UInt8} (hbyte : byte.toNat < 0x80) (rest : List UInt8) :
    readChar byte rest = (.ok (Char.ofNat byte.toNat), rest) := by
  rw [readChar, if_pos hbyte]

/-! ## Reading what was written -/

/-- The first byte announces a character with the given payload and so many bytes behind
the second, and it allows the second byte. -/
structure Announces (first second payload more : Nat) : Prop where
  exists_lead : ∃ low high, lead? first = some ⟨payload, low, high, more⟩ ∧
    low ≤ second + 0x80 ∧ second + 0x80 ≤ high
  le_first : 0x80 ≤ first
  first_lt : first < 256
  second_lt : second < 64

section Announced

variable {payload second : Nat} (hsecond : second < 64)

include hsecond

theorem announces_two (hlong : 2 ≤ payload) (hshort : payload < 32) :
    Announces (payload + 0xC0) second payload 0 := by
  have hlead : lead? (payload + 0xC0) = some ⟨payload, 0x80, 0xBF, 0⟩ := by
    rw [lead?, if_pos (by omega), Nat.add_sub_cancel]
  exact ⟨⟨_, _, hlead, by omega, by omega⟩, by omega, by omega, hsecond⟩

/-- The payload zero leaves out overlong forms, and the payload of the surrogates leaves
these out. -/
theorem announces_three (hshort : payload < 16) (hlong : 0x20 ≤ payload * 64 + second)
    (hscalar : payload * 64 + second < 0x360 ∨ 0x37F < payload * 64 + second) :
    Announces (payload + 0xE0) second payload 1 := by
  refine ⟨?_, by omega, by omega, hsecond⟩
  by_cases hzero : payload = 0
  · subst hzero
    exact ⟨0xA0, 0xBF, rfl, by omega, by omega⟩
  by_cases hsurrogate : payload = 0xD
  · subst hsurrogate
    exact ⟨0x80, 0x9F, rfl, by omega, by omega⟩
  refine ⟨0x80, 0xBF, ?_, by omega, by omega⟩
  rw [lead?, if_neg (by omega), if_neg (by omega), if_neg (by omega), if_pos (by omega),
    Nat.add_sub_cancel]

/-- The payload four leaves out what lies beyond the last character. -/
theorem announces_four (hlong : 0x10 ≤ payload * 64 + second)
    (hscalar : payload * 64 + second < 0x110) :
    Announces (payload + 0xF0) second payload 2 := by
  refine ⟨?_, by omega, by omega, hsecond⟩
  by_cases hzero : payload = 0
  · subst hzero
    exact ⟨0x90, 0xBF, rfl, by omega, by omega⟩
  by_cases hlast : payload = 4
  · subst hlast
    exact ⟨0x80, 0x8F, rfl, by omega, by omega⟩
  refine ⟨0x80, 0xBF, ?_, by omega, by omega⟩
  rw [lead?, if_neg (by omega), if_neg (by omega), if_neg (by omega), if_neg (by omega),
    if_neg (by omega), if_pos (by omega), Nat.add_sub_cancel]

end Announced

theorem Announces.readChar_eq {first second payload more : Nat}
    (hannounces : Announces first second payload more) (rest : List UInt8) :
    readChar (UInt8.ofNat first) (UInt8.ofNat (second + 0x80) :: rest) =
      continuation more (payload * 64 + second) rest := by
  obtain ⟨⟨low, high, hlead, hlow, hhigh⟩, hfirst, hbyte, hsecond⟩ := hannounces
  have hnext : (UInt8.ofNat (second + 0x80)).toNat = second + 0x80 :=
    toNat_ofNat_of_lt (by omega)
  simp only [readChar, toNat_ofNat_of_lt hbyte, if_neg (Nat.not_lt.mpr hfirst), hlead, afterLead,
    hnext, if_pos (And.intro hlow hhigh), Nat.add_sub_cancel]

theorem continuation_cons {low : Nat} (hlow : low < 64) (more code : Nat) (rest : List UInt8) :
    continuation (more + 1) code (UInt8.ofNat (low + 0x80) :: rest) =
      continuation more (code * 64 + low) rest := by
  have hbyte : (UInt8.ofNat (low + 0x80)).toNat = low + 0x80 := toNat_ofNat_of_lt (by omega)
  rw [continuation, hbyte, if_pos (by omega), Nat.add_sub_cancel]

/-- A character is read back from its bytes, and nothing behind them is touched. -/
theorem decode_utf8EncodeChar_append (char : Char) (rest : List UInt8) :
    decode (String.utf8EncodeChar char ++ rest) = char :: decode rest := by
  have hvalid : char.val.toNat.isValidChar := char.valid
  have hchar : Char.ofNat char.val.toNat = char := Char.ofNat_toNat char
  rw [String.utf8EncodeChar]
  generalize char.val.toNat = code at hvalid hchar ⊢
  unfold Nat.isValidChar at hvalid
  -- One case for each number of bytes; the code is put together again from its digits.
  split
  · have hbyte : (UInt8.ofNat code).toNat = code := toNat_ofNat_of_lt (by omega)
    rw [List.singleton_append, decode_cons, readChar_of_lt (by omega), hbyte, hchar]
    rfl
  split
  · have hannounces : Announces (code / 64 % 0x20 + 0xC0) (code % 64) (code / 64 % 0x20) 0 :=
      announces_two (by omega) (by omega) (by omega)
    have hcode : code / 64 % 0x20 * 64 + code % 64 = code := by omega
    rw [List.cons_append, List.singleton_append, decode_cons, hannounces.readChar_eq,
      continuation, hcode, hchar]
    rfl
  split
  · have hannounces : Announces (code / 4096 % 0x10 + 0xE0) (code / 64 % 64)
        (code / 4096 % 0x10) 1 :=
      announces_three (by omega) (by omega) (by omega) (by omega)
    have hcode : (code / 4096 % 0x10 * 64 + code / 64 % 64) * 64 + code % 64 = code := by omega
    rw [List.cons_append, List.cons_append, List.singleton_append, decode_cons,
      hannounces.readChar_eq, continuation_cons (by omega), continuation, hcode, hchar]
    rfl
  · have hannounces : Announces (code / 262144 % 0x08 + 0xF0) (code / 4096 % 64)
        (code / 262144 % 0x08) 2 :=
      announces_four (by omega) (by omega) (by omega)
    have hcode : ((code / 262144 % 0x08 * 64 + code / 4096 % 64) * 64 + code / 64 % 64) * 64 +
        code % 64 = code := by omega
    rw [List.cons_append, List.cons_append, List.cons_append, List.singleton_append, decode_cons,
      hannounces.readChar_eq, continuation_cons (by omega), continuation_cons (by omega),
      continuation, hcode, hchar]
    rfl

theorem decode_flatMap_utf8EncodeChar (chars : List Char) :
    decode (chars.flatMap String.utf8EncodeChar) = chars := by
  induction chars with
  | nil => exact decode_nil
  | cons char chars ih =>
      rw [List.flatMap_cons, decode_utf8EncodeChar_append, ih]

/-! ## Bytes beyond ASCII -/

/-- Whatever bytes follow, the code becomes that of a character beyond ASCII. -/
def BeyondAscii (more code : Nat) : Prop :=
  ∀ final, code * 64 ^ more ≤ final → final < (code + 1) * 64 ^ more →
    0x80 ≤ final ∧ final.isValidChar

theorem BeyondAscii.of_succ {more code low : Nat} (hbeyond : BeyondAscii (more + 1) code)
    (hlow : low < 64) : BeyondAscii more (code * 64 + low) := by
  intro final hge hlt
  apply hbeyond
  · calc
      code * 64 ^ (more + 1) = code * 64 * 64 ^ more := by ring
      _ ≤ (code * 64 + low) * 64 ^ more := Nat.mul_le_mul_right _ (Nat.le_add_right _ _)
      _ ≤ final := hge
  · calc
      final < (code * 64 + low + 1) * 64 ^ more := hlt
      _ ≤ (code * 64 + 64) * 64 ^ more := Nat.mul_le_mul_right _ (by omega)
      _ = (code + 1) * 64 ^ (more + 1) := by ring

theorem toNat_replacement : replacement.toNat = 0xFFFD := by decide

theorem BeyondAscii.le_continuation {more code : Nat} (hbeyond : BeyondAscii more code)
    (rest : List UInt8) : 0x80 ≤ (Reading.char (continuation more code rest).1).toNat := by
  induction more generalizing code rest with
  | zero =>
      obtain ⟨hge, hvalid⟩ := hbeyond code (by simp) (by simp)
      rw [continuation, Reading.char, Char.toNat_ofNat, if_pos hvalid]
      exact hge
  | succ more ih =>
      have hdamage : 0x80 ≤ replacement.toNat := by
        rw [toNat_replacement]
        omega
      cases rest with
      | nil => exact hdamage
      | cons byte rest =>
          rw [continuation]
          split
          · exact ih (hbeyond.of_succ (by omega)) rest
          · exact hdamage

/-- The ranges of the second byte are such that the code belongs to a character. -/
theorem beyondAscii_of_lead? {byte second : Nat} {lead : Lead} (hlead : lead? byte = some lead)
    (hlow : lead.low ≤ second) (hhigh : second ≤ lead.high) :
    BeyondAscii lead.more (lead.payload * 64 + (second - 0x80)) := by
  intro final hge hlt
  unfold Nat.isValidChar
  unfold lead? at hlead
  split_ifs at hlead <;>
    (obtain rfl := Option.some.inj hlead
     dsimp only at hlow hhigh hge hlt
     omega)

theorem le_char_readChar {byte : UInt8} (hbyte : 0x80 ≤ byte.toNat) (rest : List UInt8) :
    0x80 ≤ (Reading.char (readChar byte rest).1).toNat := by
  have hdamage : 0x80 ≤ replacement.toNat := by
    rw [toNat_replacement]
    omega
  rw [readChar, if_neg (Nat.not_lt.mpr hbyte)]
  split
  · exact hdamage
  · rename_i lead hlead
    cases rest with
    | nil => exact hdamage
    | cons second rest =>
        rw [afterLead]
        split
        · rename_i hrange
          exact (beyondAscii_of_lead? hlead hrange.1 hrange.2).le_continuation rest
        · exact hdamage

/-! ## The last character -/

theorem continuation_suffix (more code : Nat) (rest : List UInt8) :
    (continuation more code rest).2 <:+ rest := by
  induction more generalizing code rest with
  | zero => exact List.suffix_refl rest
  | succ more ih =>
      cases rest with
      | nil => exact List.suffix_refl []
      | cons byte rest =>
          rw [continuation]
          split
          · exact (ih _ rest).trans (List.suffix_cons byte rest)
          · exact List.suffix_refl _

theorem readChar_suffix (byte : UInt8) (rest : List UInt8) : (readChar byte rest).2 <:+ rest := by
  rw [readChar]
  split
  · exact List.suffix_refl rest
  split
  · exact List.suffix_refl rest
  cases rest with
  | nil => exact List.suffix_refl []
  | cons second rest =>
      rw [afterLead]
      split
      · exact (continuation_suffix _ _ rest).trans (List.suffix_cons second rest)
      · exact List.suffix_refl _

theorem getLast?_of_suffix {α : Type} {front rest : List α} {last : α} (hsuffix : rest <:+ front)
    (hlast : rest.getLast? = some last) : front.getLast? = some last := by
  obtain ⟨before, rfl⟩ := hsuffix
  rw [List.getLast?_append, hlast]
  rfl

/-- An ASCII character at the end of a text has its own byte at the end. -/
theorem getLast?_of_decode {bytes : List UInt8} {char : Char} (hchar : char.toNat < 0x80)
    (hlast : (decode bytes).getLast? = some char) :
    bytes.getLast? = some (UInt8.ofNat char.toNat) := by
  induction hlength : bytes.length using Nat.strongRecOn generalizing bytes with
  | _ length ih =>
      cases bytes with
      | nil =>
          rw [decode_nil] at hlast
          cases hlast
      | cons byte rest =>
          have hsuffix := readChar_suffix byte rest
          have hhigh : 0x80 ≤ byte.toNat → 0x80 ≤ (Reading.char (readChar byte rest).1).toNat :=
            fun hbyte => le_char_readChar hbyte rest
          rw [decode_cons] at hlast
          cases hunread : (readChar byte rest).2 with
          | nil =>
              rw [hunread, decode_nil, List.getLast?_singleton, Option.some.injEq] at hlast
              have hbyte : byte.toNat < 0x80 := by
                by_contra hnot
                have := hhigh (Nat.le_of_not_lt hnot)
                rw [hlast] at this
                omega
              rw [readChar_of_lt hbyte] at hunread hlast
              have hvalid : byte.toNat.isValidChar := Or.inl (by omega)
              rw [show rest = [] from hunread, List.getLast?_singleton, ← hlast, Reading.char,
                Char.toNat_ofNat, if_pos hvalid, UInt8.ofNat_toNat]
          | cons next later =>
              have hshorter : (next :: later).length < length := by
                have := length_readChar byte rest
                rw [hunread] at this
                simp only [List.length_cons] at this hlength ⊢
                omega
              rw [hunread] at hsuffix
              rw [hunread, decode_cons next, List.getLast?_cons_cons, ← decode_cons] at hlast
              have hlater := ih _ hshorter hlast rfl
              exact getLast?_of_suffix (hsuffix.trans (List.suffix_cons byte rest)) hlater

end SqlReach.Utf8
