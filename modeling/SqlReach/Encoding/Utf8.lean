import SqlReach.Text.Hexadecimal

/-!
# Reading UTF-8

Bytes are read character by character.  The longest part that could still have
become a character, and any byte that could not even begin one, is damage.  A
byte that cannot continue a character is never swallowed with it, so damage does
not spread beyond the broken character.  A tolerant reader puts the replacement
character in the place of every damage; a strict one stops at the first.
-/

namespace SqlReach.Utf8

def replacement : Char := '\uFFFD'

/-- Why bytes are no character. -/
inductive Damage where
  /-- The byte begins no character. -/
  | invalidStart
  /-- The next byte does not continue the character. -/
  | invalidContinuation
  /-- The bytes end inside the character. -/
  | unexpectedEnd
deriving DecidableEq

def Damage.reason : Damage → String
  | invalidStart => "invalid start byte"
  | invalidContinuation => "invalid continuation byte"
  | unexpectedEnd => "unexpected end of data"

/-- What the first byte of a longer character determines: its own payload, the
range of the second byte, and how many bytes follow the second. -/
structure Lead where
  payload : Nat
  low : Nat
  high : Nat
  more : Nat

/-- The second byte of some characters is restricted further, which excludes
overlong forms, surrogates and codes beyond the last character. -/
def lead? (byte : Nat) : Option Lead :=
  if 0xC2 ≤ byte ∧ byte ≤ 0xDF then some ⟨byte - 0xC0, 0x80, 0xBF, 0⟩
  else if byte = 0xE0 then some ⟨0, 0xA0, 0xBF, 1⟩
  else if byte = 0xED then some ⟨0xD, 0x80, 0x9F, 1⟩
  else if 0xE1 ≤ byte ∧ byte ≤ 0xEF then some ⟨byte - 0xE0, 0x80, 0xBF, 1⟩
  else if byte = 0xF0 then some ⟨0, 0x90, 0xBF, 2⟩
  else if 0xF1 ≤ byte ∧ byte ≤ 0xF3 then some ⟨byte - 0xF0, 0x80, 0xBF, 2⟩
  else if byte = 0xF4 then some ⟨4, 0x80, 0x8F, 2⟩
  else none

/-- A character, or the damage in its place. -/
abbrev Reading := Except Damage Char

/-- Reads the bytes after the second; `code` is what the earlier ones add up to. -/
def continuation : Nat → Nat → List UInt8 → Reading × List UInt8
  | 0, code, rest => (.ok (Char.ofNat code), rest)
  | _ + 1, _, [] => (.error .unexpectedEnd, [])
  | more + 1, code, byte :: rest =>
      if 0x80 ≤ byte.toNat ∧ byte.toNat ≤ 0xBF then
        continuation more (code * 64 + (byte.toNat - 0x80)) rest
      else (.error .invalidContinuation, byte :: rest)

/-- Reads the bytes after the first. -/
def afterLead (lead : Lead) : List UInt8 → Reading × List UInt8
  | [] => (.error .unexpectedEnd, [])
  | byte :: rest =>
      if lead.low ≤ byte.toNat ∧ byte.toNat ≤ lead.high then
        continuation lead.more (lead.payload * 64 + (byte.toNat - 0x80)) rest
      else (.error .invalidContinuation, byte :: rest)

/-- Reads one character whose first byte is given. -/
def readChar (byte : UInt8) (rest : List UInt8) : Reading × List UInt8 :=
  if byte.toNat < 0x80 then (.ok (Char.ofNat byte.toNat), rest)
  else
    match lead? byte.toNat with
    | none => (.error .invalidStart, rest)
    | some lead => afterLead lead rest

theorem length_continuation (more code : Nat) (rest : List UInt8) :
    (continuation more code rest).2.length ≤ rest.length := by
  induction rest generalizing more code with
  | nil => cases more <;> simp [continuation]
  | cons byte rest ih =>
      cases more with
      | zero => simp [continuation]
      | succ more =>
          simp only [continuation]
          split
          · have := ih more (code * 64 + (byte.toNat - 0x80))
            simp only [List.length_cons]
            omega
          · simp

theorem length_readChar (byte : UInt8) (rest : List UInt8) :
    (readChar byte rest).2.length ≤ rest.length := by
  unfold readChar
  split
  · simp
  · split
    · simp
    · rename_i lead _
      cases rest with
      | nil => simp [afterLead]
      | cons second rest =>
          simp only [afterLead]
          split
          · have := length_continuation lead.more (lead.payload * 64 + (second.toNat - 0x80)) rest
            simp only [List.length_cons]
            omega
          · simp

def Reading.char : Reading → Char
  | .ok char => char
  | .error _ => replacement

/-- Reads the bytes behind the characters read so far, the latest first. -/
def decodeOnto (done : List Char) (bytes : List UInt8) : List Char :=
  match bytes with
  | [] => done.reverse
  | byte :: rest => decodeOnto (Reading.char (readChar byte rest).1 :: done) (readChar byte rest).2
termination_by bytes.length
decreasing_by
  have := length_readChar byte rest
  simp only [List.length_cons]
  omega

def decode (bytes : List UInt8) : List Char :=
  decodeOnto [] bytes

/-- Damage at the front of some bytes, with what stands behind it. -/
structure Break where
  damage : Damage
  bytes : List UInt8
  rest : List UInt8

/-- Reads the bytes up to the first damage. -/
def strictOnto (done : List Char) (bytes : List UInt8) : Except Break (List Char) :=
  match bytes with
  | [] => .ok done.reverse
  | byte :: rest =>
      match (readChar byte rest).1 with
      | .ok char => strictOnto (char :: done) (readChar byte rest).2
      | .error damage => .error ⟨damage, byte :: rest, (readChar byte rest).2⟩
termination_by bytes.length
decreasing_by
  have := length_readChar byte rest
  simp only [List.length_cons]
  omega

/-- The first damage in a text, with its bytes and their place. -/
structure Flaw where
  damage : Damage
  position : Nat
  bytes : List UInt8
deriving DecidableEq

namespace Flaw

def ofBreak (length : Nat) (found : Break) : Flaw where
  damage := found.damage
  position := length - found.bytes.length
  bytes := found.bytes.take (found.bytes.length - found.rest.length)

/-- A single byte is shown, of several bytes only their places. -/
def place (flaw : Flaw) : String :=
  match flaw.bytes with
  | [byte] =>
      "byte 0x" ++ Text.hexadecimal 2 byte.toNat ++ " in position " ++ toString flaw.position
  | bytes =>
      "bytes in position " ++ toString flaw.position ++ "-" ++
        toString (flaw.position + bytes.length - 1)

def message (flaw : Flaw) : String :=
  "'utf-8' codec can't decode " ++ flaw.place ++ ": " ++ flaw.damage.reason

end Flaw

/-- Reads bytes that have to be UTF-8 throughout. -/
def decodeStrict (bytes : List UInt8) : Except Flaw (List Char) :=
  (strictOnto [] bytes).mapError (Flaw.ofBreak bytes.length)

def encode (text : String) : List UInt8 :=
  text.toList.flatMap String.utf8EncodeChar

end SqlReach.Utf8
