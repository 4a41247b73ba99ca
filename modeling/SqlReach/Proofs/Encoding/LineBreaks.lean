import SqlReach.Encoding
import SqlReach.Proofs.Scanner.Lines

/-!
# Line breaks in encoded texts

A carriage return or a line feed is a byte of its own in every encoding, and no
damage in front of it reaches beyond it: the line before and the line behind it are
read as if the other were not there.  So the lines of a text are the texts of its
lines, empty ones aside, and it does not matter which of the usual line ends, or
which mixture of them, divides the lines of a file.
-/

namespace SqlReach

namespace Utf8

/-- Nothing of what is read so far depends on what is still to be read. -/
theorem decodeOnto_append (late early : List Char) (bytes : List UInt8) :
    decodeOnto (late ++ early) bytes = early.reverse ++ decodeOnto late bytes := by
  fun_induction decodeOnto late bytes with
  | case1 late => rw [decodeOnto, List.reverse_append]
  | case2 late byte rest ih => rw [decodeOnto, ← List.cons_append, ih]

theorem decode_nil : decode [] = [] := by
  rw [decode, decodeOnto, List.reverse_nil]

theorem decode_cons (byte : UInt8) (rest : List UInt8) :
    decode (byte :: rest) =
      Reading.char (readChar byte rest).1 :: decode (readChar byte rest).2 := by
  rw [decode, decodeOnto, ← List.nil_append [Reading.char _], decodeOnto_append, decode]
  rfl

theorem low_of_lead? {byte : Nat} {lead : Lead} (hlead : lead? byte = some lead) :
    0x80 ≤ lead.low := by
  unfold lead? at hlead
  grind

/-- The same character stands for two readings, and the second leaves `after` unread
behind what the first leaves. -/
def ReadsBefore (after : List UInt8) (alone whole : Reading × List UInt8) : Prop :=
  Reading.char whole.1 = Reading.char alone.1 ∧ whole.2 = alone.2 ++ after

/-- Bytes that cannot continue a character. -/
def StartsPlain (bytes : List UInt8) : Prop :=
  ∀ byte ∈ bytes.head?, byte.toNat < 0x80

section StartsPlain

variable {after : List UInt8} (hplain : StartsPlain after)

include hplain

theorem continuation_append (more code : Nat) (rest : List UInt8) :
    ReadsBefore after (continuation more code rest) (continuation more code (rest ++ after)) := by
  induction rest generalizing more code with
  | nil =>
      cases more with
      | zero => exact ⟨rfl, rfl⟩
      | succ more =>
          cases after with
          | nil => exact ⟨rfl, rfl⟩
          | cons byte after =>
              have hbyte : ¬ (0x80 ≤ byte.toNat ∧ byte.toNat ≤ 0xBF) := by
                have := hplain byte rfl
                omega
              rw [List.nil_append, continuation, continuation, if_neg hbyte]
              exact ⟨rfl, rfl⟩
  | cons byte rest ih =>
      cases more with
      | zero => exact ⟨rfl, rfl⟩
      | succ more =>
          rw [List.cons_append, continuation, continuation]
          split
          · exact ih more _
          · exact ⟨rfl, rfl⟩

theorem afterLead_append {lead : Lead} (hlow : 0x80 ≤ lead.low) (rest : List UInt8) :
    ReadsBefore after (afterLead lead rest) (afterLead lead (rest ++ after)) := by
  cases rest with
  | nil =>
      cases after with
      | nil => exact ⟨rfl, rfl⟩
      | cons byte after =>
          have hbyte : ¬ (lead.low ≤ byte.toNat ∧ byte.toNat ≤ lead.high) := by
            have := hplain byte rfl
            omega
          rw [List.nil_append, afterLead, afterLead, if_neg hbyte]
          exact ⟨rfl, rfl⟩
  | cons byte rest =>
      rw [List.cons_append, afterLead, afterLead]
      split
      · exact continuation_append hplain _ _ rest
      · exact ⟨rfl, rfl⟩

theorem readChar_append (byte : UInt8) (rest : List UInt8) :
    ReadsBefore after (readChar byte rest) (readChar byte (rest ++ after)) := by
  unfold readChar
  split
  · exact ⟨rfl, rfl⟩
  · split
    · exact ⟨rfl, rfl⟩
    · rename_i lead hlead
      exact afterLead_append hplain (low_of_lead? hlead) rest

/-- What is damaged at the end of some bytes stays so when plain bytes follow, and
the damage takes none of them. -/
theorem decode_append (before : List UInt8) :
    decode (before ++ after) = decode before ++ decode after := by
  induction hlength : before.length using Nat.strongRecOn generalizing before with
  | _ length ih =>
      cases before with
      | nil => rw [decode_nil, List.nil_append, List.nil_append]
      | cons byte rest =>
          obtain ⟨hchar, hrest⟩ := readChar_append hplain byte rest
          have hshorter : (readChar byte rest).2.length < length := by
            have := length_readChar byte rest
            rw [← hlength, List.length_cons]
            omega
          rw [List.cons_append, decode_cons, decode_cons, hchar, hrest, ih _ hshorter _ rfl,
            List.cons_append]

end StartsPlain

end Utf8

namespace Encoding

/-! ## One break -/

def isBreakByte (byte : UInt8) : Bool :=
  byte == 0x0A || byte == 0x0D

def isBreak (char : Char) : Bool :=
  char == '\n' || char == '\r'

/-- A way of reading bytes in which a line break stands for itself and the bytes on
either side of it are read on their own. -/
structure ReadsBreaks (read : List UInt8 → List Char) : Prop where
  nil_eq : read [] = []
  append_eq : ∀ (before : List UInt8) (byte : UInt8) (after : List UInt8),
    isBreakByte byte = true →
      read (before ++ byte :: after) = read before ++ Char.ofNat byte.toNat :: read after

theorem toNat_lt_of_isBreakByte {byte : UInt8} (hbreak : isBreakByte byte = true) :
    byte.toNat < 0x80 := by
  simp only [isBreakByte, Bool.or_eq_true, beq_iff_eq] at hbreak
  rcases hbreak with rfl | rfl <;> decide

theorem isBreak_of_isBreakByte {byte : UInt8} (hbreak : isBreakByte byte = true) :
    isBreak (Char.ofNat byte.toNat) = true := by
  simp only [isBreakByte, Bool.or_eq_true, beq_iff_eq] at hbreak
  rcases hbreak with rfl | rfl <;> decide

theorem readsBreaks_utf8 : ReadsBreaks Utf8.decode where
  nil_eq := Utf8.decode_nil
  append_eq before byte after hbreak := by
    have hlow := toNat_lt_of_isBreakByte hbreak
    have hplain : Utf8.StartsPlain (byte :: after) := by
      intro first hfirst
      obtain rfl : byte = first := by simpa using hfirst
      exact hlow
    have hread : Utf8.readChar byte after = (.ok (Char.ofNat byte.toNat), after) := by
      rw [Utf8.readChar, if_pos hlow]
    rw [Utf8.decode_append hplain, Utf8.decode_cons, hread]
    rfl

/-- Encodings of one byte a character read every byte on its own. -/
theorem readsBreaks_map {charOf : UInt8 → Char}
    (hcharOf : ∀ byte, isBreakByte byte = true → charOf byte = Char.ofNat byte.toNat) :
    ReadsBreaks (List.map charOf) where
  nil_eq := List.map_nil
  append_eq before byte after hbreak := by
    rw [List.map_append, List.map_cons, hcharOf byte hbreak]

theorem readsBreaks_latin1 : ReadsBreaks (decodeChars .latin1) :=
  readsBreaks_map fun _ _ => rfl

theorem readsBreaks_ascii : ReadsBreaks (decodeChars .ascii) := by
  apply readsBreaks_map
  intro byte hbreak
  rw [asciiChar, if_pos (toNat_lt_of_isBreakByte hbreak)]

end Encoding

/-! ## Other line ends -/

/-- A line end that can stand in the place of a line feed. -/
inductive LineEnd where
  | carriageReturnLineFeed
  | carriageReturn
deriving DecidableEq

namespace LineEnd

def bytes : LineEnd → List UInt8
  | carriageReturnLineFeed => [0x0D, 0x0A]
  | carriageReturn => [0x0D]

theorem exists_bytes_eq_cons (ending : LineEnd) : ∃ tail, ending.bytes = 0x0D :: tail := by
  cases ending with
  | carriageReturnLineFeed => exact ⟨[0x0A], rfl⟩
  | carriageReturn => exact ⟨[], rfl⟩

/-- Puts a line end in the place of every line feed. -/
def convert (ending : LineEnd) (content : List UInt8) : List UInt8 :=
  content.flatMap fun byte => if byte = 0x0A then ending.bytes else [byte]

theorem convert_cons_lineFeed (ending : LineEnd) (rest : List UInt8) :
    ending.convert (0x0A :: rest) = ending.bytes ++ ending.convert rest := rfl

theorem convert_cons_other (ending : LineEnd) {byte : UInt8} (hbyte : byte ≠ 0x0A)
    (rest : List UInt8) : ending.convert (byte :: rest) = byte :: ending.convert rest := by
  rw [convert, List.flatMap_cons, if_neg hbyte]
  rfl

theorem convert_append (ending : LineEnd) (left right : List UInt8) :
    ending.convert (left ++ right) = ending.convert left ++ ending.convert right :=
  List.flatMap_append

section Solid

/-! Bytes without a line break, such as those of a byte order mark. -/

variable {word : List UInt8} (hword : ∀ byte ∈ word, Encoding.isBreakByte byte = false)

include hword

theorem convert_eq_self (ending : LineEnd) : ending.convert word = word := by
  induction word with
  | nil => rfl
  | cons byte rest ih =>
      obtain ⟨hbyte, hrest⟩ := List.forall_mem_cons.mp hword
      have hother : byte ≠ 0x0A := by
        rintro rfl
        cases hbyte
      rw [convert_cons_other ending hother, ih hrest]

/-- The word is in the same relation to a text with other line ends: what differs
does so only behind the first line feed. -/
theorem isPrefixOf_convert (ending : LineEnd) (content : List UInt8) :
    word.isPrefixOf (ending.convert content) = word.isPrefixOf content ∧
      (ending.convert content).isPrefixOf word = content.isPrefixOf word := by
  induction word generalizing content with
  | nil =>
      cases content with
      | nil => exact ⟨rfl, rfl⟩
      | cons byte rest =>
          by_cases hbyte : byte = 0x0A
          · subst hbyte
            obtain ⟨tail, hbytes⟩ := ending.exists_bytes_eq_cons
            rw [convert_cons_lineFeed, hbytes]
            exact ⟨rfl, rfl⟩
          · rw [convert_cons_other ending hbyte]
            exact ⟨rfl, rfl⟩
  | cons first word ih =>
      obtain ⟨hfirst, hword⟩ := List.forall_mem_cons.mp hword
      cases content with
      | nil => exact ⟨rfl, rfl⟩
      | cons byte rest =>
          by_cases hbyte : byte = 0x0A
          · subst hbyte
            simp only [Encoding.isBreakByte, Bool.or_eq_false_iff, beq_eq_false_iff_ne] at hfirst
            obtain ⟨tail, hbytes⟩ := ending.exists_bytes_eq_cons
            rw [convert_cons_lineFeed, hbytes, List.cons_append]
            simp only [List.isPrefixOf_cons_cons, beq_false_of_ne hfirst.1,
              beq_false_of_ne hfirst.2, beq_false_of_ne hfirst.1.symm,
              beq_false_of_ne hfirst.2.symm, Bool.false_and, and_self]
          · simp only [convert_cons_other ending hbyte, List.isPrefixOf_cons_cons,
              (ih hword rest).1, (ih hword rest).2, and_self]

end Solid

end LineEnd

namespace Encoding

open Text LineEnd

theorem ReadsBreaks.parts_append {read : List UInt8 → List Char} (hread : ReadsBreaks read)
    {byte : UInt8} (hbreak : isBreakByte byte = true) (before after : List UInt8) :
    parts isBreak (read (before ++ byte :: after)) =
      parts isBreak (read before) ++ parts isBreak (read after) := by
  rw [hread.append_eq before byte after hbreak,
    parts_append_cons (isBreak_of_isBreakByte hbreak)]

theorem ReadsBreaks.parts_append_bytes {read : List UInt8 → List Char} (hread : ReadsBreaks read)
    (ending : LineEnd) (before after : List UInt8) :
    parts isBreak (read (before ++ (ending.bytes ++ after))) =
      parts isBreak (read before) ++ parts isBreak (read after) := by
  cases ending with
  | carriageReturn => exact hread.parts_append (by decide) before after
  | carriageReturnLineFeed =>
      have hfeed : parts isBreak (read (0x0A :: after)) = parts isBreak (read after) := by
        have hnothing : parts isBreak (read []) = [] := by
          rw [hread.nil_eq]
          rfl
        have hbreak : isBreakByte 0x0A = true := by decide
        simpa [hnothing] using hread.parts_append hbreak [] after
      rw [bytes, List.cons_append, List.singleton_append,
        hread.parts_append (by decide) before, hfeed]

/-- Whichever line end is used, the same lines are read.  The induction goes through
the file with what stands in front of the next line end. -/
theorem ReadsBreaks.parts_convert {read : List UInt8 → List Char} (hread : ReadsBreaks read)
    (ending : LineEnd) (content before : List UInt8) :
    parts isBreak (read (before ++ ending.convert content)) =
      parts isBreak (read (before ++ content)) := by
  induction content generalizing before with
  | nil => rfl
  | cons byte rest ih =>
      by_cases hbyte : byte = 0x0A
      · subst hbyte
        have hrest : parts isBreak (read (ending.convert rest)) = parts isBreak (read rest) := ih []
        rw [convert_cons_lineFeed, hread.parts_append_bytes, hrest,
          hread.parts_append (by decide) before rest]
      · have hlater := ih (before ++ [byte])
        rw [convert_cons_other ending hbyte]
        simpa using hlater

/-- A byte order mark holds no line feed, and a line feed ends the search for it. -/
theorem dropMark_convert (ending : LineEnd) (content : List UInt8) :
    dropMark (ending.convert content) = ending.convert (dropMark content) := by
  have hmark : ∀ byte ∈ byteOrderMark, isBreakByte byte = false := by
    simp [byteOrderMark, isBreakByte]
  obtain ⟨hbehind, hwithin⟩ := isPrefixOf_convert hmark ending content
  rw [dropMark, dropMark, hbehind, hwithin]
  split
  · rfl
  · split
    · rename_i hprefix
      obtain ⟨rest, rfl⟩ := List.isPrefixOf_iff_prefix.mp hprefix
      rw [convert_append, convert_eq_self hmark, List.drop_left, List.drop_left]
    · rfl

theorem parts_decodeChars_convert (encoding : Encoding) (ending : LineEnd)
    (content : List UInt8) :
    parts isBreak (encoding.decodeChars (ending.convert content)) =
      parts isBreak (encoding.decodeChars content) := by
  cases encoding with
  | utf8 => exact readsBreaks_utf8.parts_convert ending content []
  | utf8Signed =>
      rw [decodeChars, decodeChars, dropMark_convert]
      exact readsBreaks_utf8.parts_convert ending (dropMark content) []
  | latin1 => exact readsBreaks_latin1.parts_convert ending content []
  | ascii => exact readsBreaks_ascii.parts_convert ending content []

/-! ## Folded line ends -/

/-- Folding keeps the lines.  No carriage return is ever put behind what has been
read, so both ways of dividing agree there. -/
theorem parts_foldNewlinesOnto {done : List Char} (hdone : '\r' ∉ done) (text : List Char) :
    parts (· == '\n') (foldNewlinesOnto done text) = parts isBreak (done.reverse ++ text) := by
  fun_induction foldNewlinesOnto done text with
  | case1 done =>
      rw [List.append_nil]
      apply parts_congr
      intro char hchar
      have hreturn : char ≠ '\r' := by
        rintro rfl
        exact hdone (List.mem_reverse.mp hchar)
      simp [isBreak, hreturn]
  | case2 done rest ih =>
      rw [ih (by simpa using hdone), List.reverse_cons, List.append_assoc, List.singleton_append,
        parts_append_cons (by decide), parts_append_cons (by decide), parts_cons (by decide)]
  | case3 done rest _ ih =>
      rw [ih (by simpa using hdone), List.reverse_cons, List.append_assoc, List.singleton_append,
        parts_append_cons (by decide), parts_append_cons (by decide)]
  | case4 done char rest _ hreturn ih =>
      have hchar : '\r' ∉ char :: done := by
        rw [List.mem_cons, not_or]
        exact ⟨fun heq => hreturn heq.symm, hdone⟩
      rw [ih hchar, List.reverse_cons, List.append_assoc, List.singleton_append]

theorem parts_foldNewlines (text : List Char) :
    parts (· == '\n') (foldNewlines text) = parts isBreak text :=
  parts_foldNewlinesOnto List.not_mem_nil text

/-- The scanner does not see which line ends a file has. -/
theorem ofText_decode_convert (encoding : Encoding) (ending : LineEnd) (content : List UInt8) :
    Scanner.ofText (encoding.decode (ending.convert content)) =
      Scanner.ofText (encoding.decode content) := by
  have hscanner : ∀ content, Scanner.ofText (encoding.decode content) =
      ({} : Scanner).feedLines
        ((parts isBreak (encoding.decodeChars content)).map String.ofList) := by
    intro content
    rw [Scanner.ofText_eq_feedLines_parts, decode, String.toList_ofList, parts_foldNewlines]
  rw [hscanner, hscanner, parts_decodeChars_convert]

end Encoding

end SqlReach
