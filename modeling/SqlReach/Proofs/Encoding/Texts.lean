import SqlReach.Proofs.Encoding.Characters

/-!
# Written texts

A text that is written in an encoding is read back, with a line feed for each of its
line ends and without a byte order mark where the encoding takes it for one.  A line
feed divides a file: what stands in front of it and what stands behind it are read on
their own, whatever the bytes are, unless the line feed belongs to a carriage return or
what stands in front of it is taken for an unfinished mark.
-/

namespace SqlReach

namespace Text

/-! ## Line ends -/

/-- The text with a line feed in the place of every carriage return, alone or before a
line feed. -/
def withLineFeeds : List Char → List Char
  | [] => []
  | '\r' :: '\n' :: rest => '\n' :: withLineFeeds rest
  | '\r' :: rest => '\n' :: withLineFeeds rest
  | char :: rest => char :: withLineFeeds rest

theorem withLineFeeds_cons {char : Char} (hchar : char ≠ '\r') (rest : List Char) :
    withLineFeeds (char :: rest) = char :: withLineFeeds rest := by
  rw [withLineFeeds]
  · intro later hreturn _
    exact hchar hreturn
  · exact hchar

theorem withLineFeeds_return {rest : List Char} (hrest : rest.head? ≠ some '\n') :
    withLineFeeds ('\r' :: rest) = '\n' :: withLineFeeds rest := by
  rw [withLineFeeds]
  rintro later rfl
  exact hrest rfl

theorem head?_ne_of_ne_cons {first : Char} {rest : List Char}
    (hrest : ∀ later, rest = first :: later → False) : rest.head? ≠ some first := by
  intro hhead
  obtain ⟨later, hlater⟩ := List.head?_eq_some_iff.mp hhead
  exact hrest later hlater

/-- A line feed that belongs to no carriage return divides a text. -/
theorem withLineFeeds_append {before : List Char} (hend : before.getLast? ≠ some '\r')
    (after : List Char) :
    withLineFeeds (before ++ '\n' :: after) =
      withLineFeeds before ++ '\n' :: withLineFeeds after := by
  fun_induction withLineFeeds before with
  | case1 => exact withLineFeeds_cons (by decide) after
  | case2 rest ih =>
      have hrest : rest.getLast? ≠ some '\r' := by
        cases rest with
        | nil => nofun
        | cons first rest => simpa using hend
      rw [List.cons_append, List.cons_append, withLineFeeds, ih hrest, List.cons_append]
  | case3 rest hnext ih =>
      cases rest with
      | nil => exact absurd rfl hend
      | cons first rest =>
          have hfirst : (first :: rest ++ '\n' :: after).head? ≠ some '\n' :=
            fun hhead => head?_ne_of_ne_cons hnext hhead
          rw [List.cons_append, withLineFeeds_return hfirst, ih (by simpa using hend),
            List.cons_append]
  | case4 char rest hpair hreturn ih =>
      have hrest : rest.getLast? ≠ some '\r' := by
        cases rest with
        | nil => nofun
        | cons first rest => simpa using hend
      rw [List.cons_append, withLineFeeds_cons hreturn, ih hrest, List.cons_append]

/-- Every carriage return of the text stands before a line feed. -/
def ReturnsEndLines (text : List Char) : Prop :=
  ∀ index < text.length, text[index]? = some '\r' → text[index + 1]? = some '\n'

instance (text : List Char) : Decidable (ReturnsEndLines text) :=
  inferInstanceAs (Decidable (∀ index < text.length, _ → _))

theorem ReturnsEndLines.of_cons {char : Char} {rest : List Char}
    (hreturns : ReturnsEndLines (char :: rest)) : ReturnsEndLines rest := by
  intro index hindex hreturn
  exact hreturns (index + 1) (Nat.succ_lt_succ hindex) hreturn

/-- A line without the carriage return at its end. -/
def withoutReturn (line : List Char) : List Char :=
  if line.getLast? = some '\r' then line.dropLast else line

theorem withoutReturn_cons {char : Char} (hchar : char ≠ '\r') (line : List Char) :
    withoutReturn (char :: line) = char :: withoutReturn line := by
  cases line with
  | nil => simp [withoutReturn, hchar]
  | cons first line =>
      rw [withoutReturn, withoutReturn, List.getLast?_cons_cons]
      split
      · rfl
      · rfl

/-- Then the lines are the same, carriage returns at their ends aside. -/
theorem splitOn_withLineFeeds {text : List Char} (hreturns : ReturnsEndLines text) :
    (withLineFeeds text).splitOn '\n' = (text.splitOn '\n').map withoutReturn := by
  simp only [List.splitOn_eq_splitOnP]
  fun_induction withLineFeeds text with
  | case1 => rfl
  | case2 rest ih =>
      rw [List.splitOnP_cons_eq_if_modifyHead, List.splitOnP_cons_eq_if_modifyHead,
        List.splitOnP_cons_eq_if_modifyHead, ih hreturns.of_cons.of_cons]
      rfl
  | case3 rest hnext ih =>
      have hhead := hreturns 0 (Nat.succ_pos _) rfl
      cases rest with
      | nil => cases hhead
      | cons first rest =>
          cases hhead
          exact absurd rfl (hnext rest)
  | case4 char rest hpair hreturn ih =>
      rw [List.splitOnP_cons_eq_if_modifyHead, List.splitOnP_cons_eq_if_modifyHead,
        ih hreturns.of_cons]
      split
      · rfl
      · obtain ⟨line, lines, hlines⟩ :=
          List.exists_cons_of_ne_nil (List.splitOnP_ne_nil (· == '\n') rest)
        rw [hlines, List.map_cons, List.modifyHead_cons, List.modifyHead_cons, List.map_cons,
          withoutReturn_cons hreturn]

end Text

namespace Encoding

open Text

theorem foldNewlinesOnto_eq (done text : List Char) :
    foldNewlinesOnto done text = done.reverse ++ withLineFeeds text := by
  fun_induction foldNewlinesOnto done text with
  | case1 done => rw [withLineFeeds, List.append_nil]
  | case2 done rest ih =>
      rw [ih, withLineFeeds, List.reverse_cons, List.append_assoc]
      rfl
  | case3 done rest hnext ih =>
      rw [ih, withLineFeeds_return (head?_ne_of_ne_cons hnext), List.reverse_cons,
        List.append_assoc]
      rfl
  | case4 done char rest hpair hreturn ih =>
      rw [ih, withLineFeeds_cons hreturn, List.reverse_cons, List.append_assoc]
      rfl

theorem decode_eq (encoding : Encoding) (bytes : List UInt8) :
    encoding.decode bytes = String.ofList (withLineFeeds (encoding.decodeChars bytes)) := by
  rw [decode, foldNewlines, foldNewlinesOnto_eq, List.reverse_nil, List.nil_append]

/-! ## Writing and reading -/

/-- The bytes of a text, one for each character, if its characters are below a limit. -/
def singleBytes? (limit : Nat) (text : List Char) : Option (List UInt8) :=
  if ∀ char ∈ text, char.toNat < limit then some (text.map fun char => UInt8.ofNat char.toNat)
  else none

/-- The bytes of a text in an encoding.  A byte order mark is one of its characters. -/
def write? : Encoding → String → Option (List UInt8)
  | utf8, text | utf8Signed, text => some (Utf8.encode text)
  | latin1, text => singleBytes? 0x100 text.toList
  | ascii, text => singleBytes? 0x80 text.toList

/-- The text without the character that an encoding takes for a byte order mark. -/
def unmarked : Encoding → List Char → List Char
  | utf8Signed, '\uFEFF' :: rest => rest
  | _, text => text

theorem map_of_singleBytes? {limit : Nat} {text : List Char} {bytes : List UInt8}
    {charOf : UInt8 → Char} (hbytes : singleBytes? limit text = some bytes)
    (hcharOf : ∀ char : Char, char.toNat < limit → charOf (UInt8.ofNat char.toNat) = char) :
    bytes.map charOf = text := by
  unfold singleBytes? at hbytes
  split at hbytes
  · rename_i hrange
    obtain rfl := Option.some.inj hbytes
    calc
      (text.map fun char => UInt8.ofNat char.toNat).map charOf =
          text.map fun char => charOf (UInt8.ofNat char.toNat) := List.map_map
      _ = text.map id := List.map_congr_left fun char hchar => hcharOf char (hrange char hchar)
      _ = text := List.map_id text
  · cases hbytes

theorem ofNat_toNat_ofNat {char : Char} (hchar : char.toNat < 0x100) :
    Char.ofNat (UInt8.ofNat char.toNat).toNat = char := by
  rw [Utf8.toNat_ofNat_of_lt hchar, Char.ofNat_toNat]

theorem asciiChar_ofNat {char : Char} (hchar : char.toNat < 0x80) :
    asciiChar (UInt8.ofNat char.toNat) = char := by
  have hbyte : (UInt8.ofNat char.toNat).toNat = char.toNat := Utf8.toNat_ofNat_of_lt (by omega)
  rw [asciiChar, hbyte, if_pos hchar, Char.ofNat_toNat]

/-- A part of the mark is not the beginning of any text but the mark itself. -/
theorem eq_mark_of_prefix {chars : List Char}
    (hbegins : chars.flatMap String.utf8EncodeChar <+: byteOrderMark) :
    chars = [] ∨ chars = ['\uFEFF'] := by
  have hdecode := Utf8.decode_flatMap_utf8EncodeChar chars
  have hparts : chars.flatMap String.utf8EncodeChar ∈
      [[], [0xEF], [0xEF, 0xBB], byteOrderMark] := by
    rw [List.prefix_iff_eq_take.mp hbegins]
    generalize (chars.flatMap String.utf8EncodeChar).length = length
    rcases length with _ | _ | _ | length <;> simp [byteOrderMark]
  simp only [List.mem_cons, List.not_mem_nil, or_false] at hparts
  -- The bytes are those of a part of the mark, and the characters are read off these.
  rcases hparts with hbytes | hbytes | hbytes | hbytes
  · left
    rw [← hdecode, hbytes, Utf8.decode_nil]
  · have hchars : chars = [Utf8.replacement] := by
      rw [← hdecode, hbytes]
      decide +kernel
    rw [hchars] at hbytes
    exact absurd hbytes (by decide +kernel)
  · have hchars : chars = [Utf8.replacement] := by
      rw [← hdecode, hbytes]
      decide +kernel
    rw [hchars] at hbytes
    exact absurd hbytes (by decide +kernel)
  · right
    rw [← hdecode, hbytes]
    decide +kernel

theorem decode_dropMark (chars : List Char) :
    Utf8.decode (dropMark (chars.flatMap String.utf8EncodeChar)) = unmarked .utf8Signed chars := by
  have hdecode := Utf8.decode_flatMap_utf8EncodeChar chars
  rw [dropMark]
  split
  · rename_i hpart
    rcases eq_mark_of_prefix (List.isPrefixOf_iff_prefix.mp hpart) with rfl | rfl
    · exact Utf8.decode_nil
    · exact Utf8.decode_nil
  · split
    · rename_i hmark
      obtain ⟨rest, hrest⟩ := List.isPrefixOf_iff_prefix.mp hmark
      have hfirst : byteOrderMark = String.utf8EncodeChar '\uFEFF' := by decide
      rw [← hrest, List.drop_left]
      rw [← hrest, hfirst, Utf8.decode_utf8EncodeChar_append] at hdecode
      rw [← hdecode]
      rfl
    · rename_i hmark
      rw [hdecode]
      cases chars with
      | nil => rfl
      | cons char chars =>
          have hchar : char ≠ '\uFEFF' := by
            rintro rfl
            apply hmark
            exact List.isPrefixOf_iff_prefix.mpr (List.prefix_append _ _)
          unfold unmarked
          split
          · rename_i heq
            cases heq
            exact absurd rfl hchar
          · rfl

/-- What is written in an encoding is read back, a leading mark aside. -/
theorem decodeChars_of_write? {encoding : Encoding} {text : String} {bytes : List UInt8}
    (hwrite : encoding.write? text = some bytes) :
    encoding.decodeChars bytes = encoding.unmarked text.toList := by
  cases encoding with
  | utf8 =>
      obtain rfl := Option.some.inj hwrite
      exact Utf8.decode_flatMap_utf8EncodeChar text.toList
  | utf8Signed =>
      obtain rfl := Option.some.inj hwrite
      exact decode_dropMark text.toList
  | latin1 => exact map_of_singleBytes? hwrite fun char => ofNat_toNat_ofNat
  | ascii => exact map_of_singleBytes? hwrite fun char => asciiChar_ofNat

/-! ## Dividing a file -/

theorem eq_return_of_ofNat {byte : UInt8} (hbyte : Char.ofNat byte.toNat = '\r') :
    byte = 0x0D := by
  have hcode := congrArg Char.toNat hbyte
  have hvalid : byte.toNat.isValidChar := Or.inl (by have := byte.toNat_lt; omega)
  rw [Char.toNat_ofNat, if_pos hvalid] at hcode
  exact UInt8.toNat_inj.mp hcode

theorem eq_return_of_asciiChar {byte : UInt8} (hbyte : asciiChar byte = '\r') : byte = 0x0D := by
  unfold asciiChar at hbyte
  split at hbyte
  · exact eq_return_of_ofNat hbyte
  · exact absurd hbyte (by decide)

/-- A carriage return at the end of what is read is one at the end of the bytes. -/
def EndsReturns (read : List UInt8 → List Char) : Prop :=
  ∀ bytes, (read bytes).getLast? = some '\r' → bytes.getLast? = some 0x0D

theorem endsReturns_utf8 : EndsReturns Utf8.decode :=
  fun _ hlast => Utf8.getLast?_of_decode (by decide) hlast

theorem endsReturns_map {charOf : UInt8 → Char}
    (hcharOf : ∀ byte, charOf byte = '\r' → byte = 0x0D) : EndsReturns (List.map charOf) := by
  intro bytes hlast
  rw [List.getLast?_map] at hlast
  obtain ⟨byte, hbyte, hreturn⟩ := Option.map_eq_some_iff.mp hlast
  rw [hbyte, hcharOf byte hreturn]

/-- A line feed divides what is read if it divides the bytes. -/
theorem ReadsBreaks.withLineFeeds_append {read : List UInt8 → List Char}
    (hread : ReadsBreaks read) (hends : EndsReturns read) {before : List UInt8}
    (hbefore : before.getLast? ≠ some 0x0D) (after : List UInt8) :
    withLineFeeds (read (before ++ 0x0A :: after)) =
      withLineFeeds (read before) ++ '\n' :: withLineFeeds (read after) := by
  have hlast : (read before).getLast? ≠ some '\r' := fun hreturn => hbefore (hends _ hreturn)
  rw [hread.append_eq before 0x0A after (by decide)]
  exact Text.withLineFeeds_append hlast _

theorem ofList_append_lineFeed (before after : List Char) :
    String.ofList (before ++ '\n' :: after) =
      String.ofList before ++ "\n" ++ String.ofList after := by
  rw [List.append_cons, String.ofList_append, String.ofList_append]

/-- The mark ends in front of the line feed, and only an unfinished mark is no text
without the line feed and a text with it. -/
theorem dropMark_append_lineFeed {before : List UInt8} (hfirst : before ≠ [0xEF])
    (hsecond : before ≠ [0xEF, 0xBB]) (after : List UInt8) :
    dropMark (before ++ 0x0A :: after) = dropMark before ++ 0x0A :: after := by
  rcases before with _ | ⟨first, _ | ⟨second, _ | ⟨third, rest⟩⟩⟩
  · rfl
  · have hpart : first ≠ 0xEF := by simpa using hfirst
    simp [dropMark, byteOrderMark, hpart]
  · have hpart : ¬ (first = 0xEF ∧ second = 0xBB) := by simpa using hsecond
    simp [dropMark, byteOrderMark, hpart]
  · by_cases hmark : first = 0xEF ∧ second = 0xBB ∧ third = 0xBF
    · obtain ⟨rfl, rfl, rfl⟩ := hmark
      cases rest with
      | nil => rfl
      | cons fourth rest => rfl
    · have hnone : ∀ later, dropMark (first :: second :: third :: later) =
          first :: second :: third :: later := by
        intro later
        rw [dropMark, if_neg, if_neg]
        · intro hbehind
          simp only [byteOrderMark, List.isPrefixOf_cons_cons, Bool.and_eq_true, beq_iff_eq]
            at hbehind
          exact hmark ⟨hbehind.1.symm, hbehind.2.1.symm, hbehind.2.2.1.symm⟩
        · intro hpart
          simp only [byteOrderMark, List.isPrefixOf_cons_cons, Bool.and_eq_true, beq_iff_eq]
            at hpart
          exact hmark ⟨hpart.1, hpart.2.1, hpart.2.2.1⟩
      rw [hnone, List.cons_append, List.cons_append, List.cons_append, hnone]

theorem dropMark_suffix (bytes : List UInt8) : dropMark bytes <:+ bytes := by
  rw [dropMark]
  split
  · exact List.nil_suffix
  split
  · exact List.drop_suffix _ _
  · exact List.suffix_refl _

section LineFeed

variable {before : List UInt8} (hbefore : before.getLast? ≠ some 0x0D)

include hbefore

theorem decode_append_lineFeed {encoding : Encoding} (hplain : encoding ≠ .utf8Signed)
    (after : List UInt8) :
    encoding.decode (before ++ 0x0A :: after) =
      encoding.decode before ++ "\n" ++ encoding.decode after := by
  have hread : ReadsBreaks encoding.decodeChars ∧ EndsReturns encoding.decodeChars := by
    cases encoding with
    | utf8 => exact ⟨readsBreaks_utf8, endsReturns_utf8⟩
    | utf8Signed => exact absurd rfl hplain
    | latin1 => exact ⟨readsBreaks_latin1, endsReturns_map fun _ => eq_return_of_ofNat⟩
    | ascii => exact ⟨readsBreaks_ascii, endsReturns_map fun _ => eq_return_of_asciiChar⟩
  rw [decode_eq, hread.1.withLineFeeds_append hread.2 hbefore, ofList_append_lineFeed,
    ← decode_eq, ← decode_eq]

theorem decode_signed_append_lineFeed (hfirst : before ≠ [0xEF])
    (hsecond : before ≠ [0xEF, 0xBB]) (after : List UInt8) :
    decode .utf8Signed (before ++ 0x0A :: after) =
      decode .utf8Signed before ++ "\n" ++ decode .utf8 after := by
  have hdropped : (dropMark before).getLast? ≠ some 0x0D :=
    fun hlast => hbefore (Utf8.getLast?_of_suffix (dropMark_suffix before) hlast)
  rw [decode_eq, decodeChars, dropMark_append_lineFeed hfirst hsecond,
    readsBreaks_utf8.withLineFeeds_append endsReturns_utf8 hdropped, ofList_append_lineFeed,
    decode_eq, decode_eq]
  rfl

end LineFeed

end Encoding

end SqlReach
