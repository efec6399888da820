import GrammarTypes.Decode.Lexeme
import GrammarTypes.Text.Literal

/-!
# String literals read back

The escape of a character is read as that character by the reader of strings, whatever follows it
(`readChars_escape`). So a string literal is read as the text that it was written for, and the rest
after it is left (`readString_literal`). In particular the literal can be told from what follows.
-/

namespace GrammarTypes.Text

open Decode

/-! ## Hexadecimal units -/

/-- A digit is read as its value. -/
theorem hexValue?_digitChar : ∀ d < 16, hexValue? (Nat.digitChar d) = some d := by decide

/-- A digit takes one byte. -/
theorem utf8Size_digitChar : ∀ d < 16, (Nat.digitChar d).utf8Size = 1 := by decide

/-- The four digits of a UTF-16 unit are read as the unit. -/
theorem hexUnit_hexDigits {unit : Nat} (h : unit < 0x10000) (rest : List Char) :
    hexUnit (hexDigits unit ++ rest) = .ok unit := by
  have h16 : ∀ m, m % 16 < 16 := fun m => Nat.mod_lt m (by decide)
  have htake : (hexDigits unit ++ rest).take 4 = hexDigits unit := rfl
  have hbytes : byteCount (hexDigits unit) = 4 := by
    simp [hexDigits, byteCount, utf8Size_digitChar, h16]
  have hvalues : (hexDigits unit).mapM hexValue? =
      some [unit / 4096 % 16, unit / 256 % 16, unit / 16 % 16, unit % 16] := by
    simp [hexDigits, hexValue?_digitChar, h16]
  have hunit : ((unit / 4096 % 16 * 16 + unit / 256 % 16) * 16 + unit / 16 % 16) * 16 + unit % 16 =
      unit := by omega
  unfold hexUnit
  rw [htake, hbytes, hvalues]
  simp [hunit]

/-! ## Escapes -/

/-- A character is no surrogate. -/
theorem toNat_lt_or_gt (c : Char) : c.toNat < 0xD800 ∨ 0xDFFF < c.toNat ∧ c.toNat < 0x110000 := by
  have hvalid := c.valid
  simp only [UInt32.isValidChar, Nat.isValidChar] at hvalid
  exact hvalid

/-- The characters of an escape that has been read are passed over. -/
theorem readChars_skip (read : List Char) : ∀ (taken rest : List Char),
    readChars read taken.length (taken ++ rest) = readChars read 0 rest
  | [], _ => rfl
  | _ :: taken, rest => readChars_skip read taken rest

/-- An escape of which the first characters are a backslash is read as its character. -/
theorem readChars_backslash (read taken : List Char) {c : Char} {rest : List Char}
    (h : unescape (taken ++ rest) = .ok (c, taken.length)) :
    readChars read 0 ('\\' :: (taken ++ rest)) = readChars (c :: read) 0 rest := by
  rw [readChars, h]
  exact readChars_skip (c :: read) taken rest

/-- The unit of a character up to `U+FFFF` is read as the character. -/
theorem unescape_unit {c : Char} (hc : c.toNat < 0x10000) (rest : List Char) :
    unescape ('u' :: (hexDigits c.toNat ++ rest)) = .ok (c, 5) := by
  have hsurrogate := toNat_lt_or_gt c
  have htrailing : isTrailing c.toNat = false := by
    simp only [isTrailing, Bool.and_eq_false_iff, decide_eq_false_iff_not]
    omega
  have hleading : isLeading c.toNat = false := by
    simp only [isLeading, Bool.and_eq_false_iff, decide_eq_false_iff_not]
    omega
  unfold unescape
  simp only [hexUnit_hexDigits hc]
  simp [Bind.bind, Except.bind, htrailing, hleading, Pure.pure, Except.pure]

/-- A surrogate pair is read as the character that its two units make. -/
theorem unescape_pair {lead trail : Nat} (hlead : isLeading lead = true)
    (htrail : isTrailing trail = true) (rest : List Char) :
    unescape ('u' :: (hexDigits lead ++ '\\' :: 'u' :: (hexDigits trail ++ rest))) =
      .ok (Char.ofNat (0x10000 + (lead - 0xD800) * 0x400 + (trail - 0xDC00)), 11) := by
  have hranges : (0xD800 ≤ lead ∧ lead ≤ 0xDBFF) ∧ 0xDC00 ≤ trail ∧ trail ≤ 0xDFFF := by
    simpa [isLeading, isTrailing] using And.intro hlead htrail
  have hlead16 : lead < 0x10000 := by omega
  have htrail16 : trail < 0x10000 := by omega
  have hnot : isTrailing lead = false := by
    simp only [isTrailing, Bool.and_eq_false_iff, decide_eq_false_iff_not]
    omega
  have hpaired : pairedChar lead ('\\' :: 'u' :: (hexDigits trail ++ rest)) =
      .ok (Char.ofNat (0x10000 + (lead - 0xD800) * 0x400 + (trail - 0xDC00))) := by
    unfold pairedChar
    simp only [hexUnit_hexDigits htrail16]
    simp [Bind.bind, Except.bind, htrail, Pure.pure, Except.pure]
  have hdrop : (hexDigits lead ++ '\\' :: 'u' :: (hexDigits trail ++ rest)).drop 4 =
      '\\' :: 'u' :: (hexDigits trail ++ rest) := rfl
  unfold unescape
  simp only [hexUnit_hexDigits hlead16, hdrop]
  simp [Bind.bind, Except.bind, hnot, hlead, hpaired, Pure.pure, Except.pure]

/-- The units of a character are read as the character. -/
theorem readChars_units (read : List Char) (c : Char) (rest : List Char) :
    readChars read 0 (((units c).flatMap fun unit => '\\' :: 'u' :: hexDigits unit) ++ rest) =
      readChars (c :: read) 0 rest := by
  unfold units
  split
  · next hc =>
    rw [List.flatMap_singleton]
    exact readChars_backslash read ('u' :: hexDigits c.toNat) (unescape_unit hc rest)
  · next hc =>
    -- Above `U+FFFF` the two units are a surrogate pair, and the pair makes the character again.
    have hvalid := toNat_lt_or_gt c
    generalize hlead : 0xD800 + (c.toNat - 0x10000) / 0x400 = lead
    generalize htrail : 0xDC00 + (c.toNat - 0x10000) % 0x400 = trail
    have hleading : isLeading lead = true := by
      simp only [isLeading, Bool.and_eq_true, decide_eq_true_eq]
      omega
    have htrailing : isTrailing trail = true := by
      simp only [isTrailing, Bool.and_eq_true, decide_eq_true_eq]
      omega
    have hjoined : 0x10000 + (lead - 0xD800) * 0x400 + (trail - 0xDC00) = c.toNat := by omega
    have hread := unescape_pair hleading htrailing rest
    rw [hjoined, Char.ofNat_toNat] at hread
    have htaken : 'u' :: (hexDigits lead ++ '\\' :: 'u' :: (hexDigits trail ++ rest)) =
        ('u' :: (hexDigits lead ++ '\\' :: 'u' :: hexDigits trail)) ++ rest := by simp
    rw [htaken] at hread
    exact readChars_backslash read ('u' :: (hexDigits lead ++ '\\' :: 'u' :: hexDigits trail)) hread

/-- The escape of a character is read as the character. -/
theorem readChars_escape (read : List Char) (c : Char) (rest : List Char) :
    readChars read 0 (escape c ++ rest) = readChars (c :: read) 0 rest := by
  unfold escape
  split
  case h_8 hquote hbackslash _ _ _ _ _ =>
    split
    · exact readChars_units read c rest
    · next hrange =>
      rw [List.singleton_append, readChars]
      · exact if_neg fun hcontrol => hrange (.inl hcontrol)
      · exact hquote
      · exact hbackslash
  -- The two-character escapes.
  all_goals rfl

/-! ## Literals -/

/-- A string literal has its escapes between quotes. -/
theorem toList_literal (value : String) :
    (literal value).toList = '"' :: (value.toList.flatMap escape ++ ['"']) :=
  String.toList_ofList

/-- The escapes of characters are read up to the closing quote. -/
theorem readChars_flatMap_escape (rest : List Char) : ∀ cs read : List Char,
    readChars read 0 (cs.flatMap escape ++ '"' :: rest) =
      .ok (String.ofList (read.reverse ++ cs), rest)
  | [], read => by
    rw [List.append_nil]
    rfl
  | c :: cs, read => by
    rw [List.flatMap_cons, List.append_assoc, readChars_escape, readChars_flatMap_escape rest cs,
      List.reverse_cons, List.append_assoc, List.singleton_append]

/-- What follows the opening quote of a string literal is read as its text, and the rest is left. -/
theorem readString_literal (value : String) (rest : List Char) :
    readString (value.toList.flatMap escape ++ '"' :: rest) = .ok (value, rest) := by
  rw [readString, readChars_flatMap_escape, List.reverse_nil, List.nil_append,
    String.ofList_toList]

/-- A string literal can be told from what follows it. -/
theorem literal_append_inj {v w : String} {r s : List Char}
    (h : (literal v).toList ++ r = (literal w).toList ++ s) : v = w ∧ r = s := by
  simp only [toList_literal, List.cons_append, List.append_assoc, List.nil_append] at h
  have hread := readString_literal v r
  rw [(List.cons.inj h).2, readString_literal] at hread
  obtain ⟨hvalue, hrest⟩ := Prod.mk.inj (Except.ok.inj hread)
  exact ⟨hvalue.symm, hrest.symm⟩

end GrammarTypes.Text
