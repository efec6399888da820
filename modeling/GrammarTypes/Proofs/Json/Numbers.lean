import GrammarTypes.Decode.Skip
import GrammarTypes.Proofs.Json.Document
import GrammarTypes.Proofs.Outcome

/-!
# Numbers of documents

The reader of numbers takes the text of a number as its value, and refuses it where that is out of
range (`Numeral.toOption_readNumber`); to pass over a number no value is needed
(`Numeral.skipNumber_unsigned`). A number ends where something follows that cannot belong to it.
Neither gets through anything else: what was read or passed over is the text of a number
(`Numeral.exists_of_readNumber`, `Numeral.exists_of_skipNumber`).
-/

namespace GrammarTypes.Json

open Decode

/-! ## Digits -/

/-- A digit is one of ten characters. -/
theorem eq_of_isDigit {c : Char} (h : c.isDigit = true) :
    c = '0' ∨ c = '1' ∨ c = '2' ∨ c = '3' ∨ c = '4' ∨ c = '5' ∨ c = '6' ∨ c = '7' ∨ c = '8' ∨
      c = '9' := by
  simp only [Char.isDigit, Bool.and_eq_true, decide_eq_true_eq, ge_iff_le,
    UInt32.le_iff_toNat_le] at h
  have hlower : 48 ≤ c.toNat := h.1
  have hupper : c.toNat ≤ 57 := h.2
  simp only [← Char.toNat_inj]
  change c.toNat = 48 ∨ c.toNat = 49 ∨ c.toNat = 50 ∨ c.toNat = 51 ∨ c.toNat = 52 ∨ c.toNat = 53 ∨
    c.toNat = 54 ∨ c.toNat = 55 ∨ c.toNat = 56 ∨ c.toNat = 57
  omega

/-- What does not begin with a digit. -/
def EndsDigits (rest : List Char) : Prop :=
  ∀ c ∈ rest.head?, c.isDigit = false

theorem takeWhile_isDigit {rest : List Char} (h : EndsDigits rest) :
    rest.takeWhile Char.isDigit = [] := by
  cases rest with
  | nil => rfl
  | cons c rest => rw [List.takeWhile_cons, h c rfl]; rfl

theorem dropWhile_isDigit {rest : List Char} (h : EndsDigits rest) :
    rest.dropWhile Char.isDigit = rest := by
  cases rest with
  | nil => rfl
  | cons c rest => rw [List.dropWhile_cons, h c rfl]; rfl

namespace Digits

/-- Digits are read up to their end. -/
theorem takeWhile_append (ds : Digits) {rest : List Char} (h : EndsDigits rest) :
    (ds.chars ++ rest).takeWhile Char.isDigit = ds.chars := by
  rw [List.takeWhile_append_of_pos ds.digit, takeWhile_isDigit h, List.append_nil]

/-- After digits their rest is left. -/
theorem dropWhile_append (ds : Digits) {rest : List Char} (h : EndsDigits rest) :
    (ds.chars ++ rest).dropWhile Char.isDigit = rest := by
  rw [List.dropWhile_append_of_pos ds.digit, dropWhile_isDigit h]

/-- Digits begin with one. -/
theorem exists_eq_cons (ds : Digits) : ∃ c cs, ds.chars = c :: cs ∧ c.isDigit = true := by
  obtain ⟨c, cs, hcs⟩ := List.exists_cons_of_ne_nil ds.ne_nil
  exact ⟨c, cs, hcs, ds.digit c (by simp [hcs])⟩

/-- A text that begins with a digit begins with digits, up to one that follows them. -/
theorem exists_of_isDigit {c : Char} (h : c.isDigit = true) (s : List Char) :
    ∃ ds : Digits, ds.chars = (c :: s).takeWhile Char.isDigit ∧
      c :: s = ds.chars ++ (c :: s).dropWhile Char.isDigit := by
  refine ⟨⟨(c :: s).takeWhile Char.isDigit, ?_, ?_⟩, rfl, ?_⟩
  · rw [List.takeWhile_cons, h]
    exact List.cons_ne_nil _ _
  · exact List.all_eq_true.mp List.all_takeWhile
  · exact (List.takeWhile_append_dropWhile).symm

end Digits

/-- A number grows with its digits. -/
theorem le_extended (n : Nat) (ds : List Char) : n ≤ extended n ds := by
  induction ds generalizing n with
  | nil => exact Nat.le_refl n
  | cons d ds ih => exact Nat.le_trans (by omega) (ih (n * 10 + digitValue d))

/-- A significand takes all digits exactly if their number is not too large. -/
theorem extendSignificand_eq {n : Nat} {ds : List Char} (h : extended n ds ≤ maxSignificand) :
    extendSignificand n ds = (extended n ds, []) := by
  induction ds generalizing n with
  | nil => rfl
  | cons d ds ih =>
    have hnext := le_extended (n * 10 + digitValue d) ds
    rw [extendSignificand, if_neg (Nat.not_lt.mpr (Nat.le_trans hnext h))]
    exact ih h

/-- A significand leaves digits if their number is too large. -/
theorem extendSignificand_ne_nil {n : Nat} {ds : List Char} (hn : n ≤ maxSignificand)
    (h : maxSignificand < extended n ds) : (extendSignificand n ds).2 ≠ [] := by
  induction ds generalizing n with
  | nil => exact absurd h (Nat.not_lt.mpr hn)
  | cons d ds ih =>
    rw [extendSignificand]
    split
    · exact List.cons_ne_nil d ds
    · next hnext => exact ih (Nat.not_lt.mp hnext) h

/-- The digits of an exponent have their value if it is not too large. -/
theorem exponentValue_eq_ok {n : Nat} {ds : List Char} (h : extended n ds ≤ maxExponent)
    (rest : List Char) : exponentValue n ds rest = .ok (extended n ds) := by
  induction ds generalizing n with
  | nil => rfl
  | cons d ds ih =>
    have hnext := le_extended (n * 10 + digitValue d) ds
    rw [exponentValue, if_neg (Nat.not_lt.mpr (Nat.le_trans hnext h))]
    exact ih h

/-- The digits of an exponent are given up if their value is too large. -/
theorem exists_exponentValue_eq_error {n : Nat} {ds : List Char} (hn : n ≤ maxExponent)
    (h : maxExponent < extended n ds) (rest : List Char) :
    ∃ after, exponentValue n ds rest = .error after := by
  induction ds generalizing n with
  | nil => exact absurd h (Nat.not_lt.mpr hn)
  | cons d ds ih =>
    rw [exponentValue]
    split
    · exact ⟨ds ++ rest, rfl⟩
    · next hnext => exact ih (Nat.not_lt.mp hnext) h

/-! ## Ends -/

/-- What can follow a number is no part of it. -/
theorem Delimited.not_mem {rest : List Char} (h : Delimited rest) :
    ∀ c ∈ rest.head?, c.isDigit = false ∧ c ≠ '.' ∧ c ≠ 'e' ∧ c ≠ 'E' := by
  intro c hc
  have hcases := h c hc
  simp only [isBlank, Bool.or_eq_true, beq_iff_eq] at hcases
  rcases hcases with (((rfl | rfl) | rfl) | rfl) | rfl | rfl | rfl <;> decide

theorem Delimited.endsDigits {rest : List Char} (h : Delimited rest) : EndsDigits rest :=
  fun c hc => (h.not_mem c hc).1

/-- An exponent begins with no digit and no point, and neither does what follows in its place. -/
theorem head_exponentText (e : Option Exponent) {rest : List Char} (h : Delimited rest) :
    ∀ c ∈ (Numeral.exponentText e ++ rest).head?, c.isDigit = false ∧ c ≠ '.' := by
  intro c hc
  cases e with
  | none => exact ⟨(h.not_mem c hc).1, (h.not_mem c hc).2.1⟩
  | some e =>
    obtain rfl : (if e.capital then 'E' else 'e') = c := Option.some.inj hc
    cases e.capital with
    | false => decide
    | true => decide

theorem endsDigits_exponentText (e : Option Exponent) {rest : List Char} (h : Delimited rest) :
    EndsDigits (Numeral.exponentText e ++ rest) :=
  fun c hc => (head_exponentText e h c hc).1

/-! ## Reading -/

/-- A number is read as its sign and its magnitude, unless that is out of range. -/
@[simp] theorem toOption_scaledNumber (negative : Bool) (significand : Nat) (power : Int)
    (rest : List Char) :
    (scaledNumber negative significand power rest).toOption =
      (Decimal.scale? significand power).map fun units => (.float ⟨negative, units⟩, rest) := by
  unfold scaledNumber
  cases Decimal.scale? significand power <;> rfl

/-- A number that is scaled leaves the rest. -/
theorem eq_of_scaledNumber {negative : Bool} {significand : Nat} {power : Int}
    {s rest : List Char} {x : Number}
    (h : scaledNumber negative significand power s = .ok (x, rest)) : s = rest := by
  unfold scaledNumber at h
  split at h <;> cases h
  rfl

namespace Exponent

/-- A plus before the digits of an exponent makes no difference. -/
theorem readExponent_plus {c : Char} (h : c.isDigit = true) (negative : Bool) (significand : Nat)
    (power : Int) (s : List Char) :
    readExponent negative significand power ('+' :: c :: s) =
      readExponent negative significand power (c :: s) := by
  rcases eq_of_isDigit h with rfl | rfl | rfl | rfl | rfl | rfl | rfl | rfl | rfl | rfl <;> rfl

/-- Whether it has a sign or not, an exponent is read as after one. -/
theorem readExponent_signed (e : Exponent) (negative : Bool) (significand : Nat) (power : Int)
    (rest : List Char) :
    readExponent negative significand power (e.signed ++ rest) =
      readExponent negative significand power
        ((if e.down then '-' else '+') :: (e.digits.chars ++ rest)) := by
  obtain ⟨c, cs, hcs, hdigit⟩ := e.digits.exists_eq_cons
  unfold signed down
  rcases e.sign with - | - | -
  · rw [hcs]
    exact (readExponent_plus hdigit negative significand power (cs ++ rest)).symm
  · rfl
  · rfl

/-- An exponent scales a number after its letter. -/
theorem toOption_readExponent (e : Exponent) {rest : List Char} (h : EndsDigits rest)
    (negative : Bool) (significand : Nat) (power : Int) :
    (readExponent negative significand power (e.signed ++ rest)).toOption =
      (e.scale? significand power).map fun units => (.float ⟨negative, units⟩, rest) := by
  obtain ⟨c, cs, hcs, hdigit⟩ := e.digits.exists_eq_cons
  have htake := e.digits.takeWhile_append h
  have hdrop := e.digits.dropWhile_append h
  rw [readExponent_signed, scale?, Digits.value]
  simp only [hcs, List.cons_append] at htake hdrop ⊢
  unfold readExponent
  -- An exponent that is too large is decided by its sign and by whether the significand is zero.
  rcases Nat.lt_or_ge maxExponent (extended 0 (c :: cs)) with hlarge | hsmall
  · obtain ⟨after, hvalue⟩ :=
      exists_exponentValue_eq_error (Nat.zero_le maxExponent) hlarge rest
    rw [if_neg (Nat.not_le.mpr hlarge)]
    cases e.down with
    | false =>
      simp [htake, hdrop, hdigit, hvalue]
      split <;> rfl
    | true => simp [htake, hdrop, hdigit, hvalue]
  · have hvalue := exponentValue_eq_ok hsmall rest
    rw [if_pos hsmall]
    cases e.down with
    | false => simp [htake, hdrop, hdigit, hvalue]
    | true => simp [htake, hdrop, hdigit, hvalue]

end Exponent

namespace Numeral

/-- The exponent after the digits scales a number, if there is one. -/
theorem toOption_readPower (e : Option Exponent) {rest : List Char} (h : Delimited rest)
    (negative : Bool) (significand : Nat) (power : Int) :
    (readPower negative significand power (exponentText e ++ rest)).toOption =
      (match e with
        | none => Decimal.scale? significand power
        | some e => e.scale? significand power).map
          fun units => (.float ⟨negative, units⟩, rest) := by
  cases e with
  | none =>
    rw [exponentText, List.nil_append]
    unfold readPower
    split
    · exact absurd rfl (h.not_mem _ rfl).2.2.1
    · exact absurd rfl (h.not_mem _ rfl).2.2.2
    · exact toOption_scaledNumber negative significand power rest
  | some e =>
    have hread := e.toOption_readExponent h.endsDigits negative significand power
    rw [exponentText, Exponent.text, List.cons_append]
    cases e.capital with
    | false => exact hread
    | true => exact hread

/-- The digits after the point are taken into the significand as far as it stays exact. -/
theorem readFraction_append (ds : Digits) {rest : List Char} (h : EndsDigits rest)
    (negative : Bool) (significand : Nat) (power : Int) :
    readFraction negative significand power (ds.chars ++ rest) =
      readPower negative (extendSignificand significand ds.chars).1
        (power - (ds.chars.length - (extendSignificand significand ds.chars).2.length : Nat))
        rest := by
  have hne : ds.chars.isEmpty = false := List.isEmpty_eq_false_iff.mpr ds.ne_nil
  unfold readFraction
  simp only [ds.takeWhile_append h, ds.dropWhile_append h, hne]
  rfl

/-- The digits before the point are taken into the significand as far as it is exact, and what
follows decides on the rest. -/
theorem readUnsigned_append (n : Numeral) {rest : List Char} : EndsDigits rest →
    readUnsigned n.negative (n.whole.chars ++ rest) =
      match rest with
      | '.' :: rest =>
        readFraction n.negative (extendSignificand 0 n.whole.chars).1
          (extendSignificand 0 n.whole.chars).2.length rest
      | 'e' :: rest | 'E' :: rest =>
        readExponent n.negative (extendSignificand 0 n.whole.chars).1
          (extendSignificand 0 n.whole.chars).2.length rest
      | rest =>
        if (extendSignificand 0 n.whole.chars).2.isEmpty then
          .ok (wholeNumber n.negative (extendSignificand 0 n.whole.chars).1, rest)
        else
          scaledNumber n.negative (extendSignificand 0 n.whole.chars).1
            (extendSignificand 0 n.whole.chars).2.length rest := by
  intro h
  obtain ⟨c, cs, hcs, hdigit⟩ := n.whole.exists_eq_cons
  have htake := n.whole.takeWhile_append h
  have hdrop := n.whole.dropWhile_append h
  have hshort : (decide (c = '0') && decide ((c :: cs).length ≠ 1)) = false := by
    rw [Bool.and_eq_false_imp, decide_eq_true_eq, decide_eq_false_iff_not, Decidable.not_not]
    rintro rfl
    have hlength := n.short (by rw [hcs]; rfl)
    rwa [hcs] at hlength
  simp only [hcs, List.cons_append] at htake hdrop ⊢
  rw [readUnsigned, htake, hdrop, hdigit]
  dsimp only
  rw [hshort]
  rfl

/-- A number without point and exponent is exact if it is not too large. -/
theorem toOption_readUnsigned_whole (n : Numeral) {rest : List Char} (h : Delimited rest) :
    (readUnsigned n.negative (n.whole.chars ++ rest)).toOption =
      (if n.whole.value ≤ maxSignificand then some (wholeNumber n.negative n.whole.value)
      else (Decimal.scale? (extendSignificand 0 n.whole.chars).1
        (extendSignificand 0 n.whole.chars).2.length).map
          fun units => .float ⟨n.negative, units⟩).map (·, rest) := by
  rw [readUnsigned_append n h.endsDigits]
  split
  · exact absurd rfl (h.not_mem _ rfl).2.1
  · exact absurd rfl (h.not_mem _ rfl).2.2.1
  · exact absurd rfl (h.not_mem _ rfl).2.2.2
  · rcases Nat.lt_or_ge maxSignificand n.whole.value with hlarge | hsmall
    · have hleft := extendSignificand_ne_nil (Nat.zero_le maxSignificand) hlarge
      rw [if_neg (Nat.not_le.mpr hlarge), if_neg (by simpa using hleft)]
      simp [Function.comp_def]
    · rw [if_pos hsmall, extendSignificand_eq hsmall]
      rfl

/-- A number is read as its value after its sign. -/
theorem toOption_readUnsigned (n : Numeral) {rest : List Char} (h : Delimited rest) :
    (readUnsigned n.negative (n.unsigned ++ rest)).toOption = n.value?.map (·, rest) := by
  have hends := endsDigits_exponentText n.exponent h
  unfold unsigned value? exact units? kept
  rw [List.append_assoc, List.append_assoc]
  -- Only without a fraction and without an exponent can a number be exact.
  match hfraction : n.fraction, hexponent : n.exponent with
  | none, none =>
    simpa [fractionText, exponentText] using n.toOption_readUnsigned_whole h
  | none, some e =>
    rw [hexponent] at hends
    have hread := e.toOption_readExponent h.endsDigits n.negative
      (extendSignificand 0 n.whole.chars).1 (extendSignificand 0 n.whole.chars).2.length
    rw [fractionText, List.nil_append, readUnsigned_append n hends, exponentText, Exponent.text]
    cases e.capital with
    | false => simpa [Function.comp_def] using hread
    | true => simpa [Function.comp_def] using hread
  | some ds, e =>
    rw [hexponent] at hends
    rw [fractionText, List.cons_append, readUnsigned_append n (by simp [EndsDigits])]
    have hread := readFraction_append ds hends n.negative
      (extendSignificand 0 n.whole.chars).1 (extendSignificand 0 n.whole.chars).2.length
    simp only [hread]
    rw [toOption_readPower e h]
    cases e with
    | none => simp [Function.comp_def]
    | some e => simp [Function.comp_def]

/-- A number is read as its value. -/
theorem toOption_readNumber (n : Numeral) {rest : List Char} (h : Delimited rest) :
    (readNumber (n.text ++ rest)).toOption = n.value?.map (·, rest) := by
  have hread := n.toOption_readUnsigned h
  unfold text
  cases hsign : n.negative with
  | true =>
    rw [hsign] at hread
    exact hread
  | false =>
    rw [hsign] at hread
    obtain ⟨c, cs, hcs, hdigit⟩ := n.whole.exists_eq_cons
    rw [← hread]
    unfold unsigned
    rw [hcs]
    rcases eq_of_isDigit hdigit with rfl | rfl | rfl | rfl | rfl | rfl | rfl | rfl | rfl | rfl <;>
      rfl

/-- An exponent is its letter and what follows. -/
theorem exponentText_of_capital {e : Exponent} {capital : Bool} (h : e.capital = capital)
    (rest : List Char) :
    exponentText (some e) ++ rest = (if capital then 'E' else 'e') :: (e.signed ++ rest) := by
  rw [exponentText, Exponent.text, h]
  rfl

/-- What is read as an exponent after its letter is one. -/
theorem exists_of_readExponent {negative : Bool} {significand : Nat} {power : Int}
    {s rest : List Char} {x : Number}
    (h : readExponent negative significand power s = .ok (x, rest)) (capital : Bool) :
    ∃ e : Exponent, e.capital = capital ∧ s = e.signed ++ rest := by
  unfold readExponent at h
  split at h
  next down s' hsign =>
  have hdigits : ∃ ds : Digits, s' = ds.chars ++ rest := by
    split at h
    · cases h
    · next c tail =>
      split at h
      · cases h
      · next hdigit =>
        obtain ⟨ds, -, hds⟩ := Digits.exists_of_isDigit (by simpa using hdigit) tail
        refine ⟨ds, hds.trans (congrArg (ds.chars ++ ·) ?_)⟩
        dsimp only at h
        split at h
        · exact eq_of_scaledNumber h
        · split at h <;> cases h
          rfl
  obtain ⟨ds, rfl⟩ := hdigits
  split at hsign
  · obtain ⟨-, rfl⟩ := Prod.mk.inj hsign
    exact ⟨⟨capital, some false, ds⟩, rfl, rfl⟩
  · obtain ⟨-, rfl⟩ := Prod.mk.inj hsign
    exact ⟨⟨capital, some true, ds⟩, rfl, rfl⟩
  · obtain ⟨-, rfl⟩ := Prod.mk.inj hsign
    exact ⟨⟨capital, none, ds⟩, rfl, rfl⟩

/-- What is read after the digits is an exponent or nothing. -/
theorem exists_of_readPower {negative : Bool} {significand : Nat} {power : Int}
    {s rest : List Char} {x : Number}
    (h : readPower negative significand power s = .ok (x, rest)) :
    ∃ e : Option Exponent, s = exponentText e ++ rest := by
  unfold readPower at h
  split at h
  · obtain ⟨e, hcapital, rfl⟩ := exists_of_readExponent h false
    exact ⟨some e, (exponentText_of_capital hcapital rest).symm⟩
  · obtain ⟨e, hcapital, rfl⟩ := exists_of_readExponent h true
    exact ⟨some e, (exponentText_of_capital hcapital rest).symm⟩
  · exact ⟨none, eq_of_scaledNumber h⟩

/-- What is read after the point are digits, with an exponent or without. -/
theorem exists_of_readFraction {negative : Bool} {significand : Nat} {power : Int}
    {s rest : List Char} {x : Number}
    (h : readFraction negative significand power s = .ok (x, rest)) :
    ∃ (ds : Digits) (e : Option Exponent), s = ds.chars ++ (exponentText e ++ rest) := by
  unfold readFraction at h
  dsimp only at h
  split at h
  · cases h
  · next hne =>
    obtain ⟨e, he⟩ := exists_of_readPower h
    have hds : s.takeWhile Char.isDigit ≠ [] := by simpa using hne
    refine ⟨⟨s.takeWhile Char.isDigit, hds, List.all_eq_true.mp List.all_takeWhile⟩, e, ?_⟩
    rw [← he]
    exact List.takeWhile_append_dropWhile.symm

/-- What is read after a sign is a number. -/
theorem exists_of_readUnsigned {negative : Bool} {s rest : List Char} {x : Number}
    (h : readUnsigned negative s = .ok (x, rest)) :
    ∃ n : Numeral, n.negative = negative ∧ s = n.unsigned ++ rest := by
  unfold readUnsigned at h
  split at h
  · cases h
  · next c r =>
    split at h
    · cases h
    · next hdigit =>
      obtain ⟨ds, hchars, hds⟩ := Digits.exists_of_isDigit (by simpa using hdigit) r
      dsimp only at h
      split at h
      · cases h
      · next hshort =>
        have hone : ds.chars.head? = some '0' → ds.chars.length = 1 := by
          rw [hchars]
          intro hzero
          rw [List.takeWhile_cons, if_pos (by simpa using hdigit)] at hzero
          obtain rfl : c = '0' := Option.some.inj hzero
          simpa using hshort
        -- What follows the digits completes the number.
        have hnumeral : ∀ fraction exponent, (c :: r).dropWhile Char.isDigit =
            fractionText fraction ++ (exponentText exponent ++ rest) →
            ∃ n : Numeral, n.negative = negative ∧ c :: r = n.unsigned ++ rest := by
          intro fraction exponent hrest
          refine ⟨⟨negative, ds, hone, fraction, exponent⟩, rfl, ?_⟩
          rw [hds, hrest, unsigned, List.append_assoc, List.append_assoc]
        split at h
        · next rest' hrest =>
          obtain ⟨fraction, exponent, rfl⟩ := exists_of_readFraction h
          exact hnumeral (some fraction) exponent hrest
        · next rest' hrest =>
          obtain ⟨e, hcapital, rfl⟩ := exists_of_readExponent h false
          exact hnumeral none (some e) (hrest.trans (exponentText_of_capital hcapital rest).symm)
        · next rest' hrest =>
          obtain ⟨e, hcapital, rfl⟩ := exists_of_readExponent h true
          exact hnumeral none (some e) (hrest.trans (exponentText_of_capital hcapital rest).symm)
        · split at h
          · cases h
            exact hnumeral none none rfl
          · exact hnumeral none none (eq_of_scaledNumber h)

/-- What is read as a number is one. -/
theorem exists_of_readNumber {s rest : List Char} {x : Number}
    (h : readNumber s = .ok (x, rest)) : ∃ n : Numeral, s = n.text ++ rest := by
  unfold readNumber at h
  split at h
  · obtain ⟨n, hsign, rfl⟩ := exists_of_readUnsigned h
    exact ⟨n, by rw [text, hsign]; rfl⟩
  · obtain ⟨n, hsign, rfl⟩ := exists_of_readUnsigned h
    exact ⟨n, by rw [text, hsign]; rfl⟩

/-! ## Skipping -/

/-- Digits are passed over. -/
theorem skipDigits_append (ds : Digits) {rest : List Char} (h : EndsDigits rest) :
    skipDigits (ds.chars ++ rest) = .ok rest := by
  obtain ⟨c, cs, hcs, hdigit⟩ := ds.exists_eq_cons
  have hdrop := ds.dropWhile_append h
  rw [hcs, List.cons_append, List.dropWhile_cons, if_pos hdigit] at hdrop
  rw [hcs, List.cons_append, skipDigits, if_pos hdigit, hdrop]

/-- An exponent is passed over after its letter. -/
theorem skipExponent_signed (e : Exponent) {rest : List Char} (h : EndsDigits rest) :
    skipExponent (e.signed ++ rest) = .ok rest := by
  have hskip := skipDigits_append e.digits h
  obtain ⟨c, cs, hcs, hdigit⟩ := e.digits.exists_eq_cons
  unfold Exponent.signed
  rcases e.sign with - | - | -
  · rw [hcs] at hskip ⊢
    rcases eq_of_isDigit hdigit with rfl | rfl | rfl | rfl | rfl | rfl | rfl | rfl | rfl | rfl <;>
      exact hskip
  · exact hskip
  · exact hskip

/-- An exponent is passed over, if there is one. -/
theorem skipPower_exponentText (e : Option Exponent) {rest : List Char} (h : Delimited rest) :
    skipPower (exponentText e ++ rest) = .ok rest := by
  cases e with
  | none =>
    rw [exponentText, List.nil_append]
    unfold skipPower
    split
    · exact absurd rfl (h.not_mem _ rfl).2.2.1
    · exact absurd rfl (h.not_mem _ rfl).2.2.2
    · rfl
  | some e =>
    have hskip := skipExponent_signed e h.endsDigits
    rw [exponentText, Exponent.text, List.cons_append]
    cases e.capital with
    | false => exact hskip
    | true => exact hskip

/-- Passes over what follows the digits before the point. -/
def skipTail (s : List Char) : Except Failure (List Char) :=
  match s with
  | '.' :: r => skipDigits r >>= skipPower
  | r => skipPower r

/-- The same, with the digits after the point tested in place. -/
def skipTailTested (s : List Char) : Except Failure (List Char) :=
  match s with
  | '.' :: r =>
    match r with
    | c :: _ =>
      if c.isDigit then skipPower (r.dropWhile Char.isDigit) else throw (.peek .invalidNumber r)
    | [] => throw (.peek .invalidNumber [])
  | r => skipPower r

/-- To test the digits in place is what `skipDigits` does, but for the place of a failure. -/
theorem skipTailTested_eq_ok_iff {left rest : List Char} :
    skipTailTested left = .ok rest ↔ skipTail left = .ok rest := by
  unfold skipTailTested skipTail
  split
  · split
    · next c r =>
      rw [skipDigits]
      split
      · next hdigit =>
        rw [List.dropWhile_cons, if_pos hdigit]
        rfl
      · rfl
    · exact iff_of_false (by rintro ⟨⟩) (by rintro ⟨⟩)
  · rfl

/-- A number is passed over by its parts, unless a digit follows a zero at the beginning. -/
theorem skipNumber_eq_ok_iff {s rest : List Char} :
    skipNumber s = .ok rest ↔
      ∃ left, skipDigits s = .ok left ∧ (∀ c r, s = '0' :: c :: r → c.isDigit = false) ∧
        skipTail left = .ok rest := by
  unfold skipNumber
  rw [Except.bind_eq_ok_iff]
  refine exists_congr fun left => and_congr_right fun _ => ?_
  dsimp only
  split
  · next c r _ =>
    split
    · next hdigit =>
      refine iff_of_false (by rintro ⟨⟩) fun h => ?_
      rw [h.1 c r rfl] at hdigit
      cases hdigit
    · next hdigit =>
      refine skipTailTested_eq_ok_iff.trans (iff_and_self.mpr fun _ c' r' hs => ?_)
      obtain ⟨-, rfl, rfl⟩ : '0' = '0' ∧ c = c' ∧ r = r' := by simpa using hs
      simpa using hdigit
  · next hs =>
    exact skipTailTested_eq_ok_iff.trans (iff_and_self.mpr fun _ c r h => absurd h (hs c r))

/-- What follows the digits before the point begins with no digit. -/
theorem endsDigits_tail (n : Numeral) {rest : List Char} (h : Delimited rest) :
    EndsDigits (fractionText n.fraction ++ (exponentText n.exponent ++ rest)) := by
  cases n.fraction with
  | none => exact endsDigits_exponentText n.exponent h
  | some ds => simp [fractionText, EndsDigits]

/-- What follows the digits before the point is passed over. -/
theorem skipTail_append (n : Numeral) {rest : List Char} (h : Delimited rest) :
    skipTail (fractionText n.fraction ++ (exponentText n.exponent ++ rest)) = .ok rest := by
  have hpower := skipPower_exponentText n.exponent h
  unfold skipTail
  cases n.fraction with
  | none =>
    rw [fractionText, List.nil_append]
    split
    · next hs => exact absurd rfl (head_exponentText n.exponent h _ (by rw [hs]; rfl)).2
    · exact hpower
  | some ds =>
    have hskip := skipDigits_append ds (endsDigits_exponentText n.exponent h)
    simp only [fractionText, List.cons_append, hskip]
    exact hpower

/-- A number is passed over after its sign. -/
theorem skipNumber_unsigned (n : Numeral) {rest : List Char} (h : Delimited rest) :
    skipNumber (n.unsigned ++ rest) = .ok rest := by
  have hends := n.endsDigits_tail h
  rw [unsigned, List.append_assoc, List.append_assoc, skipNumber_eq_ok_iff]
  refine ⟨_, skipDigits_append n.whole hends, fun c r hs => ?_, n.skipTail_append h⟩
  obtain ⟨d, ds, hds, -⟩ := n.whole.exists_eq_cons
  rw [hds, List.cons_append] at hs
  obtain ⟨rfl, hrest⟩ := List.cons.inj hs
  have hlength := n.short (by rw [hds]; rfl)
  obtain rfl : ds = [] := by simpa [hds] using hlength
  exact hends c (by rw [← List.nil_append (fractionText n.fraction ++ _), hrest]; rfl)

/-- What is passed over as digits are digits. -/
theorem exists_of_skipDigits {s rest : List Char} (h : skipDigits s = .ok rest) :
    ∃ ds : Digits, ds.chars = s.takeWhile Char.isDigit ∧ s = ds.chars ++ rest := by
  unfold skipDigits at h
  split at h
  · cases h
  · next c r =>
    split at h
    · next hdigit =>
      obtain ⟨ds, hchars, hds⟩ := Digits.exists_of_isDigit hdigit r
      rw [List.dropWhile_cons, if_pos hdigit] at hds
      cases h
      exact ⟨ds, hchars, hds⟩
    · cases h

/-- What is passed over as an exponent after its letter is one. -/
theorem exists_of_skipExponent {s rest : List Char} (h : skipExponent s = .ok rest)
    (capital : Bool) : ∃ e : Exponent, e.capital = capital ∧ s = e.signed ++ rest := by
  unfold skipExponent at h
  split at h
  · obtain ⟨ds, -, rfl⟩ := exists_of_skipDigits h
    exact ⟨⟨capital, some false, ds⟩, rfl, rfl⟩
  · obtain ⟨ds, -, rfl⟩ := exists_of_skipDigits h
    exact ⟨⟨capital, some true, ds⟩, rfl, rfl⟩
  · obtain ⟨ds, -, rfl⟩ := exists_of_skipDigits h
    exact ⟨⟨capital, none, ds⟩, rfl, rfl⟩

/-- What is passed over after the digits is an exponent or nothing. -/
theorem exists_of_skipPower {s rest : List Char} (h : skipPower s = .ok rest) :
    ∃ e : Option Exponent, s = exponentText e ++ rest := by
  unfold skipPower at h
  split at h
  · obtain ⟨e, hcapital, rfl⟩ := exists_of_skipExponent h false
    exact ⟨some e, (exponentText_of_capital hcapital rest).symm⟩
  · obtain ⟨e, hcapital, rfl⟩ := exists_of_skipExponent h true
    exact ⟨some e, (exponentText_of_capital hcapital rest).symm⟩
  · exact ⟨none, Except.ok.inj h⟩

/-- What is passed over after the digits before the point are a fraction and an exponent. -/
theorem exists_of_skipTail {s rest : List Char} (h : skipTail s = .ok rest) :
    ∃ (fraction : Option Digits) (exponent : Option Exponent),
      s = fractionText fraction ++ (exponentText exponent ++ rest) := by
  unfold skipTail at h
  split at h
  · obtain ⟨left, hdigits, hpower⟩ := Except.bind_eq_ok_iff.mp h
    obtain ⟨ds, -, rfl⟩ := exists_of_skipDigits hdigits
    obtain ⟨e, rfl⟩ := exists_of_skipPower hpower
    exact ⟨some ds, e, rfl⟩
  · obtain ⟨e, he⟩ := exists_of_skipPower h
    exact ⟨none, e, he⟩

/-- What is passed over after a sign is a number. -/
theorem exists_of_skipNumber {s rest : List Char} (h : skipNumber s = .ok rest)
    (negative : Bool) : ∃ n : Numeral, n.negative = negative ∧ s = n.unsigned ++ rest := by
  obtain ⟨left, hdigits, hlead, htail⟩ := skipNumber_eq_ok_iff.mp h
  obtain ⟨ds, hchars, rfl⟩ := exists_of_skipDigits hdigits
  obtain ⟨fraction, exponent, rfl⟩ := exists_of_skipTail htail
  have hshort : ds.chars.head? = some '0' → ds.chars.length = 1 := by
    intro hzero
    match hds : ds.chars with
    | [] => exact absurd hds ds.ne_nil
    | [d] => rfl
    | d :: d' :: ds' =>
      rw [hds] at hzero
      obtain rfl : d = '0' := Option.some.inj hzero
      have hdigit := ds.digit d' (by simp [hds])
      rw [hlead d' _ (by rw [hds]; rfl)] at hdigit
      cases hdigit
  refine ⟨⟨negative, ds, hshort, fraction, exponent⟩, rfl, ?_⟩
  rw [unsigned, List.append_assoc, List.append_assoc]

end Numeral

end GrammarTypes.Json
