import GrammarTypes.Decode.Skip
import GrammarTypes.Proofs.Json.Document
import GrammarTypes.Proofs.Outcome
import GrammarTypes.Proofs.Text.Literal

/-!
# Strings of documents

The reader of strings takes the text of a string as its value, and refuses it where it has none
(`Quoted.toOption_readString`); to pass over a string no value is needed (`Quoted.skipChars_inner`).
Neither gets through anything else: what was read or passed over is the text of a string
(`Quoted.exists_of_readString`, `Quoted.exists_of_skipChars`).
-/

namespace GrammarTypes.Json

open Decode

/-! ## Hexadecimal units -/

/-- A hexadecimal digit takes one byte. -/
theorem HexDigit.utf8Size_char (d : HexDigit) : d.char.utf8Size = 1 := by
  have hle : d.char.val ≤ 0x7f := by
    have hreads := d.reads
    simp only [hexValue?, Char.isDigit, Bool.and_eq_true, decide_eq_true_eq, Char.le_def] at hreads
    split at hreads
    · next hdigit => exact UInt32.le_trans hdigit.2 (by decide)
    · split at hreads
      · next hlower => exact UInt32.le_trans hlower.2 (by decide)
      · split at hreads
        · next hupper => exact UInt32.le_trans hupper.2 (by decide)
        · cases hreads
  exact if_pos hle

/-- The first of some values found one by one comes from the first item. -/
theorem exists_of_mapM_eq_some_cons {α β : Type} {f : α → Option β} {xs : List α} {b : β}
    {bs : List β} (h : xs.mapM f = some (b :: bs)) :
    ∃ a as, xs = a :: as ∧ f a = some b ∧ as.mapM f = some bs := by
  cases xs with
  | nil => simp at h
  | cons a as =>
    simp only [List.mapM_cons, Option.bind_eq_bind, Option.bind_eq_some_iff] at h
    obtain ⟨b', ha, bs', has, heq⟩ := h
    cases heq
    exact ⟨a, as, rfl, ha, has⟩

namespace HexUnit

/-- Four digits are read as their unit. -/
theorem hexUnit_text (u : HexUnit) (rest : List Char) : hexUnit (u.text ++ rest) = .ok u.value := by
  have htake : (u.text ++ rest).take 4 = u.text := rfl
  have hbytes : byteCount u.text = 4 := by
    simp [HexUnit.text, byteCount, HexDigit.utf8Size_char]
  have hvalues : u.text.mapM hexValue? =
      some [u.first.value, u.second.value, u.third.value, u.fourth.value] := by
    simp [HexUnit.text, HexDigit.reads]
  unfold hexUnit
  rw [htake, hbytes, hvalues]
  rfl

/-- What is read as a unit are four digits. -/
theorem exists_of_hexUnit {s : List Char} {n : Nat} (h : hexUnit s = .ok n) :
    ∃ u : HexUnit, s = u.text ++ s.drop 4 ∧ u.value = n := by
  simp only [hexUnit] at h
  split at h
  · cases h
  · split at h
    · next a b c d hvalues =>
      obtain ⟨w, s₁, h₁, hw, hvalues⟩ := exists_of_mapM_eq_some_cons hvalues
      obtain ⟨x, s₂, rfl, hx, hvalues⟩ := exists_of_mapM_eq_some_cons hvalues
      obtain ⟨y, s₃, rfl, hy, hvalues⟩ := exists_of_mapM_eq_some_cons hvalues
      obtain ⟨z, s₄, rfl, hz, hvalues⟩ := exists_of_mapM_eq_some_cons hvalues
      have hnil : s₄ = [] := by
        have hlength := congrArg List.length h₁
        simp only [List.length_take, List.length_cons] at hlength
        exact List.length_eq_zero_iff.mp (by omega)
      subst hnil
      refine ⟨⟨⟨w, a, hw⟩, ⟨x, b, hx⟩, ⟨y, c, hy⟩, ⟨z, d, hz⟩⟩, ?_, Except.ok.inj h⟩
      exact (List.take_append_drop 4 s).symm.trans (by rw [h₁]; rfl)
    · cases h

end HexUnit

/-! ## Escapes -/

/-- A letter after a backslash is read as the character that it escapes. -/
theorem unescape_short {letter c : Char} (h : (letter, c) ∈ shortEscapes) (rest : List Char) :
    unescape (letter :: rest) = .ok (c, 1) := by
  simp only [shortEscapes, List.mem_cons, Prod.mk.injEq, List.not_mem_nil, or_false] at h
  rcases h with h | h | h | h | h | h | h | h <;> obtain ⟨rfl, rfl⟩ := h <;> rfl

/-- The escape of a unit gives its character, which takes another escape after a leading
surrogate. -/
theorem unescape_hexUnit (u : HexUnit) (rest : List Char) :
    unescape ('u' :: (u.text ++ rest)) =
      if isTrailing u.value then .error (.here .loneSurrogate rest)
      else if isLeading u.value then (pairedChar u.value rest).map (·, 11)
      else .ok (Char.ofNat u.value, 5) := by
  have hdrop : (u.text ++ rest).drop 4 = rest := rfl
  unfold unescape
  simp only [u.hexUnit_text, hdrop]
  split
  · simp_all [Bind.bind, Except.bind]
    rfl
  · split <;> simp_all [Bind.bind, Except.bind, Except.map, Pure.pure, Except.pure]

/-- After a leading surrogate the escape of a trailing one completes the pair. -/
theorem pairedChar_hexUnit (leading : Nat) (u : HexUnit) (rest : List Char) :
    pairedChar leading ('\\' :: 'u' :: (u.text ++ rest)) =
      if isTrailing u.value then .ok (Quoted.pair leading u.value)
      else .error (.here .loneSurrogate rest) := by
  have hdrop : (u.text ++ rest).drop 4 = rest := rfl
  unfold pairedChar
  simp only [u.hexUnit_text, hdrop]
  split
  · simp_all [Bind.bind, Except.bind, Pure.pure, Except.pure, Quoted.pair]
  · simp_all [Bind.bind, Except.bind, throw, throwThe, MonadExceptOf.throw]

/-- Nothing but an escaped unit can follow a leading surrogate. -/
theorem toOption_pairedChar_eq_none (leading : Nat) {ps : List Piece}
    (h : ∀ u ps', ps ≠ .unit u :: ps') (rest : List Char) :
    (pairedChar leading (ps.flatMap Piece.text ++ '"' :: rest)).toOption = none := by
  match ps with
  | [] => rfl
  | .plain c hc :: ps =>
    rw [List.flatMap_cons, Piece.text, List.singleton_append, List.cons_append, pairedChar]
    · rfl
    · exact List.cons_ne_nil c _
    · exact fun hs => hc.2.1 (List.cons.inj hs).1
    · exact fun r hs => hc.2.1 (List.cons.inj hs).1
    · exact fun r hs => hc.2.1 (List.cons.inj hs).1
  | .short letter c hc :: ps =>
    simp only [shortEscapes, List.mem_cons, Prod.mk.injEq, List.not_mem_nil, or_false] at hc
    rcases hc with h | h | h | h | h | h | h | h <;> obtain ⟨rfl, rfl⟩ := h <;> rfl
  | .unit u :: ps => exact absurd rfl (h u ps)

/-! ## Reading -/

namespace Quoted

/-- A character that stands for itself is read as itself. -/
theorem readChars_plain {c : Char} (h : c ≠ '"' ∧ c ≠ '\\' ∧ 0x20 ≤ c.toNat)
    (read rest : List Char) : readChars read 0 (c :: rest) = readChars (c :: read) 0 rest := by
  rw [readChars]
  · exact if_neg (Nat.not_lt.mpr h.2.2)
  · exact h.1
  · exact h.2.1

/-- An escape by a letter is read as the character that it escapes. -/
theorem readChars_short {letter c : Char} (h : (letter, c) ∈ shortEscapes) (read rest : List Char) :
    readChars read 0 ('\\' :: letter :: rest) = readChars (c :: read) 0 rest :=
  Text.readChars_backslash read [letter] (unescape_short h rest)

/-- The escape of a unit is read as a character, together with the next escape after a leading
surrogate. -/
theorem toOption_readChars_unit (read : List Char) (u : HexUnit) (rest : List Char) :
    (readChars read 0 ('\\' :: 'u' :: (u.text ++ rest))).toOption =
      if isTrailing u.value then none
      else if isLeading u.value then
        (pairedChar u.value rest).toOption.bind fun c => (readChars (c :: read) 6 rest).toOption
      else (readChars (Char.ofNat u.value :: read) 0 rest).toOption := by
  rw [readChars, unescape_hexUnit]
  cases isTrailing u.value with
  | true => rfl
  | false =>
    cases isLeading u.value with
    | true => cases pairedChar u.value rest <;> rfl
    | false => rfl

/-- The pieces of a string are read up to its closing quote as the characters that they are. -/
theorem toOption_readChars (rest : List Char) (ps : List Piece) (read : List Char) :
    (readChars read 0 (ps.flatMap Piece.text ++ '"' :: rest)).toOption =
      (charsOf? ps).map fun cs => (String.ofList (read.reverse ++ cs), rest) := by
  fun_induction charsOf? ps generalizing read with
  | case1 => simp [readChars]
  | case2 c h ps ih =>
    simp only [List.flatMap_cons, Piece.text, List.cons_append, List.nil_append]
    rw [readChars_plain h, ih]
    simp [Function.comp_def]
  | case3 letter c h ps ih =>
    simp only [List.flatMap_cons, Piece.text, List.cons_append, List.nil_append]
    rw [readChars_short h, ih]
    simp [Function.comp_def]
  -- A unit is a surrogate without its partner, the first of a pair, or a character.
  | case4 u ps htrailing =>
    simp only [List.flatMap_cons, Piece.text, List.cons_append, List.append_assoc]
    rw [toOption_readChars_unit, if_pos htrailing]
    rfl
  | case5 u hu hleading w ps hw ih =>
    simp only [List.flatMap_cons, Piece.text, List.cons_append, List.append_assoc]
    rw [toOption_readChars_unit, if_neg hu, if_pos hleading, pairedChar_hexUnit, if_pos hw]
    refine (ih (pair u.value w.value :: read)).trans ?_
    simp [Function.comp_def]
  | case6 u hu hleading w ps hw =>
    simp only [List.flatMap_cons, Piece.text, List.cons_append, List.append_assoc]
    rw [toOption_readChars_unit, if_neg hu, if_pos hleading, pairedChar_hexUnit, if_neg hw]
    rfl
  | case7 u ps hu hleading hnext =>
    simp only [List.flatMap_cons, Piece.text, List.cons_append, List.append_assoc]
    rw [toOption_readChars_unit, if_neg hu, if_pos hleading, toOption_pairedChar_eq_none _ hnext]
    rfl
  | case8 u ps hu hleading ih =>
    simp only [List.flatMap_cons, Piece.text, List.cons_append, List.append_assoc]
    rw [toOption_readChars_unit, if_neg hu, if_neg hleading, ih]
    simp [Function.comp_def]

/-- A string is read as its value. -/
theorem toOption_readString (q : Quoted) (rest : List Char) :
    (readString (q.inner ++ rest)).toOption = q.value?.map (·, rest) := by
  rw [readString, inner, List.append_assoc, List.singleton_append, toOption_readChars, value?,
    Option.map_map]
  rfl

/-- What completes a surrogate pair is the escape of a unit. -/
theorem exists_of_pairedChar {leading : Nat} {s : List Char} {c : Char}
    (h : pairedChar leading s = .ok c) :
    ∃ u : HexUnit, s = (Piece.unit u).text ++ s.drop 6 := by
  unfold pairedChar at h
  split at h
  case h_3 r =>
    obtain ⟨unit, hunit, -⟩ := Except.bind_eq_ok_iff.mp h
    obtain ⟨u, hu, -⟩ := HexUnit.exists_of_hexUnit hunit
    exact ⟨u, congrArg ('\\' :: 'u' :: ·) hu⟩
  all_goals cases h

/-- An escape that is read consists of pieces. -/
theorem exists_of_unescape {s : List Char} {c : Char} {taken : Nat}
    (h : unescape s = .ok (c, taken)) :
    ∃ ps : List Piece, '\\' :: s = ps.flatMap Piece.text ++ s.drop taken := by
  unfold unescape at h
  split at h
  case h_1 | h_11 => cases h
  case h_10 r =>
    obtain ⟨unit, hunit, h⟩ := Except.bind_eq_ok_iff.mp h
    obtain ⟨u, hu, -⟩ := HexUnit.exists_of_hexUnit hunit
    split at h
    · cases h
    · split at h
      · obtain ⟨c', hpair, h⟩ := Except.bind_eq_ok_iff.mp h
        obtain ⟨w, hw⟩ := exists_of_pairedChar hpair
        cases h
        refine ⟨[.unit u, .unit w], ?_⟩
        rw [hw, List.drop_drop] at hu
        simpa [Piece.text] using hu
      · cases h
        exact ⟨[.unit u], by simpa [Piece.text] using hu⟩
  all_goals
    obtain ⟨hc, rfl⟩ := Prod.mk.inj (Except.ok.inj h)
    exact ⟨[.short _ c (by subst hc; decide)], rfl⟩

/-- What is read up to a closing quote consists of pieces. -/
theorem exists_of_readChars {read s rest : List Char} {skip : Nat} {text : String}
    (h : readChars read skip s = .ok (text, rest)) :
    ∃ ps : List Piece, s.drop skip = ps.flatMap Piece.text ++ '"' :: rest := by
  fun_induction readChars read skip s with
  | case1 => cases h
  | case2 read skip c s ih => exact ih h
  | case3 read s =>
    cases h
    exact ⟨[], rfl⟩
  -- The characters of an escape are taken together and then skipped one by one.
  | case4 read s c taken hescape ih =>
    obtain ⟨ps, hps⟩ := exists_of_unescape hescape
    obtain ⟨ps', hps'⟩ := ih h
    exact ⟨ps ++ ps', by rw [List.drop_zero, hps, hps', List.flatMap_append, List.append_assoc]⟩
  | case5 => cases h
  | case6 => cases h
  | case7 read c s hquote hbackslash hcontrol ih =>
    obtain ⟨ps, hps⟩ := ih h
    exact ⟨.plain c ⟨hquote, hbackslash, Nat.not_lt.mp hcontrol⟩ :: ps, congrArg (c :: ·) hps⟩

/-- What is read as a string is one. -/
theorem exists_of_readString {s rest : List Char} {text : String}
    (h : readString s = .ok (text, rest)) : ∃ q : Quoted, s = q.inner ++ rest := by
  obtain ⟨ps, hps⟩ := exists_of_readChars h
  exact ⟨⟨ps⟩, by rw [inner, List.append_assoc]; exact hps⟩

/-! ## Skipping -/

/-- A piece is passed over, whatever it stands for. -/
theorem skipChars_piece (p : Piece) (rest : List Char) :
    skipChars 0 (p.text ++ rest) = skipChars 0 rest := by
  cases p with
  | plain c h =>
    rw [Piece.text, List.singleton_append, skipChars]
    · exact if_neg (Nat.not_lt.mpr h.2.2)
    · exact h.1
    · exact h.2.1
  | short letter c h =>
    simp only [shortEscapes, List.mem_cons, Prod.mk.injEq, List.not_mem_nil, or_false] at h
    rcases h with h | h | h | h | h | h | h | h <;> obtain ⟨rfl, rfl⟩ := h <;> rfl
  | unit u =>
    have hlength : escapeLength ('u' :: (u.text ++ rest)) = .ok 5 := by
      rw [escapeLength, u.hexUnit_text]
      rfl
    rw [Piece.text, List.cons_append, List.cons_append, skipChars, hlength]
    rfl

/-- A string is passed over. -/
theorem skipChars_inner (q : Quoted) (rest : List Char) :
    skipChars 0 (q.inner ++ rest) = .ok rest := by
  rw [inner, List.append_assoc]
  induction q.pieces with
  | nil => rfl
  | cons p ps ih => rw [List.flatMap_cons, List.append_assoc, skipChars_piece, ih]

/-- An escape that is passed over is a piece. -/
theorem exists_of_escapeLength {s : List Char} {taken : Nat} (h : escapeLength s = .ok taken) :
    ∃ p : Piece, '\\' :: s = p.text ++ s.drop taken := by
  unfold escapeLength at h
  split at h
  · cases h
  · next c r =>
    split at h
    · next hshort =>
      cases h
      have hmem : c ∈ shortEscapes.map Prod.fst := List.contains_iff_mem.mp hshort
      obtain ⟨⟨letter, c'⟩, hescape, rfl⟩ := List.mem_map.mp hmem
      exact ⟨.short letter c' hescape, rfl⟩
    · split at h
      · next hc =>
        subst hc
        cases hunit : hexUnit r with
        | error f => rw [hunit] at h; cases h
        | ok unit =>
          rw [hunit] at h
          cases h
          obtain ⟨u, hu, -⟩ := HexUnit.exists_of_hexUnit hunit
          exact ⟨.unit u, congrArg ('\\' :: 'u' :: ·) hu⟩
      · cases h

/-- What is passed over up to a closing quote consists of pieces. -/
theorem exists_pieces_of_skipChars {s rest : List Char} {skip : Nat}
    (h : skipChars skip s = .ok rest) :
    ∃ ps : List Piece, s.drop skip = ps.flatMap Piece.text ++ '"' :: rest := by
  fun_induction skipChars skip s with
  | case1 => cases h
  | case2 skip c s ih => exact ih h
  | case3 s =>
    cases h
    exact ⟨[], rfl⟩
  | case4 s taken hescape ih =>
    obtain ⟨p, hp⟩ := exists_of_escapeLength hescape
    obtain ⟨ps, hps⟩ := ih h
    exact ⟨p :: ps, by rw [List.drop_zero, hp, hps, List.flatMap_cons, List.append_assoc]⟩
  | case5 => cases h
  | case6 => cases h
  | case7 c s hquote hbackslash hcontrol ih =>
    obtain ⟨ps, hps⟩ := ih h
    exact ⟨.plain c ⟨hquote, hbackslash, Nat.not_lt.mp hcontrol⟩ :: ps, congrArg (c :: ·) hps⟩

/-- What is passed over as a string is one. -/
theorem exists_of_skipChars {s rest : List Char} (h : skipChars 0 s = .ok rest) :
    ∃ q : Quoted, s = q.inner ++ rest := by
  obtain ⟨ps, hps⟩ := exists_pieces_of_skipChars h
  exact ⟨⟨ps⟩, by rw [inner, List.append_assoc]; exact hps⟩

end Quoted

end GrammarTypes.Json
