import GrammarTypes.Proofs.Json.Extent

/-!
# String literals as JSON strings

A string literal is written in printable ASCII (`Text.printable_literal`) and is the text of a JSON
string whose value is what the literal was written for (`Text.exists_quoted_literal`). Where a JSON
string at the beginning of a text ends, and what its value is, is determined by the text
(`Json.Quoted.text_append_inj`). So a literal cannot be read as another string, nor as one that
ends before its closing quote, and no two texts have the same literal.
-/

namespace GrammarTypes

namespace Json

open Decode

/-- Where a string at the beginning of a text ends is determined by the text, and so is its
value. -/
theorem Quoted.text_append_inj {q q' : Quoted} {rest rest' : List Char}
    (h : q.text ++ rest = q'.text ++ rest') : rest = rest' ∧ q.value? = q'.value? := by
  have hinner : q.inner ++ rest = q'.inner ++ rest' := (List.cons.inj h).2
  -- Passing over the string shows where it ends, and reading it shows its value.
  have hrest : rest = rest' := by
    have hskip := q.skipChars_inner rest
    rw [hinner, q'.skipChars_inner] at hskip
    exact (Except.ok.inj hskip).symm
  have hvalue : q.value?.map (·, rest) = q'.value?.map (·, rest) := by
    rw [← q.toOption_readString rest, hinner, q'.toOption_readString, hrest]
  refine ⟨hrest, Option.map_injective (fun a b hab => ?_) hvalue⟩
  exact (Prod.mk.inj hab).1

end Json

namespace Text

open Json Decode

/-! ## Printable ASCII -/

/-- Hexadecimal digits are printable. -/
theorem printable_digitChar :
    ∀ d < 16, 0x20 ≤ (Nat.digitChar d).toNat ∧ (Nat.digitChar d).toNat ≤ 0x7e := by decide

/-- The digits of a UTF-16 unit are printable. -/
theorem printable_hexDigits {unit : Nat} {c : Char} (hc : c ∈ hexDigits unit) :
    0x20 ≤ c.toNat ∧ c.toNat ≤ 0x7e := by
  obtain ⟨d, hd, rfl⟩ := List.mem_map.1 hc
  have hlt : d < 16 := by
    simp only [List.mem_cons, List.not_mem_nil, or_false] at hd
    omega
  exact printable_digitChar d hlt

/-- The escape of a character is printable. -/
theorem printable_escape {c d : Char} (hd : d ∈ escape c) : 0x20 ≤ d.toNat ∧ d.toNat ≤ 0x7e := by
  unfold escape at hd
  split at hd
  case h_8 =>
    split at hd
    -- A character outside of the range is written in digits, and one inside stands for itself.
    · obtain ⟨unit, -, hd⟩ := List.mem_flatMap.1 hd
      rcases List.mem_cons.1 hd with rfl | hd
      · decide
      · rcases List.mem_cons.1 hd with rfl | hd
        · decide
        · exact printable_hexDigits hd
    · next hrange =>
      obtain rfl := List.mem_singleton.1 hd
      omega
  -- The two-character escapes.
  all_goals
    simp only [List.mem_cons, List.not_mem_nil, or_false] at hd
    rcases hd with rfl | rfl <;> decide

/-- A string literal is printable. -/
theorem printable_literal {value : String} {c : Char} (hc : c ∈ (literal value).toList) :
    0x20 ≤ c.toNat ∧ c.toNat ≤ 0x7e := by
  rw [toList_literal] at hc
  rcases List.mem_cons.1 hc with rfl | hc
  · decide
  · rcases List.mem_append.1 hc with hc | hc
    · obtain ⟨d, -, hc⟩ := List.mem_flatMap.1 hc
      exact printable_escape hc
    · obtain rfl := List.mem_singleton.1 hc
      decide

/-! ## JSON strings -/

/-- A string literal is the text of a JSON string that has its value. -/
theorem exists_quoted_literal (value : String) :
    ∃ q : Quoted, q.text = (literal value).toList ∧ q.value? = some value := by
  have hread := readString_literal value []
  obtain ⟨q, hq⟩ := Quoted.exists_of_readString hread
  rw [List.append_nil] at hq
  refine ⟨q, by rw [Quoted.text, ← hq, toList_literal], ?_⟩
  -- What the reader takes the string for is its value.
  have hvalue := q.toOption_readString []
  rw [List.append_nil, ← hq, hread] at hvalue
  obtain ⟨v, hv, heq⟩ := Option.map_eq_some_iff.1 hvalue.symm
  cases heq
  exact hv

/-- A string literal denotes its value as a JSON text. -/
theorem denotes_literal (value : String) : Denotes (literal value) (.string value) := by
  obtain ⟨q, htext, hvalue⟩ := exists_quoted_literal value
  refine ⟨.none, .string q, .none, ?_, ?_⟩
  · rw [Blanks.chars_none, List.append_nil, List.nil_append, Document.text, htext]
  · rw [Document.value?, hvalue, Option.map_some]

/-- A text is the string literal of a value in the syntax of JSON. -/
structure IsLiteral (value text : String) : Prop where
  /-- It is written in printable ASCII. -/
  printable : ∀ c ∈ text.toList, 0x20 ≤ c.toNat ∧ c.toNat ≤ 0x7e
  /-- It has a quote at its beginning and another at its end. -/
  quotes : ∃ body, text.toList = '"' :: (body ++ ['"'])
  /-- It is a JSON string, with the value. -/
  denotes : ∃ q : Quoted, q.text = text.toList ∧ q.value? = some value
  /-- As a JSON text it is read to its end, as the value. -/
  reads : Value.ofText text = .ok (.string value)
  /-- A JSON string at its beginning takes all of it, and has the value. -/
  whole : ∀ (q : Quoted) (rest : List Char), q.text ++ rest = text.toList →
    rest = [] ∧ q.value? = some value

/-- The string literal of every text is read back as that text and as nothing else, and it is the
literal of no other text. -/
theorem literal_round_trips :
    (∀ value, IsLiteral value (literal value)) ∧ Function.Injective literal := by
  constructor
  · intro value
    obtain ⟨q, htext, hvalue⟩ := exists_quoted_literal value
    constructor
    case printable => exact fun c hc => printable_literal hc
    case quotes => exact ⟨_, toList_literal value⟩
    case denotes => exact ⟨q, htext, hvalue⟩
    case reads => exact Value.ofText_eq_ok_iff.2 ⟨.string value, denotes_literal value, rfl⟩
    case whole =>
      intro q' rest h
      have hsame : q'.text ++ rest = q.text ++ [] := by rw [h, List.append_nil, htext]
      obtain ⟨hrest, hvalue'⟩ := Quoted.text_append_inj hsame
      exact ⟨hrest, hvalue'.trans hvalue⟩
  · intro v w h
    exact (literal_append_inj (r := []) (s := []) (by rw [h])).1

end Text

end GrammarTypes
