import GrammarTypes.Proofs.Decode.Agreement.Expression
import GrammarTypes.Proofs.Decode.Agreement.Record
import GrammarTypes.Proofs.Json.Extent

/-!
# Grammars in texts

A grammar is a record of buffered initializers and of rules, which are records of a text and an
expression, so both ways to read a grammar agree: a text that denotes a value is read as the grammar
that the value is decoded as (`Grammar.ofText_eq_ok_iff_ofValue`).

What is read is the document at the beginning of a text. Nothing looks at what follows it, so a text
that goes on after the grammar is read like the grammar alone (`Grammar.ofText_ignores_rest`).
-/

namespace GrammarTypes

open Json

namespace Decode

/-! ## Whole texts -/

/-- A thing is read from a text when it is read from the characters, whatever they leave. -/
theorem Decoder.runText_eq_ok_iff {α : Type} {d : Decoder α} {source : String} {x : α} :
    d.runText source = .ok x ↔
      ∃ rest, d.ofText (.ofText source.toList) source.toList = .ok (x, rest) := by
  unfold Decoder.runText
  dsimp only
  split
  · next y rest h => simp [h]
  · next f h => simp [h]

/-- What a decoder that agrees finds at the document at the beginning of a text is what it reads
from the text. -/
theorem Decoder.Agrees.runText_eq_ok_iff_found {α : Type} {d : Decoder α} (hd : d.Agrees)
    {source : String} {before : Blanks} {doc : Document} {rest : List Char}
    (hsource : source.toList = before.chars ++ (doc.text ++ rest)) (hrest : doc.Before rest)
    {x : α} : d.runText source = .ok x ↔ d.found 127 doc = some x := by
  have hlength : doc.text.length < source.toList.length + 1 := by
    simp only [hsource, List.length_append]
    omega
  have hread := hd.ofText 127 _ doc hlength before rest hrest
  rw [← hsource] at hread
  rw [Decoder.runText_eq_ok_iff]
  constructor
  · rintro ⟨rest', h⟩
    have hfound := hread.symm.trans (congrArg Except.toOption h)
    obtain ⟨y, hy, heq⟩ := Option.map_eq_some_iff.mp hfound
    cases heq
    exact hy
  · intro hfound
    rw [hfound] at hread
    exact ⟨rest, Except.toOption_eq_some_iff.mp hread⟩

/-- A text that denotes a value is read as the value is decoded. -/
theorem Decoder.Agrees.runText_eq_ok_iff_runValue {α : Type} {d : Decoder α} (hd : d.Agrees)
    {source : String} {v : Value} (h : Denotes source v) (hdepth : v.depth ≤ 127) {x : α} :
    d.runText source = .ok x ↔ d.runValue v = .ok x := by
  obtain ⟨before, doc, after, hsource, hv⟩ := h
  rw [hd.runText_eq_ok_iff_found hsource (doc.before_of_delimited after.delimited),
    hd.ofValue hv hdepth, Decoder.runValue, Except.mapError_eq_ok_iff, Except.toOption_eq_some_iff]

/-! ## Rules and grammars -/

/-- The fields of a rule agree. -/
theorem ruleRecord_fields_agree : ∀ f ∈ ruleRecord.fields, ∀ draft, (f.decode draft).Agrees := by
  intro f hf draft
  simp only [ruleRecord, List.mem_cons, List.not_mem_nil, or_false] at hf
  rcases hf with rfl | rfl <;> dsimp only
  · exact Decoder.string_agrees.map _
  · exact Decoder.expression_agrees.map _

/-- The fields of a grammar agree. -/
theorem grammarRecord_fields_agree :
    ∀ f ∈ grammarRecord.fields, ∀ draft, (f.decode draft).Agrees := by
  intro f hf draft
  have hrule := Record.agrees ruleRecord_fields_agree
  simp only [grammarRecord, List.mem_cons, List.not_mem_nil, or_false] at hf
  rcases hf with rfl | rfl | rfl <;> dsimp only
  · exact (Decoder.buffered_agrees _).map _
  · exact (Decoder.buffered_agrees _).map _
  · exact hrule.list.map _

/-- Grammars are read as they are decoded. -/
theorem grammarRecord_agrees : grammarRecord.decoder.Agrees :=
  Record.agrees grammarRecord_fields_agree

end Decode

open Decode

/-- From a text that denotes a value a grammar is read exactly when the value is decoded as it,
unless the value nests too deep for a text. -/
theorem Grammar.ofText_eq_ok_iff_ofValue {source : String} {v : Value} (h : Denotes source v)
    (hdepth : v.depth ≤ 127) (g : Grammar) :
    Grammar.ofText source = .ok g ↔ Grammar.ofValue v = .ok g :=
  grammarRecord_agrees.runText_eq_ok_iff_runValue h hdepth

/-- A grammar with one rule, which has a group of a literal. The members stand in another order than
the fields, the literal is an array, and there are escapes in a name and in a text. -/
def Grammar.escapedSource : String :=
  "\x7b\"r\\u0075les\" : [\x7b\"expression\":\x7b\"expression\":[\"literal\",\"\\u0061\"]," ++
    "\"type\":\"group\"\x7d,\"name\":\"r\"\x7d]\x7d\n"

/-- The name of the only member, with an escape and with blanks around its colon. -/
def Grammar.escapedName : Name where
  quoted :=
    ⟨[.plain 'r' (by decide),
      .unit ⟨⟨'0', 0, rfl⟩, ⟨'0', 0, rfl⟩, ⟨'7', 7, rfl⟩, ⟨'5', 5, rfl⟩⟩,
      .plain 'l' (by decide), .plain 'e' (by decide), .plain 's' (by decide)]⟩
  outer := ⟨[' '], by simp [isBlank]⟩
  inner := ⟨[' '], by simp [isBlank]⟩

/-- The document that the text is. -/
def Grammar.escapedDocument : Document :=
  .object [(.none, escapedName, .array [(.none, .object [
    (.none, .plain "expression", .object [
      (.none, .plain "expression", .array [
        (.none, .string (.plain "literal")),
        (.none, .string
          ⟨[.unit ⟨⟨'0', 0, rfl⟩, ⟨'0', 0, rfl⟩, ⟨'6', 6, rfl⟩, ⟨'1', 1, rfl⟩⟩]⟩)] .none),
      (.none, .plain "type", .string (.plain "group"))] .none),
    (.none, .plain "name", .string (.plain "r"))] .none)] .none)] .none

/-- The value that it denotes. -/
def Grammar.escapedValue : Value :=
  .object [("rules", .array [.object [
    ("expression", .object [
      ("expression", .array [.string "literal", .string "a"]), ("type", .string "group")]),
    ("name", .string "r")]])]

/-- Both ways of decoding find the rule and the expression inside the group. -/
theorem Grammar.ofText_eq_ok_iff_ofValue_escaped :
    Denotes Grammar.escapedSource Grammar.escapedValue ∧ Grammar.escapedValue.depth ≤ 127 ∧
      Grammar.ofText Grammar.escapedSource =
        .ok ⟨none, none, [⟨"r", .group (.literal "a" false)⟩]⟩ := by
  have hdenotes : Denotes Grammar.escapedSource Grammar.escapedValue :=
    ⟨.none, Grammar.escapedDocument, ⟨['\n'], by simp [isBlank]⟩, by decide +kernel, rfl⟩
  have hdepth : Grammar.escapedValue.depth ≤ 127 := by decide
  have hdecoded : Grammar.ofValue Grammar.escapedValue =
      .ok ⟨none, none, [⟨"r", .group (.literal "a" false)⟩]⟩ := rfl
  exact ⟨hdenotes, hdepth, (Grammar.ofText_eq_ok_iff_ofValue hdenotes hdepth _).mpr hdecoded⟩

/-! ## What follows a grammar -/

/-- A grammar that is read from a text is read from the document at its beginning, whatever follows
the document. So the text is a document as a whole only if blanks follow. -/
theorem Grammar.ofText_ignores_rest {source : String} {g : Grammar}
    (h : Grammar.ofText source = .ok g) :
    ∃ (before : Blanks) (doc : Document) (rest : List Char),
      source.toList = before.chars ++ (doc.text ++ rest) ∧
      (∀ rest', Grammar.ofText (.ofList (before.chars ++ (doc.text ++ rest'))) = .ok g) ∧
      (IsDocument source ↔ ∀ c ∈ rest, isBlank c) := by
  obtain ⟨rest, hread⟩ := Decoder.runText_eq_ok_iff.mp h
  obtain ⟨before, doc, hcontainer, hsource⟩ :=
    Record.exists_of_decoder grammarRecord_fields_agree hread
  have hbefore := Document.before_of_not_isScalar hcontainer
  refine ⟨before, doc, rest, hsource, ?_, ?_⟩
  · intro rest'
    have hfound := (grammarRecord_agrees.runText_eq_ok_iff_found hsource (hbefore rest)).mp h
    exact (grammarRecord_agrees.runText_eq_ok_iff_found String.toList_ofList (hbefore rest')).mpr
      hfound
  · constructor
    · -- A document ends in one place, so what follows it here are the blanks after it there.
      rintro ⟨before', doc', after, hsource'⟩
      have hafter := doc'.before_of_delimited after.delimited
      rw [Document.rest_eq_of_append_eq (hsource.symm.trans hsource') (hbefore rest) hafter]
      exact after.blank
    · intro hblank
      exact ⟨before, doc, ⟨rest, hblank⟩, hsource⟩

/-- An empty grammar, and a letter after it. -/
def Grammar.strayLetter : String :=
  "\x7b\"rules\":[]\x7d x"

theorem Grammar.ofText_ignores_rest_stray :
    ∃ (before : Blanks) (doc : Document) (rest : List Char),
      Grammar.strayLetter.toList = before.chars ++ (doc.text ++ rest) ∧
      (∀ rest', Grammar.ofText (.ofList (before.chars ++ (doc.text ++ rest'))) =
        .ok ⟨none, none, []⟩) ∧
      (IsDocument Grammar.strayLetter ↔ ∀ c ∈ rest, isBlank c) :=
  Grammar.ofText_ignores_rest rfl

/-- A text that is no document is read as a grammar. -/
theorem Grammar.ofText_not_isDocument :
    Grammar.ofText Grammar.strayLetter = .ok ⟨none, none, []⟩ ∧
      ¬ IsDocument Grammar.strayLetter := by
  refine ⟨rfl, ?_⟩
  rintro ⟨before, doc, after, hsource⟩
  have hskip := doc.skipValue_append before (doc.before_of_delimited after.delimited)
  have hletter : skipValue Grammar.strayLetter.toList = .ok ((), [' ', 'x']) := rfl
  rw [← hsource, hletter] at hskip
  have hafter : [' ', 'x'] = after.chars := congrArg Prod.snd (Except.ok.inj hskip)
  have hblank := after.blank 'x' (by simp [← hafter])
  exact absurd hblank (by decide)

end GrammarTypes
