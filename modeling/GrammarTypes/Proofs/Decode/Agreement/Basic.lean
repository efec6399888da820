import GrammarTypes.Decode.Grammar
import GrammarTypes.Proofs.Json.Skipping

/-!
# Decoders that agree

A decoder reads a thing in two ways, from a text and from a value. What it finds at the text of a
document alone (`Decoder.found`) is what it finds there among other text; and where the document has
a value that does not nest too deep, it is what the value is decoded as. A decoder for which this
holds and which gets through documents only `Agrees`. The combinators hand agreement on: this module
has those for strings, values in memory and lists.
-/

namespace GrammarTypes.Decode

open Json

variable {α β : Type}

/-! ## Agreement -/

namespace Decoder

/-- What a decoder finds at a document that stands alone. -/
def found (d : Decoder α) (depth : Nat) (doc : Document) : Option α :=
  (d.ofText ⟨depth, doc.text.length + 1⟩ doc.text).toOption.map Prod.fst

/-- The two ways of a decoder agree. -/
structure Agrees (d : Decoder α) : Prop where
  /-- In a text a document is taken for what is found at it alone. -/
  ofText : ∀ (depth items : Nat) (doc : Document), doc.text.length < items →
    Finds (d.ofText ⟨depth, items⟩) doc (d.found depth doc)
  /-- What is found at a document is what its value is decoded as. -/
  ofValue : ∀ {depth : Nat} {doc : Document} {v : Value}, doc.value? = some v → v.depth ≤ depth →
    d.found depth doc = (d.ofValue v).toOption
  /-- Nothing but documents is taken for a thing. -/
  bounded : ∀ limits, Bounded (d.ofText limits)

/-- A decoder agrees if it finds something at documents that their values are decoded as. -/
theorem Agrees.of_finds {d : Decoder α} (found : Nat → Document → Option α)
    (hfinds : ∀ (depth items : Nat) (doc : Document), doc.text.length < items →
      Finds (d.ofText ⟨depth, items⟩) doc (found depth doc))
    (hvalue : ∀ {depth : Nat} {doc : Document} {v : Value}, doc.value? = some v → v.depth ≤ depth →
      found depth doc = (d.ofValue v).toOption)
    (hbounded : ∀ limits, Bounded (d.ofText limits)) : d.Agrees := by
  -- Alone means without blanks before it and with nothing after it.
  have hfound : ∀ depth doc, d.found depth doc = found depth doc := by
    intro depth doc
    have halone := hfinds depth (doc.text.length + 1) doc (Nat.lt_succ_self _) .none []
      (doc.before_of_delimited (by simp [Delimited]))
    simp only [Blanks.chars_none, List.nil_append, List.append_nil] at halone
    rw [Decoder.found, halone]
    cases found depth doc <;> rfl
  refine ⟨?_, ?_, hbounded⟩
  · intro depth items doc hitems
    rw [hfound]
    exact hfinds depth items doc hitems
  · intro depth doc v hv hdepth
    rw [hfound]
    exact hvalue hv hdepth

/-- What is made of a thing is found where the thing is. -/
theorem Agrees.map {d : Decoder α} (hd : d.Agrees) (f : α → β) : (d.map f).Agrees := by
  apply Agrees.of_finds fun depth doc => (d.found depth doc).map f
  · intro depth items doc hitems b rest hbefore
    have hfinds := hd.ofText depth items doc hitems b rest hbefore
    simp only [Decoder.map, Except.toOption_map, hfinds, Option.map_map]
    rfl
  · intro depth doc v hv hdepth
    rw [hd.ofValue hv hdepth]
    exact (Except.toOption_map f _).symm
  · intro limits s x rest h
    obtain ⟨⟨y, r⟩, hread, heq⟩ := Except.map_eq_ok_iff.mp h
    cases heq
    exact hd.bounded limits s y _ hread

/-! ## Values in memory -/

/-- A value that is read whole is decoded as it is in memory. -/
theorem buffered_agrees (f : Value → Except Cause α) : (buffered f).Agrees := by
  apply Agrees.of_finds fun depth doc => (doc.valueWithin? depth).bind fun v => (f v).toOption
  · intro depth items doc hitems b rest hbefore
    have hfinds := doc.readValue_finds hitems depth b rest hbefore
    simp only [buffered, Except.toOption_bind, hfinds]
    cases doc.valueWithin? depth with
    | none => rfl
    | some v =>
      simp only [Option.map_some, Option.bind_some, toOption_raise]
      cases (f v).toOption <;> rfl
  · intro depth doc v hv hdepth
    rw [Document.valueWithin?_of_value? hv hdepth]
    exact (toOption_raise .nowhere (f v)).symm
  · intro limits s x rest h
    obtain ⟨⟨v, r⟩, hread, hbody⟩ := Except.bind_eq_ok_iff.mp h
    obtain ⟨y, -, heq⟩ := Except.bind_eq_ok_iff.mp hbody
    cases heq
    exact Document.readValue_bounded _ _ s v _ hread

end Decoder

/-! ## Scalars -/

/-- A reader takes nothing but scalars, each for what is made of its value. -/
def TakesScalars (reader : Reader α) (make : Value → Option α) : Prop :=
  ∀ s, (reader s).toOption = (readBeginning s).toOption.bind fun p =>
    match p.1 with
    | .scalar v => (make v).map (·, p.2)
    | _ => none

namespace TakesScalars

variable {reader : Reader α} {make : Value → Option α}

/-- What is made of the value of a scalar is found at it. -/
theorem finds (h : TakesScalars reader make) (doc : Document) :
    Finds reader doc (doc.scalar?.bind make) := by
  intro b rest hbefore
  rw [h, doc.toOption_readBeginning b hbefore]
  rcases doc.scalar_or_container with hscalar | ⟨items, gap, rfl⟩ | ⟨members, gap, rfl⟩
  · rw [hscalar.beginning?_eq, hscalar.scalar?_eq]
    cases doc.value? <;> rfl
  · rfl
  · rfl

/-- What is found at a document is what is made of its value, if nothing is made of a container. -/
theorem bind_scalar?_eq (harray : ∀ vs, make (.array vs) = none)
    (hobject : ∀ ms, make (.object ms) = none) {doc : Document} {v : Value}
    (hv : doc.value? = some v) : doc.scalar?.bind make = make v := by
  rcases doc.scalar_or_container with hscalar | ⟨items, gap, rfl⟩ | ⟨members, gap, rfl⟩
  · rw [hscalar.scalar?_eq, hv, Option.bind_some]
  · obtain ⟨vs, -, rfl⟩ := Option.map_eq_some_iff.mp hv
    exact (harray vs).symm
  · obtain ⟨ms, -, rfl⟩ := Option.map_eq_some_iff.mp hv
    exact (hobject ms).symm

/-- A scalar is a document. -/
theorem bounded (h : TakesScalars reader make) : Bounded reader := by
  intro s x rest hread
  have hvalue := (h s).symm.trans (congrArg Except.toOption hread)
  obtain ⟨⟨beginning, r⟩, hbegin, hmake⟩ := Option.bind_eq_some_iff.mp hvalue
  obtain ⟨b, s', rfl, hbegins⟩ :=
    Document.exists_of_readBeginning (Except.toOption_eq_some_iff.mp hbegin)
  cases hbegins with
  | scalar v doc =>
    obtain ⟨y, -, heq⟩ := Option.map_eq_some_iff.mp hmake
    cases heq
    exact ⟨b, doc, rfl⟩
  | array => cases hmake
  | object => cases hmake

end TakesScalars

/-- Texts are taken for themselves. -/
theorem Decoder.string_takesScalars (limits : Limits) :
    TakesScalars (Decoder.string.ofText limits) fun v => (textOf v).toOption := by
  intro s
  rw [Decoder.string, Except.toOption_bind]
  congr 1
  funext p
  rcases p with ⟨(v | - | -), r⟩
  · cases v <;> rfl
  · rfl
  · rfl

/-- Texts are read as they are decoded. -/
theorem Decoder.string_agrees : Decoder.string.Agrees := by
  apply Agrees.of_finds fun _ doc => doc.scalar?.bind fun v => (textOf v).toOption
  · intro depth items doc _
    exact (string_takesScalars ⟨depth, items⟩).finds doc
  · intro depth doc v hv _
    rw [TakesScalars.bind_scalar?_eq (fun _ => rfl) (fun _ => rfl) hv]
    exact (toOption_raise .nowhere (textOf v)).symm
  · exact fun limits => (string_takesScalars limits).bounded

/-! ## Containers -/

/-- A container is read as what is inside, one level deeper. -/
theorem toOption_enter_succ (past : List Char → List Char) (depth items : Nat)
    (body : Limits → Reader α) (c : Char) (s : List Char) :
    (enter past ⟨depth + 1, items⟩ body (c :: s)).toOption = (body ⟨depth, items⟩ s).toOption :=
  Except.toOption_mapError _ _

/-- What is read of a container is what was read inside, one level deeper. -/
theorem exists_of_enter {past : List Char → List Char} {limits : Limits}
    {body : Limits → Reader α} {c : Char} {s rest : List Char} {x : α}
    (h : enter past limits body (c :: s) = .ok (x, rest)) :
    ∃ depth, body ⟨depth, limits.items⟩ s = .ok (x, rest) := by
  unfold enter at h
  split at h
  · cases h
  · next depth _ => exact ⟨depth, Except.mapError_eq_ok_iff.mp h⟩

/-! ## Lists -/

namespace Decoder

/-- Items are decoded one by one. -/
theorem toOption_itemsOf (f : Value → Except Failure α) (index : Nat) (vs : List Value) :
    (itemsOf f index vs).toOption = vs.mapM fun v => (f v).toOption := by
  induction vs generalizing index with
  | nil => rfl
  | cons v vs ih =>
    simp only [itemsOf, Except.toOption_bind, toOption_within, ih, List.mapM_cons]
    rfl

/-- What is found at the items of an array. -/
def itemsFound (d : Decoder α) (depth : Nat) : Document → Option (List α)
  | .array items _ =>
    match depth with
    | 0 => none
    | depth + 1 => items.mapM fun item => d.found depth item.2
  | _ => none

/-- No items are found at a scalar. -/
theorem itemsFound_scalar (d : Decoder α) (depth : Nat) {doc : Document} (h : doc.IsScalar) :
    d.itemsFound depth doc = none := by
  cases doc with
  | array _ _ => exact h.elim
  | _ => rfl

/-- Lists are read as they are decoded if their items are. -/
theorem Agrees.list {d : Decoder α} (hd : d.Agrees) : (Decoder.list d).Agrees := by
  apply Agrees.of_finds d.itemsFound
  · intro depth items doc hitems b rest hbefore
    rw [Decoder.list, Except.toOption_bind, doc.toOption_readBeginning b hbefore]
    rcases doc.scalar_or_container with hscalar | ⟨elements, gap, rfl⟩ | ⟨members, gap, rfl⟩
    · rw [hscalar.beginning?_eq, d.itemsFound_scalar depth hscalar]
      cases doc.value? <;> rfl
    · cases depth with
      | zero => rfl
      | succ depth =>
        obtain ⟨hbound, hlengths⟩ := Document.items_lt_of_text_lt hitems
        have hread := toOption_readItems hbound
          (fun item hitem => hd.ofText depth items item.2 (hlengths item hitem)) 0 gap rest
        exact (toOption_enter_succ _ _ _ _ _ _).trans hread
    · rfl
  · intro depth doc v hv hdepth
    rcases doc.scalar_or_container with hscalar | ⟨elements, gap, rfl⟩ | ⟨members, gap, rfl⟩
    · obtain ⟨harray, hobject⟩ := hscalar.value?_ne hv
      rw [d.itemsFound_scalar depth hscalar]
      cases v with
      | array vs => exact absurd rfl (harray vs)
      | _ => rfl
    · obtain ⟨vs, hvs, rfl⟩ := Option.map_eq_some_iff.mp hv
      obtain ⟨depth, rfl⟩ := Nat.exists_eq_add_one.mpr (Nat.zero_lt_of_lt hdepth)
      rw [Value.depth] at hdepth
      exact (Document.mapM_items_eq hd.ofValue hvs (by omega)).trans
        (toOption_itemsOf d.ofValue 0 vs).symm
    · obtain ⟨ms, hms, rfl⟩ := Option.map_eq_some_iff.mp hv
      rfl
  · intro limits s x rest h
    obtain ⟨⟨beginning, r⟩, hbegin, hbody⟩ := Except.bind_eq_ok_iff.mp h
    obtain ⟨b, s', rfl, hbegins⟩ := Document.exists_of_readBeginning hbegin
    cases hbegins with
    | scalar => cases hbody
    | object => cases hbody
    | array r =>
      obtain ⟨depth, hitems⟩ := exists_of_enter hbody
      obtain ⟨items, gap, rfl⟩ := exists_of_readItems (hd.bounded _) hitems
      exact ⟨b, .array items gap, by simp [Document.text]⟩

end Decoder

end GrammarTypes.Decode
