import GrammarTypes.Proofs.Decode.Agreement.Basic

/-!
# Records that agree

A record is written as an object or as an array of its fields. Members are taken into the draft one
by one: a field that is there already is refused, and a member that is no field is passed over in a
text and left alone in memory. Both ways to read a record find the same if those of its fields do
(`Record.agrees`).
-/

namespace GrammarTypes.Decode

open Json Json.Document

namespace Record

variable {σ α : Type} (r : Record σ α)

/-! ## Members -/

/-- What is found at the members of an object, taken into a draft. -/
def fieldsFound (depth : Nat) : List (Lead × Name × Document) → σ → Option σ
  | [], draft => some draft
  | (_, name, doc) :: members, draft => do
    let key ← name.quoted.value?
    match r.field? key with
    | none => fieldsFound depth members draft
    | some f =>
      if f.filled draft then none
      else do
        let draft ← (f.decode draft).found depth doc
        fieldsFound depth members draft

variable {r}

/-- Members are read into a draft as they are found. -/
theorem toOption_readFields (hfields : ∀ f ∈ r.fields, ∀ draft, (f.decode draft).Agrees)
    (depth : Nat) {items bound : Nat} {members : List (Lead × Name × Document)}
    (hbound : members.length < bound)
    (hitems : ∀ member ∈ members, member.2.2.text.length < items) (first : Bool) (draft : σ)
    (gap : Blanks) (rest : List Char) :
    (r.readFields ⟨depth, items⟩ bound first draft
      (membersText first members ++ (gap.chars ++ '\x7d' :: rest))).toOption =
      (r.fieldsFound depth members draft).map (·, '\x7d' :: rest) := by
  induction members generalizing bound first draft with
  | nil =>
    obtain ⟨bound, rfl⟩ := Nat.exists_eq_add_one.mpr hbound
    rw [membersText, List.nil_append, readFields, nextKey_end]
    rfl
  | cons member members ih =>
    obtain ⟨lead, name, doc⟩ := member
    obtain ⟨bound, rfl⟩ := Nat.exists_eq_add_one.mpr (Nat.zero_lt_of_lt hbound)
    have hbound' : members.length < bound := by simpa using hbound
    have hmembers := ih hbound' fun member hmember => hitems member (List.mem_cons_of_mem _ hmember)
    have hdoc := hitems (lead, name, doc) List.mem_cons_self
    have hbefore := doc.before_of_delimited (delimited_members members gap rest)
    simp only [membersText, Name.text, List.append_assoc, List.cons_append, readFields,
      Except.toOption_bind, toOption_within, lead.toOption_nextKey_text first name.quoted,
      fieldsFound]
    cases name.quoted.value? with
    | none => rfl
    | some key =>
      simp only [Option.map_some, Option.bind_some, Option.bind_eq_bind]
      cases hkey : r.field? key with
      | none =>
        -- A member that is no field is passed over, whether it has a value or not.
        simp only [Except.toOption_bind, readMember_append, toOption_within,
          doc.skipValue_append name.inner hbefore, Except.toOption_ok, Option.bind_some]
        exact hmembers false draft
      | some f =>
        have hf := (hfields f (List.mem_of_find?_eq_some hkey) draft).ofText depth items doc hdoc
          name.inner _ hbefore
        simp only [readMember_append]
        -- A field that is there already is refused before its value is looked at.
        cases f.filled draft with
        | true => rfl
        | false =>
          simp only [Bool.false_eq_true, if_false, Except.toOption_bind, toOption_within, hf]
          cases (f.decode draft).found depth doc with
          | none => rfl
          | some draft => exact hmembers false draft

/-- What is found at members is what their values are decoded as. -/
theorem fieldsFound_eq (hfields : ∀ f ∈ r.fields, ∀ draft, (f.decode draft).Agrees) {depth : Nat}
    {members : List (Lead × Name × Document)} {ms : List (String × Value)}
    (hvalue : membersValue? members = some ms) (hdepth : Value.depthOfMembers ms ≤ depth)
    (draft : σ) : r.fieldsFound depth members draft = (r.fieldsOf ms draft).toOption := by
  induction members generalizing ms draft with
  | nil =>
    cases hvalue
    rfl
  | cons member members ih =>
    obtain ⟨lead, name, doc⟩ := member
    simp only [membersValue?, Option.bind_eq_bind, Option.bind_eq_some_iff] at hvalue
    obtain ⟨key, hkey, v, hv, ms, hms, heq⟩ := hvalue
    cases heq
    rw [Value.depthOfMembers] at hdepth
    have hv' : v.depth ≤ depth := by omega
    have hrest := ih hms (by omega)
    simp only [fieldsFound, fieldsOf, hkey, Option.bind_eq_bind, Option.bind_some]
    cases hfield : r.field? key with
    | none => exact hrest draft
    | some f =>
      have hf := (hfields f (List.mem_of_find?_eq_some hfield) draft).ofValue hv hv'
      cases hfilled : f.filled draft with
      | true => simp [hfilled]
      | false =>
        simp only [hfilled, Bool.false_eq_true, if_false, Except.toOption_bind, toOption_within, hf,
          hrest]

/-- What is read as members of an object are members, up to its end. -/
theorem exists_of_readFields (hfields : ∀ f ∈ r.fields, ∀ draft, (f.decode draft).Agrees)
    {limits : Limits} {bound : Nat} {first : Bool} {draft draft' : σ} {s s' : List Char}
    (h : r.readFields limits bound first draft s = .ok (draft', s')) :
    ∃ (members : List (Lead × Name × Document)) (gap : Blanks) (rest : List Char),
      s' = '\x7d' :: rest ∧ s = membersText first members ++ (gap.chars ++ '\x7d' :: rest) := by
  induction bound generalizing first draft s with
  | zero => cases h
  | succ bound ih =>
    obtain ⟨⟨key?, s₁⟩, hnext, hbody⟩ := Except.bind_eq_ok_iff.mp h
    have hkey := Except.mapError_eq_ok_iff.mp hnext
    cases key? with
    | none =>
      obtain ⟨gap, rest, rfl, rfl⟩ := exists_of_nextKey_none hkey
      cases hbody
      exact ⟨[], gap, rest, rfl, rfl⟩
    | some key =>
      obtain ⟨lead, q, rfl⟩ := exists_of_nextKey_some hkey
      have hmember : ∃ (name : Name) (doc : Document) (s₂ : List Char) (draft₂ : σ),
          q.text ++ s₁ = name.text ++ (doc.text ++ s₂) ∧
            r.readFields limits bound false draft₂ s₂ = .ok (draft', s') := by
        dsimp only at hbody
        split at hbody
        · obtain ⟨⟨x, s₂⟩, hvalue, hbody⟩ := Except.bind_eq_ok_iff.mp hbody
          obtain ⟨name, doc, htext⟩ := exists_of_readMember skipValue_bounded hvalue q
          exact ⟨name, doc, s₂, draft, htext, hbody⟩
        · next f hfield =>
          split at hbody
          · cases hbody
          · obtain ⟨⟨draft₂, s₂⟩, hvalue, hbody⟩ := Except.bind_eq_ok_iff.mp hbody
            have hf := hfields f (List.mem_of_find?_eq_some hfield) draft
            obtain ⟨name, doc, htext⟩ := exists_of_readMember (hf.bounded limits) hvalue q
            exact ⟨name, doc, s₂, draft₂, htext, hbody⟩
      obtain ⟨name, doc, s₂, draft₂, htext, hrest⟩ := hmember
      obtain ⟨members, gap, rest, hs', rfl⟩ := ih hrest
      refine ⟨(lead, name, doc) :: members, gap, rest, hs', ?_⟩
      rw [htext, membersText]
      simp only [List.append_assoc]

/-! ## Positions -/

/-- What is found at the items of an array, each taken into the field at its position. -/
def positionsFound (depth : Nat) : List (RecordField σ) → List (Lead × Document) → σ → Option σ
  | [], [], draft => some draft
  | [], _ :: _, _ => none
  | f :: fs, [], draft => if f.required then none else positionsFound depth fs [] draft
  | f :: fs, (_, doc) :: items, draft => do
    let draft ← (f.decode draft).found depth doc
    positionsFound depth fs items draft

/-- An array ends where it has no further items. -/
theorem endArray_end (gap : Blanks) (rest : List Char) :
    endArray (gap.chars ++ ']' :: rest) = .ok rest := by
  have hend : skipBlanks (']' :: rest) = _ := skipBlanks_cons rfl _
  simp [endArray, hend]

/-- An array does not end before an item. -/
theorem toOption_endArray_cons (first : Bool) (lead : Lead) (doc : Document)
    (items : List (Lead × Document)) (s : List Char) :
    (endArray (itemsText first ((lead, doc) :: items) ++ s)).toOption = none := by
  obtain ⟨c, cs, hcs, hblank, hcomma, hend, -⟩ := doc.exists_text_eq_cons
  cases first with
  | true =>
    have hnext : skipBlanks (c :: (cs ++ (itemsText false items ++ s))) = _ :=
      skipBlanks_cons hblank _
    simp [endArray, itemsText, Lead.text, hcs, hnext, hcomma, hend]
  | false =>
    have hnext : skipBlanks
        (',' :: (lead.inner.chars ++ (doc.text ++ (itemsText false items ++ s)))) = _ :=
      skipBlanks_cons rfl _
    simp [endArray, itemsText, Lead.text, hnext]
    split <;> rfl

/-- What is read as the end of an array is one. -/
theorem exists_of_endArray {s rest : List Char} (h : endArray s = .ok rest) :
    ∃ gap : Blanks, s = gap.chars ++ ']' :: rest := by
  unfold endArray at h
  split at h
  · cases h
  · next r hs =>
    cases h
    exact Blanks.exists_of_skipBlanks hs
  · split at h <;> cases h
  · cases h

/-- Items are read into a draft as they are found, and then something is made of the draft and the
array ends. -/
theorem toOption_readPositions {β : Type} (make : σ → Option β) {fs : List (RecordField σ)}
    (hfields : ∀ f ∈ fs, ∀ draft, (f.decode draft).Agrees) (depth : Nat) {items : Nat}
    {elements : List (Lead × Document)}
    (hitems : ∀ item ∈ elements, item.2.text.length < items) (index : Nat) (draft : σ)
    (gap : Blanks) (rest : List Char) :
    ((r.readPositions ⟨depth, items⟩ index fs draft
      (itemsText (index == 0) elements ++ (gap.chars ++ ']' :: rest))).toOption.bind
        fun p => (make p.1).bind fun x => (endArray p.2).toOption.map (x, ·)) =
      ((positionsFound depth fs elements draft).bind make).map (·, rest) := by
  induction fs generalizing elements index draft gap with
  | nil =>
    rw [readPositions]
    match elements with
    | [] =>
      rw [itemsText, List.nil_append, Except.toOption_ok, Option.bind_some, endArray_end,
        positionsFound, Option.bind_some]
      cases make draft <;> rfl
    | (lead, doc) :: elements =>
      rw [Except.toOption_ok, Option.bind_some, toOption_endArray_cons]
      cases make draft <;> rfl
  | cons f fs ih =>
    have hrest := fun f hf => hfields f (List.mem_cons_of_mem _ hf)
    have hfirst : (index + 1 == 0) = false := rfl
    match elements with
    | [] =>
      -- Without further items the fields that are left must not be required.
      have hnext := ih hrest hitems (index + 1) draft .none
      rw [hfirst, itemsText, List.nil_append, Blanks.chars_none, List.nil_append] at hnext
      rw [itemsText, List.nil_append, readPositions, nextItem_end, positionsFound]
      cases f.required with
      | true => rfl
      | false => exact hnext
    | (lead, doc) :: elements =>
      obtain ⟨c, cs, hcs, hblank, -, hend, -⟩ := doc.exists_text_eq_cons
      have hdoc := (hfields f List.mem_cons_self draft).ofText depth items doc
        (hitems (lead, doc) List.mem_cons_self) .none
        (itemsText false elements ++ (gap.chars ++ ']' :: rest))
        (doc.before_of_delimited (delimited_items elements gap rest))
      have hnext := ih hrest (fun item hitem => hitems item (List.mem_cons_of_mem _ hitem))
        (index + 1)
      rw [hfirst] at hnext
      rw [Blanks.chars_none, List.nil_append] at hdoc
      rw [itemsText, List.append_assoc, List.append_assoc, readPositions, positionsFound]
      rw [hcs, List.cons_append] at hdoc ⊢
      rw [lead.nextItem_text (index == 0) hblank hend]
      simp only [Except.toOption_bind, Except.toOption_ok, Option.bind_some, if_true,
        toOption_within, hdoc, Option.bind_eq_bind]
      cases (f.decode draft).found depth doc with
      | none => rfl
      | some draft => exact hnext draft gap

/-- What is found at items is what their values are decoded as. -/
theorem positionsFound_eq {depth : Nat} {fs : List (RecordField σ)}
    (hfields : ∀ f ∈ fs, ∀ draft, (f.decode draft).Agrees) {items : List (Lead × Document)}
    {vs : List Value} (hvalue : itemsValue? items = some vs)
    (hdepth : Value.depthOfItems vs ≤ depth) (length index : Nat) (draft : σ) :
    positionsFound depth fs items draft = (r.positionsOf length index fs vs draft).toOption := by
  induction fs generalizing items vs index draft with
  | nil =>
    cases items with
    | nil =>
      cases hvalue
      rfl
    | cons item items =>
      simp only [itemsValue?, Option.bind_eq_bind, Option.bind_eq_some_iff] at hvalue
      obtain ⟨v, -, vs, -, heq⟩ := hvalue
      cases heq
      rfl
  | cons f fs ih =>
    have hrest := fun f hf => hfields f (List.mem_cons_of_mem _ hf)
    cases items with
    | nil =>
      have hnext := ih hrest hvalue hdepth (index + 1) draft
      cases hvalue
      rw [positionsFound, positionsOf]
      cases f.required with
      | true => rfl
      | false => exact hnext
    | cons item items =>
      obtain ⟨lead, doc⟩ := item
      simp only [itemsValue?, Option.bind_eq_bind, Option.bind_eq_some_iff] at hvalue
      obtain ⟨v, hv, vs, hvs, heq⟩ := hvalue
      cases heq
      rw [Value.depthOfItems] at hdepth
      have hv' : v.depth ≤ depth := by omega
      have hf := (hfields f List.mem_cons_self draft).ofValue hv hv'
      have hnext := ih hrest hvs (by omega) (index + 1)
      simp only [positionsFound, positionsOf, hf, Option.bind_eq_bind, Except.toOption_bind,
        toOption_within, hnext]

/-- What is read as items of an array are items, if the array ends after them. -/
theorem exists_of_readPositions {limits : Limits} {fs : List (RecordField σ)}
    (hfields : ∀ f ∈ fs, ∀ draft, (f.decode draft).Agrees) {index : Nat} {draft draft' : σ}
    {s rest : List Char} {gap : Blanks}
    (h : r.readPositions limits index fs draft s = .ok (draft', gap.chars ++ ']' :: rest)) :
    ∃ (items : List (Lead × Document)) (gap : Blanks),
      s = itemsText (index == 0) items ++ (gap.chars ++ ']' :: rest) := by
  induction fs generalizing index draft s with
  | nil =>
    cases h
    exact ⟨[], gap, rfl⟩
  | cons f fs ih =>
    have hrest := fun f hf => hfields f (List.mem_cons_of_mem _ hf)
    obtain ⟨⟨more, s₁⟩, hnext, hbody⟩ := Except.bind_eq_ok_iff.mp h
    cases more with
    | true =>
      obtain ⟨lead, rfl⟩ := exists_of_nextItem_true hnext
      obtain ⟨⟨draft₂, s₂⟩, hitem, hloop⟩ := Except.bind_eq_ok_iff.mp hbody
      obtain ⟨b, doc, rfl⟩ := (hfields f List.mem_cons_self draft).bounded limits _ _ _
        (Except.mapError_eq_ok_iff.mp hitem)
      obtain ⟨items, gap, rfl⟩ := ih hrest hloop
      refine ⟨(lead.pad b, doc) :: items, gap, ?_⟩
      rw [itemsText, lead.text_pad]
      simp only [List.append_assoc]
      rfl
    | false =>
      obtain ⟨gap', s', rfl, rfl⟩ := exists_of_nextItem_false hnext
      have hloop : ∃ index draft, r.readPositions limits (index + 1) fs draft (']' :: s') =
          .ok (draft', gap.chars ++ ']' :: rest) := by
        dsimp only at hbody
        rw [if_neg Bool.false_ne_true] at hbody
        split at hbody
        · cases hbody
        · exact ⟨index, draft, hbody⟩
      obtain ⟨index', draft, hloop⟩ := hloop
      obtain ⟨items, gap'', hs⟩ := ih hrest hloop
      -- The bracket is next, so no items are left before it.
      cases items with
      | nil =>
        obtain ⟨-, rfl⟩ := Blanks.eq_of_append_eq_cons rfl hs.symm
        exact ⟨[], gap', rfl⟩
      | cons item items =>
        have hfirst : (index' + 1 == 0) = false := rfl
        rw [hfirst, itemsText, Lead.text, List.append_assoc, List.append_assoc] at hs
        obtain ⟨hcomma, -⟩ := Blanks.eq_of_append_eq_cons rfl hs.symm
        exact absurd hcomma (by decide)

/-! ## Records -/

variable (r) in
/-- What is found at a document that is taken for a record. -/
def recordFound (depth : Nat) : Document → Option α
  | .object members _ =>
    match depth with
    | 0 => none
    | depth + 1 => (r.fieldsFound depth members r.start).bind fun draft => (r.build draft).toOption
  | .array items _ =>
    match depth with
    | 0 => none
    | depth + 1 =>
      (positionsFound depth r.fields items r.start).bind fun draft => (r.build draft).toOption
  | _ => none

/-- A scalar is no record. -/
theorem recordFound_scalar (depth : Nat) {doc : Document} (h : doc.IsScalar) :
    r.recordFound depth doc = none := by
  cases doc with
  | array _ _ => exact h.elim
  | object _ _ => exact h.elim
  | _ => rfl

/-- A record is read as it is found. -/
theorem decoder_finds (hfields : ∀ f ∈ r.fields, ∀ draft, (f.decode draft).Agrees)
    (depth items : Nat) (doc : Document) (hitems : doc.text.length < items) :
    Finds (r.decoder.ofText ⟨depth, items⟩) doc (r.recordFound depth doc) := by
  intro b rest hbefore
  rw [decoder, Except.toOption_bind, doc.toOption_readBeginning b hbefore]
  rcases doc.scalar_or_container with hscalar | ⟨elements, gap, rfl⟩ | ⟨members, gap, rfl⟩
  · rw [hscalar.beginning?_eq, recordFound_scalar depth hscalar]
    cases doc.value? <;> rfl
  · cases depth with
    | zero => rfl
    | succ depth =>
      obtain ⟨-, hlengths⟩ := items_lt_of_text_lt hitems
      have hread := toOption_readPositions (r := r) (fun draft => (r.build draft).toOption)
        hfields depth hlengths 0 r.start gap rest
      -- The record is built before its bracket is closed: both follow the positions.
      refine (toOption_enter_succ _ _ _ _ _ _).trans (Eq.trans ?_ hread)
      simp only [Except.toOption_bind, toOption_raise]
      congr 1
      funext p
      congr 1
      funext x
      cases (endArray p.2).toOption <;> rfl
  · cases depth with
    | zero => rfl
    | succ depth =>
      obtain ⟨hbound, hlengths⟩ := members_lt_of_text_lt hitems
      have hread := toOption_readFields hfields depth hbound hlengths true r.start gap rest
      refine (toOption_enter_succ _ _ _ _ _ _).trans ?_
      rw [Except.toOption_bind, hread, recordFound]
      cases r.fieldsFound depth members r.start with
      | none => rfl
      | some draft =>
        simp only [Option.map_some, Option.bind_some, Except.toOption_bind, toOption_raise]
        cases (r.build draft).toOption <;> rfl

/-- What is found at a record is what its value is decoded as. -/
theorem recordFound_eq (hfields : ∀ f ∈ r.fields, ∀ draft, (f.decode draft).Agrees) {depth : Nat}
    {doc : Document} {v : Value} (hv : doc.value? = some v) (hdepth : v.depth ≤ depth) :
    r.recordFound depth doc = (r.decoder.ofValue v).toOption := by
  rcases doc.scalar_or_container with hscalar | ⟨items, gap, rfl⟩ | ⟨members, gap, rfl⟩
  · obtain ⟨harray, hobject⟩ := hscalar.value?_ne hv
    rw [recordFound_scalar depth hscalar]
    cases v with
    | array vs => exact absurd rfl (harray vs)
    | object ms => exact absurd rfl (hobject ms)
    | _ => rfl
  · obtain ⟨vs, hvs, rfl⟩ := Option.map_eq_some_iff.mp hv
    obtain ⟨depth, rfl⟩ := Nat.exists_eq_add_one.mpr (Nat.zero_lt_of_lt hdepth)
    rw [Value.depth] at hdepth
    have hfound := positionsFound_eq (r := r) hfields hvs (Nat.le_of_succ_le_succ hdepth)
      vs.length 0 r.start
    simp only [recordFound, hfound, decoder, Except.toOption_bind, toOption_raise]
  · obtain ⟨ms, hms, rfl⟩ := Option.map_eq_some_iff.mp hv
    obtain ⟨depth, rfl⟩ := Nat.exists_eq_add_one.mpr (Nat.zero_lt_of_lt hdepth)
    rw [Value.depth] at hdepth
    have hfound := fieldsFound_eq hfields hms (Nat.le_of_succ_le_succ hdepth) r.start
    simp only [recordFound, hfound, decoder, Except.toOption_bind, toOption_raise]

/-- What is read as a record is an array or an object. -/
theorem exists_of_decoder (hfields : ∀ f ∈ r.fields, ∀ draft, (f.decode draft).Agrees)
    {limits : Limits} {s rest : List Char} {x : α}
    (h : r.decoder.ofText limits s = .ok (x, rest)) :
    ∃ (b : Blanks) (doc : Document), ¬ doc.IsScalar ∧ s = b.chars ++ (doc.text ++ rest) := by
  obtain ⟨⟨beginning, s₁⟩, hbegin, hbody⟩ := Except.bind_eq_ok_iff.mp h
  obtain ⟨b, s', rfl, hbegins⟩ := exists_of_readBeginning hbegin
  cases hbegins with
  | scalar => cases hbody
  | array s' =>
    obtain ⟨depth, hinside⟩ := exists_of_enter hbody
    obtain ⟨⟨draft, s₂⟩, hread, hinside⟩ := Except.bind_eq_ok_iff.mp hinside
    obtain ⟨y, -, hinside⟩ := Except.bind_eq_ok_iff.mp hinside
    obtain ⟨s₃, hend, heq⟩ := Except.bind_eq_ok_iff.mp hinside
    cases heq
    obtain ⟨gap, rfl⟩ := exists_of_endArray hend
    obtain ⟨items, gap', rfl⟩ := exists_of_readPositions hfields hread
    exact ⟨b, .array items gap', id, by simp [text]⟩
  | object s' =>
    obtain ⟨depth, hinside⟩ := exists_of_enter hbody
    obtain ⟨⟨draft, s₂⟩, hread, hinside⟩ := Except.bind_eq_ok_iff.mp hinside
    obtain ⟨y, -, heq⟩ := Except.bind_eq_ok_iff.mp hinside
    cases heq
    obtain ⟨members, gap, r', rfl, rfl⟩ := exists_of_readFields hfields hread
    exact ⟨b, .object members gap, id, by simp [text]⟩

/-- What is read as a record is a document. -/
theorem decoder_bounded (hfields : ∀ f ∈ r.fields, ∀ draft, (f.decode draft).Agrees)
    (limits : Limits) : Bounded (r.decoder.ofText limits) := by
  intro s x rest h
  obtain ⟨b, doc, -, hs⟩ := exists_of_decoder hfields h
  exact ⟨b, doc, hs⟩

/-- Records are read as they are decoded if their fields are. -/
theorem agrees (hfields : ∀ f ∈ r.fields, ∀ draft, (f.decode draft).Agrees) : r.decoder.Agrees :=
  Decoder.Agrees.of_finds r.recordFound (decoder_finds hfields) (recordFound_eq hfields)
    (decoder_bounded hfields)

end Record

end GrammarTypes.Decode
