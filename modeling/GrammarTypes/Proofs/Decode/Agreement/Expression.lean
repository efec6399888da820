import GrammarTypes.Proofs.Decode.Agreement.Basic

/-!
# Expressions that agree

The expression of a rule is read with its own tag on the way and all else whole into memory. The tag
is a member of an object or the first item of an array. Both ways to read an expression come to the
same tag and body, and the body is decoded in memory by both (`Decoder.expression_agrees`).
-/

namespace GrammarTypes.Decode

open Json Json.Document

/-! ## Tags -/

/-- Tags are taken for the kinds that they name. -/
theorem readTag_takesScalars : TakesScalars readTag fun v => (kindOf v).toOption := by
  intro s
  rw [readTag, Except.toOption_bind]
  congr 1
  funext p
  rcases p with ⟨(v | - | -), r⟩
  · simp only [Except.toOption_bind, toOption_raise]
    cases (kindOf v).toOption <;> rfl
  · rfl
  · rfl

/-- The kind that is found at a tag. -/
def tagFound (doc : Document) : Option Expr.Kind :=
  doc.scalar?.bind fun v => (kindOf v).toOption

/-- A tag is read as the kind that is found at it. -/
theorem readTag_finds (doc : Document) : Finds readTag doc (tagFound doc) :=
  readTag_takesScalars.finds doc

/-- The kind that is found at a tag is the one that its value names. -/
theorem tagFound_eq {doc : Document} {v : Value} (hv : doc.value? = some v) :
    tagFound doc = (kindOf v).toOption :=
  TakesScalars.bind_scalar?_eq (fun _ => rfl) (fun _ => rfl) hv

/-! ## Members -/

/-- The kind and the other members that are found at the members of an object, when a kind may have
been seen before them. -/
def taggedFound (depth : Nat) (seen : Option Expr.Kind) :
    List (Lead × Name × Document) → Option (Expr.Kind × List (String × Value))
  | [] => seen.map (·, [])
  | (_, name, doc) :: members => do
    let key ← name.quoted.value?
    if key = tagKey then
      if seen.isSome then none
      else do
        let kind ← tagFound doc
        taggedFound depth (some kind) members
    else do
      let v ← doc.valueWithin? depth
      let (kind, ms) ← taggedFound depth seen members
      return (kind, (key, v) :: ms)

/-- Members are read as they are found. -/
theorem toOption_readTagged (depth : Nat) {items bound : Nat}
    {members : List (Lead × Name × Document)} (hbound : members.length < bound)
    (hitems : ∀ member ∈ members, member.2.2.text.length < items) (first : Bool)
    (seen : Option Expr.Kind) (gap : Blanks) (rest : List Char) :
    (readTagged ⟨depth, items⟩ bound first seen
      (membersText first members ++ (gap.chars ++ '\x7d' :: rest))).toOption =
      (taggedFound depth seen members).map (·, '\x7d' :: rest) := by
  induction members generalizing bound first seen with
  | nil =>
    obtain ⟨bound, rfl⟩ := Nat.exists_eq_add_one.mpr hbound
    rw [membersText, List.nil_append, readTagged, nextKey_end]
    cases seen <;> rfl
  | cons member members ih =>
    obtain ⟨lead, name, doc⟩ := member
    obtain ⟨bound, rfl⟩ := Nat.exists_eq_add_one.mpr (Nat.zero_lt_of_lt hbound)
    have hbound' : members.length < bound := by simpa using hbound
    have hmembers := ih hbound' fun member hmember => hitems member (List.mem_cons_of_mem _ hmember)
    have hdoc := hitems (lead, name, doc) List.mem_cons_self
    have hbefore := doc.before_of_delimited (delimited_members members gap rest)
    have htag := readTag_finds doc name.inner _ hbefore
    have hvalue := doc.readValue_finds hdoc depth name.inner _ hbefore
    simp only [membersText, Name.text, List.append_assoc, List.cons_append, readTagged,
      Except.toOption_bind, toOption_within, lead.toOption_nextKey_text first name.quoted,
      taggedFound]
    cases name.quoted.value? with
    | none => rfl
    | some key =>
      -- The tag is read on the way, and every other member into memory.
      simp only [Option.map_some, Option.bind_some, Option.bind_eq_bind, readMember_append]
      split
      · split
        · rfl
        · simp only [Except.toOption_bind, toOption_within, htag]
          cases tagFound doc with
          | none => rfl
          | some kind => exact hmembers false (some kind)
      · simp only [Except.toOption_bind, toOption_within, hvalue]
        cases doc.valueWithin? depth with
        | none => rfl
        | some v =>
          simp only [Option.map_some, Option.bind_some, hmembers false seen]
          cases taggedFound depth seen members <;> rfl

/-- What is found at members is what their values are decoded as. -/
theorem taggedFound_eq {depth : Nat} {members : List (Lead × Name × Document)}
    {ms : List (String × Value)} (hvalue : membersValue? members = some ms)
    (hdepth : Value.depthOfMembers ms ≤ depth) (seen : Option Expr.Kind) :
    taggedFound depth seen members = (taggedOf seen ms).toOption := by
  induction members generalizing ms seen with
  | nil =>
    cases hvalue
    cases seen <;> rfl
  | cons member members ih =>
    obtain ⟨lead, name, doc⟩ := member
    simp only [membersValue?, Option.bind_eq_bind, Option.bind_eq_some_iff] at hvalue
    obtain ⟨key, hkey, v, hv, ms, hms, heq⟩ := hvalue
    cases heq
    rw [Value.depthOfMembers] at hdepth
    have hv' : v.depth ≤ depth := by omega
    have hrest := ih hms (by omega)
    simp only [taggedFound, taggedOf, hkey, Option.bind_eq_bind, Option.bind_some]
    split
    · split
      · rfl
      · simp only [tagFound_eq hv, hrest, Except.toOption_bind, toOption_within, toOption_raise]
    · simp only [valueWithin?_of_value? hv hv', hrest, Option.bind_some, Except.toOption_bind]
      rfl

/-- What is read as members of an object are members, up to its end. -/
theorem exists_of_readTagged {limits : Limits} {bound : Nat} {first : Bool}
    {seen : Option Expr.Kind} {s s' : List Char} {tagged : Expr.Kind × List (String × Value)}
    (h : readTagged limits bound first seen s = .ok (tagged, s')) :
    ∃ (members : List (Lead × Name × Document)) (gap : Blanks) (rest : List Char),
      s' = '\x7d' :: rest ∧ s = membersText first members ++ (gap.chars ++ '\x7d' :: rest) := by
  induction bound generalizing first seen s tagged with
  | zero => cases h
  | succ bound ih =>
    obtain ⟨⟨key?, s₁⟩, hnext, hbody⟩ := Except.bind_eq_ok_iff.mp h
    have hkey := Except.mapError_eq_ok_iff.mp hnext
    cases key? with
    | none =>
      obtain ⟨gap, rest, rfl, rfl⟩ := exists_of_nextKey_none hkey
      cases seen with
      | none => cases hbody
      | some kind =>
        cases hbody
        exact ⟨[], gap, rest, rfl, rfl⟩
    | some key =>
      obtain ⟨lead, q, rfl⟩ := exists_of_nextKey_some hkey
      -- A tag or any other value is read, and then the members after it.
      have hmember : ∃ (name : Name) (doc : Document) (s₂ : List Char) (seen₂ : Option Expr.Kind)
          (tagged₂ : Expr.Kind × List (String × Value)),
          q.text ++ s₁ = name.text ++ (doc.text ++ s₂) ∧
            readTagged limits bound false seen₂ s₂ = .ok (tagged₂, s') := by
        dsimp only at hbody
        split at hbody
        · split at hbody
          · cases hbody
          · obtain ⟨⟨kind, s₂⟩, htag, hloop⟩ := Except.bind_eq_ok_iff.mp hbody
            obtain ⟨name, doc, htext⟩ := exists_of_readMember readTag_takesScalars.bounded htag q
            exact ⟨name, doc, s₂, some kind, tagged, htext, hloop⟩
        · obtain ⟨⟨v, s₂⟩, hvalue, hafter⟩ := Except.bind_eq_ok_iff.mp hbody
          obtain ⟨⟨tagged₂, s₃⟩, hloop, heq⟩ := Except.bind_eq_ok_iff.mp hafter
          cases heq
          obtain ⟨name, doc, htext⟩ := exists_of_readMember (readValue_bounded _ _) hvalue q
          exact ⟨name, doc, s₂, seen, tagged₂, htext, hloop⟩
      obtain ⟨name, doc, s₂, seen₂, tagged₂, htext, hloop⟩ := hmember
      obtain ⟨members, gap, rest, hs', rfl⟩ := ih hloop
      refine ⟨(lead, name, doc) :: members, gap, rest, hs', ?_⟩
      rw [htext, membersText]
      simp only [List.append_assoc]

/-! ## Expressions -/

/-- The kind and the body that are found at a document that is taken for an expression. -/
def bodyFound (depth : Nat) : Document → Option (Expr.Kind × Body)
  | .object members _ =>
    match depth with
    | 0 => none
    | depth + 1 => (taggedFound depth none members).map fun (kind, ms) => (kind, .members ms)
  | .array items _ =>
    match depth, items with
    | 0, _ => none
    | _, [] => none
    | depth + 1, (_, tag) :: items => do
      let kind ← tagFound tag
      let vs ← items.mapM fun item => item.2.valueWithin? depth
      return (kind, .items vs)
  | _ => none

/-- A scalar is no expression. -/
theorem bodyFound_scalar (depth : Nat) {doc : Document} (h : doc.IsScalar) :
    bodyFound depth doc = none := by
  cases doc with
  | array _ _ => exact h.elim
  | object _ _ => exact h.elim
  | _ => rfl

/-- The tag and the body of an expression are read as they are found. -/
theorem readBody_finds (depth items : Nat) (doc : Document) (hitems : doc.text.length < items) :
    Finds (readBody ⟨depth, items⟩) doc (bodyFound depth doc) := by
  intro b rest hbefore
  rw [readBody, Except.toOption_bind, doc.toOption_readBeginning b hbefore]
  rcases doc.scalar_or_container with hscalar | ⟨elements, gap, rfl⟩ | ⟨members, gap, rfl⟩
  · rw [hscalar.beginning?_eq, bodyFound_scalar depth hscalar]
    cases doc.value? <;> rfl
  · cases depth with
    | zero => rfl
    | succ depth =>
      refine (toOption_enter_succ _ _ _ _ _ _).trans ?_
      match elements with
      | [] =>
        rw [itemsText, List.nil_append, nextItem_end]
        rfl
      | (lead, tag) :: elements =>
        obtain ⟨hcount, hlengths⟩ := items_lt_of_text_lt hitems
        have hbound : elements.length < items := Nat.lt_of_succ_lt hcount
        have hvalues : ∀ item ∈ elements,
            Finds (readValue items depth) item.2 (item.2.valueWithin? depth) :=
          fun item hitem =>
            item.2.readValue_finds (hlengths item (List.mem_cons_of_mem _ hitem)) depth
        have htag := readTag_finds tag .none
          (itemsText false elements ++ (gap.chars ++ ']' :: rest))
          (tag.before_of_delimited (delimited_items elements gap rest))
        have hread := toOption_readItems hbound hvalues 1 gap rest
        obtain ⟨c, cs, hcs, hblank, -, hend, -⟩ := tag.exists_text_eq_cons
        rw [Blanks.chars_none, List.nil_append] at htag
        rw [itemsText, List.append_assoc, List.append_assoc, bodyFound]
        rw [hcs, List.cons_append] at htag ⊢
        -- The first item is the tag; the items after it are read as values.
        rw [lead.nextItem_text true hblank hend]
        simp only [Except.toOption_bind, Except.toOption_ok, Option.bind_some, if_true,
          toOption_within, htag, Option.bind_eq_bind]
        cases tagFound tag with
        | none => rfl
        | some kind =>
          simp only [Option.map_some, Option.bind_some]
          refine (congrArg (Option.bind · _) hread).trans ?_
          cases elements.mapM fun item => item.2.valueWithin? depth <;> rfl
  · cases depth with
    | zero => rfl
    | succ depth =>
      obtain ⟨hbound, hlengths⟩ := members_lt_of_text_lt hitems
      have hread := toOption_readTagged depth hbound hlengths true none gap rest
      refine (toOption_enter_succ _ _ _ _ _ _).trans ?_
      rw [Except.toOption_bind, hread, bodyFound]
      cases taggedFound depth none members <;> rfl

/-- The kind and the body that are found are those that the value is decoded as. -/
theorem bodyFound_eq {depth : Nat} {doc : Document} {v : Value} (hv : doc.value? = some v)
    (hdepth : v.depth ≤ depth) : bodyFound depth doc = (bodyOf v).toOption := by
  rcases doc.scalar_or_container with hscalar | ⟨items, gap, rfl⟩ | ⟨members, gap, rfl⟩
  · obtain ⟨harray, hobject⟩ := hscalar.value?_ne hv
    rw [bodyFound_scalar depth hscalar]
    cases v with
    | array vs => exact absurd rfl (harray vs)
    | object ms => exact absurd rfl (hobject ms)
    | _ => rfl
  · obtain ⟨vs, hvs, rfl⟩ := Option.map_eq_some_iff.mp hv
    obtain ⟨depth, rfl⟩ := Nat.exists_eq_add_one.mpr (Nat.zero_lt_of_lt hdepth)
    rw [Value.depth] at hdepth
    cases items with
    | nil =>
      cases hvs
      rfl
    | cons item items =>
      obtain ⟨lead, tag⟩ := item
      simp only [itemsValue?, Option.bind_eq_bind, Option.bind_eq_some_iff] at hvs
      obtain ⟨v, htag, vs, hvs, heq⟩ := hvs
      cases heq
      rw [Value.depthOfItems] at hdepth
      have hvalues : (items.mapM fun item => item.2.valueWithin? depth) = some vs :=
        (mapM_items_eq valueWithin?_of_value? hvs (by omega)).trans (mapM_some vs)
      simp only [bodyFound, bodyOf, tagFound_eq htag, hvalues, Option.bind_eq_bind,
        Option.bind_some, Except.toOption_bind, toOption_within, toOption_raise]
      rfl
  · obtain ⟨ms, hms, rfl⟩ := Option.map_eq_some_iff.mp hv
    obtain ⟨depth, rfl⟩ := Nat.exists_eq_add_one.mpr (Nat.zero_lt_of_lt hdepth)
    rw [Value.depth] at hdepth
    simp only [bodyFound, bodyOf, taggedFound_eq hms (Nat.le_of_succ_le_succ hdepth),
      Except.toOption_bind]
    cases (taggedOf none ms).toOption <;> rfl

/-- What is read as the tag and the body of an expression is a document. -/
theorem readBody_bounded (limits : Limits) : Bounded (readBody limits) := by
  intro s x rest h
  obtain ⟨⟨beginning, s₁⟩, hbegin, hbody⟩ := Except.bind_eq_ok_iff.mp h
  obtain ⟨b, s', rfl, hbegins⟩ := exists_of_readBeginning hbegin
  cases hbegins with
  | scalar => cases hbody
  | array s' =>
    obtain ⟨depth, hinside⟩ := exists_of_enter hbody
    obtain ⟨⟨more, s₂⟩, hnext, hchoice⟩ := Except.bind_eq_ok_iff.mp hinside
    cases more with
    | false => cases hchoice
    | true =>
      obtain ⟨lead, rfl⟩ := exists_of_nextItem_true hnext
      obtain ⟨⟨kind, s₃⟩, htag, hafter⟩ := Except.bind_eq_ok_iff.mp hchoice
      obtain ⟨⟨vs, s₄⟩, hitems, heq⟩ := Except.bind_eq_ok_iff.mp hafter
      cases heq
      obtain ⟨b', tag, rfl⟩ :=
        readTag_takesScalars.bounded _ _ _ (Except.mapError_eq_ok_iff.mp htag)
      obtain ⟨items, gap, rfl⟩ := exists_of_readItems (readValue_bounded _ _) hitems
      refine ⟨b, .array ((lead.pad b', tag) :: items) gap, ?_⟩
      simp [text, itemsText, lead.text_pad]
  | object s' =>
    obtain ⟨depth, hinside⟩ := exists_of_enter hbody
    obtain ⟨⟨tagged, s₂⟩, hread, heq⟩ := Except.bind_eq_ok_iff.mp hinside
    cases heq
    obtain ⟨members, gap, r', rfl, rfl⟩ := exists_of_readTagged hread
    exact ⟨b, .object members gap, by simp [text]⟩

/-- Expressions are read as they are decoded. -/
theorem Decoder.expression_agrees : Decoder.expression.Agrees := by
  apply Agrees.of_finds fun depth doc =>
    (bodyFound depth doc).bind fun p => (exprOfBody p.1 p.2).toOption
  · intro depth items doc hitems b rest hbefore
    have hfinds := readBody_finds depth items doc hitems b rest hbefore
    rw [Decoder.expression, Except.toOption_bind, hfinds]
    cases bodyFound depth doc with
    | none => rfl
    | some p =>
      simp only [Option.map_some, Option.bind_some, Except.toOption_bind, toOption_raise]
      cases (exprOfBody p.1 p.2).toOption <;> rfl
  · intro depth doc v hv hdepth
    simp only [bodyFound_eq hv hdepth, Decoder.expression, Except.toOption_bind, toOption_raise]
  · intro limits s x rest h
    obtain ⟨⟨p, s₁⟩, hbody, hafter⟩ := Except.bind_eq_ok_iff.mp h
    obtain ⟨e, -, heq⟩ := Except.bind_eq_ok_iff.mp hafter
    cases heq
    exact readBody_bounded limits _ _ _ hbody

end GrammarTypes.Decode
