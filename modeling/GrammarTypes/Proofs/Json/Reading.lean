import GrammarTypes.Proofs.Json.Separators

/-!
# Documents read from a text

A reader `Finds` something at a document if it takes the document, with the blanks before it, for
that thing and leaves the rest, whatever the rest is; it is `Bounded` if it gets through documents
only. Loops over items and members hand both on from the reader of an item to the reader of a
container, and so a value is read whole into memory as the value of its document
(`Document.readValue_finds`, `Document.readValue_bounded`).
-/

namespace GrammarTypes.Json

open Decode

/-! ## Loops -/

section Loops

variable {α : Type}

/-- A reader finds something at a document: it takes the document for that, whatever blanks precede
it and whatever follows. -/
def Finds (reader : Reader α) (doc : Document) (found : Option α) : Prop :=
  ∀ (b : Blanks) (rest : List Char), doc.Before rest →
    (reader (b.chars ++ (doc.text ++ rest))).toOption = found.map (·, rest)

/-- A reader is bounded by documents: it gets through nothing else. -/
def Bounded (reader : Reader α) : Prop :=
  ∀ s x rest, reader s = .ok (x, rest) →
    ∃ (b : Blanks) (doc : Document), s = b.chars ++ (doc.text ++ rest)

open Document

/-- The items of an array are read as what is found at each. -/
theorem toOption_readItems {reader : Reader α} {found : Document → Option α} {bound : Nat}
    {items : List (Lead × Document)} (hbound : items.length < bound)
    (h : ∀ item ∈ items, Finds reader item.2 (found item.2)) (index : Nat) (gap : Blanks)
    (rest : List Char) :
    (readItems reader bound index
      (itemsText (index == 0) items ++ (gap.chars ++ ']' :: rest))).toOption =
      (items.mapM fun item => found item.2).map (·, rest) := by
  induction items generalizing bound index with
  | nil =>
    obtain ⟨bound, rfl⟩ := Nat.exists_eq_add_one.mpr hbound
    rw [itemsText, List.nil_append, readItems, nextItem_end]
    rfl
  | cons item items ih =>
    obtain ⟨lead, doc⟩ := item
    obtain ⟨bound, rfl⟩ := Nat.exists_eq_add_one.mpr (Nat.zero_lt_of_lt hbound)
    obtain ⟨c, cs, hcs, hblank, -, hend, -⟩ := doc.exists_text_eq_cons
    have hbound' : items.length < bound := by simpa using hbound
    have hitems := ih hbound'
      (fun item hitem => h item (List.mem_cons_of_mem _ hitem)) (index + 1)
    have hfirst : (index + 1 == 0) = false := rfl
    rw [hfirst] at hitems
    -- What follows an item can follow a number, so the item ends where its text does.
    have hdoc := h (lead, doc) List.mem_cons_self .none
      (itemsText false items ++ (gap.chars ++ ']' :: rest))
      (doc.before_of_delimited (delimited_items items gap rest))
    rw [Blanks.chars_none, List.nil_append] at hdoc
    rw [itemsText, List.append_assoc, List.append_assoc, readItems]
    rw [hcs, List.cons_append] at hdoc ⊢
    rw [lead.nextItem_text (index == 0) hblank hend]
    simp only [Except.toOption_bind, Except.toOption_ok, Option.bind_some, if_true, toOption_within,
      hdoc, List.mapM_cons]
    cases found doc with
    | none => rfl
    | some x =>
      simp only [Option.map_some, Option.bind_some, hitems]
      cases items.mapM fun item => found item.2 <;> rfl

/-- The items of an array that are read are items of an array. -/
theorem exists_of_readItems {reader : Reader α} (h : Bounded reader) {bound index : Nat}
    {s rest : List Char} {xs : List α} (hread : readItems reader bound index s = .ok (xs, rest)) :
    ∃ (items : List (Lead × Document)) (gap : Blanks),
      s = itemsText (index == 0) items ++ (gap.chars ++ ']' :: rest) := by
  induction bound generalizing index s xs with
  | zero => cases hread
  | succ bound ih =>
    obtain ⟨⟨more, s₁⟩, hnext, hbody⟩ := Except.bind_eq_ok_iff.mp hread
    cases more with
    | false =>
      obtain ⟨gap, r, rfl, rfl⟩ := exists_of_nextItem_false hnext
      cases hbody
      exact ⟨[], gap, rfl⟩
    | true =>
      obtain ⟨lead, rfl⟩ := exists_of_nextItem_true hnext
      obtain ⟨⟨x, s₂⟩, hitem, hbody⟩ := Except.bind_eq_ok_iff.mp hbody
      obtain ⟨⟨xs, s₃⟩, hitems, hbody⟩ := Except.bind_eq_ok_iff.mp hbody
      cases hbody
      obtain ⟨b, doc, rfl⟩ := h _ _ _ (Except.mapError_eq_ok_iff.mp hitem)
      obtain ⟨items, gap, rfl⟩ := ih hitems
      refine ⟨(lead.pad b, doc) :: items, gap, ?_⟩
      rw [itemsText, lead.text_pad]
      simp only [List.append_assoc]
      rfl

/-- The value of a member is read after its name. -/
theorem readMember_append (name : Name) (key : String) (reader : Reader α) (s : List Char) :
    readMember key reader (name.outer.chars ++ ':' :: (name.inner.chars ++ s)) =
      within (.key key) (reader (name.inner.chars ++ s)) := by
  rw [readMember, readColon_append]
  rfl

/-- What is read of a member after its name is a colon and a document. -/
theorem exists_of_readMember {reader : Reader α} (h : Bounded reader) {key : String}
    {s rest : List Char} {x : α} (hread : readMember key reader s = .ok (x, rest)) (q : Quoted) :
    ∃ (name : Name) (doc : Document), q.text ++ s = name.text ++ (doc.text ++ rest) := by
  obtain ⟨s₁, hcolon, hvalue⟩ := Except.bind_eq_ok_iff.mp hread
  obtain ⟨outer, rfl⟩ := exists_of_readColon hcolon
  obtain ⟨inner, doc, rfl⟩ := h _ _ _ (Except.mapError_eq_ok_iff.mp hvalue)
  exact ⟨⟨q, outer, inner⟩, doc, by simp [Name.text]⟩

/-- The name of a member and what is found at its value. -/
def memberFound (found : Document → Option α) (member : Lead × Name × Document) :
    Option (String × α) := do
  let key ← member.2.1.quoted.value?
  let x ← found member.2.2
  return (key, x)

/-- The members of an object are read as their names and what is found at each. -/
theorem toOption_readMembers {reader : Reader α} {found : Document → Option α} {bound : Nat}
    {members : List (Lead × Name × Document)} (hbound : members.length < bound)
    (h : ∀ member ∈ members, Finds reader member.2.2 (found member.2.2)) (first : Bool)
    (gap : Blanks) (rest : List Char) :
    (readMembers reader bound first
      (membersText first members ++ (gap.chars ++ '\x7d' :: rest))).toOption =
      (members.mapM (memberFound found)).map (·, rest) := by
  induction members generalizing bound first with
  | nil =>
    obtain ⟨bound, rfl⟩ := Nat.exists_eq_add_one.mpr hbound
    rw [membersText, List.nil_append, readMembers, nextKey_end]
    rfl
  | cons member members ih =>
    obtain ⟨lead, name, doc⟩ := member
    obtain ⟨bound, rfl⟩ := Nat.exists_eq_add_one.mpr (Nat.zero_lt_of_lt hbound)
    have hbound' : members.length < bound := by simpa using hbound
    have hmembers := ih hbound'
      (fun member hmember => h member (List.mem_cons_of_mem _ hmember)) false
    have hdoc := h (lead, name, doc) List.mem_cons_self name.inner
      (membersText false members ++ (gap.chars ++ '\x7d' :: rest))
      (doc.before_of_delimited (delimited_members members gap rest))
    have hkey := lead.toOption_nextKey_text first name.quoted
    simp only [membersText, Name.text, List.append_assoc, List.cons_append, readMembers,
      Except.toOption_bind, toOption_within, hkey, List.mapM_cons, memberFound]
    cases name.quoted.value? with
    | none => rfl
    | some key =>
      simp only [Option.map_some, Option.bind_some, Option.bind_eq_bind, Except.toOption_bind,
        readMember_append, toOption_within, hdoc]
      cases found doc with
      | none => rfl
      | some x =>
        simp only [Option.map_some, Option.bind_some, hmembers]
        cases members.mapM (memberFound found) <;> rfl

/-- The members of an object that are read are members of an object. -/
theorem exists_of_readMembers {reader : Reader α} (h : Bounded reader) {bound : Nat} {first : Bool}
    {s rest : List Char} {ms : List (String × α)}
    (hread : readMembers reader bound first s = .ok (ms, rest)) :
    ∃ (members : List (Lead × Name × Document)) (gap : Blanks),
      s = membersText first members ++ (gap.chars ++ '\x7d' :: rest) := by
  induction bound generalizing first s ms with
  | zero => cases hread
  | succ bound ih =>
    obtain ⟨⟨key?, s₁⟩, hnext, hbody⟩ := Except.bind_eq_ok_iff.mp hread
    have hkey := Except.mapError_eq_ok_iff.mp hnext
    cases key? with
    | none =>
      obtain ⟨gap, r, rfl, rfl⟩ := exists_of_nextKey_none hkey
      cases hbody
      exact ⟨[], gap, rfl⟩
    | some key =>
      obtain ⟨lead, q, rfl⟩ := exists_of_nextKey_some hkey
      obtain ⟨⟨x, s₂⟩, hvalue, hbody⟩ := Except.bind_eq_ok_iff.mp hbody
      obtain ⟨⟨ms, s₃⟩, hmembers, hbody⟩ := Except.bind_eq_ok_iff.mp hbody
      cases hbody
      obtain ⟨name, doc, hmember⟩ := exists_of_readMember h hvalue q
      obtain ⟨members, gap, rfl⟩ := ih hmembers
      refine ⟨(lead, name, doc) :: members, gap, ?_⟩
      rw [hmember, membersText]
      simp only [List.append_assoc]

end Loops

/-! ## Whole values -/

namespace Value

mutual

/-- How deep a value nests: the number of arrays and objects inside one another. -/
def depth : Value → Nat
  | .array items => depthOfItems items + 1
  | .object members => depthOfMembers members + 1
  | _ => 0

/-- How deep the items of an array nest. -/
def depthOfItems : List Value → Nat
  | [] => 0
  | v :: vs => max v.depth (depthOfItems vs)

/-- How deep the members of an object nest. -/
def depthOfMembers : List (String × Value) → Nat
  | [] => 0
  | (_, v) :: ms => max v.depth (depthOfMembers ms)

end

end Value

namespace Document

/-- The value of a document that does not nest too deep. -/
def valueWithin? : (depth : Nat) → Document → Option Value
  | 0, .array _ _ => none
  | 0, .object _ _ => none
  | depth + 1, .array items _ => (items.mapM fun item => valueWithin? depth item.2).map .array
  | depth + 1, .object members _ =>
    (members.mapM (memberFound fun doc => valueWithin? depth doc)).map .object
  | _, doc => doc.value?

/-- A scalar does not nest. -/
theorem IsScalar.valueWithin?_eq {doc : Document} (h : doc.IsScalar) (depth : Nat) :
    doc.valueWithin? depth = doc.value? := by
  cases doc with
  | array _ _ => exact h.elim
  | object _ _ => exact h.elim
  | _ => cases depth <;> rfl

/-- What is found at the items of an array is what is made of their values. -/
theorem mapM_items_eq {β : Type} {found : Document → Option β} {make : Value → Option β}
    {depth : Nat}
    (h : ∀ {doc : Document} {v}, doc.value? = some v → v.depth ≤ depth → found doc = make v)
    {items : List (Lead × Document)} {vs : List Value} (hvalue : itemsValue? items = some vs)
    (hdepth : Value.depthOfItems vs ≤ depth) :
    (items.mapM fun item => found item.2) = vs.mapM make := by
  induction items generalizing vs with
  | nil =>
    cases hvalue
    rfl
  | cons item items ih =>
    simp only [itemsValue?, Option.bind_eq_bind, Option.bind_eq_some_iff] at hvalue
    obtain ⟨v, hv, vs, hvs, heq⟩ := hvalue
    cases heq
    rw [Value.depthOfItems] at hdepth
    rw [List.mapM_cons, List.mapM_cons, h hv (by omega), ih hvs (by omega)]

/-- The members of an object have their names, and what is found at them is what is made of their
values. -/
theorem mapM_members_eq {β : Type} {found : Document → Option β} {make : Value → Option β}
    {depth : Nat}
    (h : ∀ {doc : Document} {v}, doc.value? = some v → v.depth ≤ depth → found doc = make v)
    {members : List (Lead × Name × Document)} {ms : List (String × Value)}
    (hvalue : membersValue? members = some ms) (hdepth : Value.depthOfMembers ms ≤ depth) :
    members.mapM (memberFound found) = ms.mapM fun m => (make m.2).map (m.1, ·) := by
  induction members generalizing ms with
  | nil =>
    cases hvalue
    rfl
  | cons member members ih =>
    simp only [membersValue?, Option.bind_eq_bind, Option.bind_eq_some_iff] at hvalue
    obtain ⟨key, hkey, v, hv, ms, hms, heq⟩ := hvalue
    cases heq
    rw [Value.depthOfMembers] at hdepth
    rw [List.mapM_cons, List.mapM_cons, memberFound, hkey, h hv (by omega), ih hms (by omega)]
    cases make v <;> rfl

/-- What is found everywhere is found together. -/
theorem mapM_some {β : Type} (xs : List β) : xs.mapM some = some xs := by
  induction xs with
  | nil => rfl
  | cons x xs ih => rw [List.mapM_cons, ih]; rfl

/-- The value of a document is found within its depth. -/
theorem valueWithin?_of_value? {doc : Document} {v : Value} {depth : Nat}
    (h : doc.value? = some v) (hdepth : v.depth ≤ depth) : doc.valueWithin? depth = some v := by
  induction depth generalizing doc v with
  | zero =>
    rcases doc.scalar_or_container with hscalar | ⟨items, gap, rfl⟩ | ⟨members, gap, rfl⟩
    · rw [hscalar.valueWithin?_eq, h]
    · obtain ⟨vs, -, rfl⟩ := Option.map_eq_some_iff.mp h
      cases hdepth
    · obtain ⟨ms, -, rfl⟩ := Option.map_eq_some_iff.mp h
      cases hdepth
  | succ depth ih =>
    rcases doc.scalar_or_container with hscalar | ⟨items, gap, rfl⟩ | ⟨members, gap, rfl⟩
    · rw [hscalar.valueWithin?_eq, h]
    · obtain ⟨vs, hvs, rfl⟩ := Option.map_eq_some_iff.mp h
      rw [Value.depth] at hdepth
      rw [valueWithin?, mapM_items_eq ih hvs (by omega), mapM_some]
      rfl
    · obtain ⟨ms, hms, rfl⟩ := Option.map_eq_some_iff.mp h
      rw [Value.depth] at hdepth
      have hmake : ms.mapM (fun m => (some m.2).map (m.1, ·)) = some ms := mapM_some ms
      rw [valueWithin?, mapM_members_eq ih hms (by omega), hmake]
      rfl

/-- A value is read whole as the value of its document. -/
theorem readValue_finds (doc : Document) {items : Nat} (h : doc.text.length < items) (depth : Nat) :
    Finds (readValue items depth) doc (doc.valueWithin? depth) := by
  -- The induction is on the depth. The bound stays, since an item is shorter than the whole.
  induction depth generalizing doc with
  | zero =>
    intro b rest hbefore
    rw [readValue, Except.toOption_bind, doc.toOption_readBeginning b hbefore]
    rcases doc.scalar_or_container with hscalar | ⟨items', gap, rfl⟩ | ⟨members, gap, rfl⟩
    · rw [hscalar.beginning?_eq, hscalar.valueWithin?_eq]
      cases doc.value? <;> rfl
    · rfl
    · rfl
  | succ depth ih =>
    intro b rest hbefore
    rw [readValue, Except.toOption_bind, doc.toOption_readBeginning b hbefore]
    rcases doc.scalar_or_container with hscalar | ⟨elements, gap, rfl⟩ | ⟨members, gap, rfl⟩
    · rw [hscalar.beginning?_eq, hscalar.valueWithin?_eq]
      cases doc.value? <;> rfl
    · obtain ⟨hbound, hlengths⟩ := items_lt_of_text_lt h
      have hitems : ∀ item ∈ elements,
          Finds (readValue items depth) item.2 (item.2.valueWithin? depth) :=
        fun item hitem => ih item.2 (hlengths item hitem)
      have hread := toOption_readItems hbound hitems 0 gap rest
      simp only [beginning?, Option.bind_some, List.tail_cons, Except.toOption_bind]
      rw [beq_self_eq_true] at hread
      rw [hread, valueWithin?]
      cases elements.mapM fun item => valueWithin? depth item.2 <;> rfl
    · obtain ⟨hbound, hlengths⟩ := members_lt_of_text_lt h
      have hmembers : ∀ member ∈ members,
          Finds (readValue items depth) member.2.2 (member.2.2.valueWithin? depth) :=
        fun member hmember => ih member.2.2 (hlengths member hmember)
      have hread := toOption_readMembers hbound hmembers true gap rest
      simp only [beginning?, Option.bind_some, List.tail_cons, Except.toOption_bind]
      rw [hread, valueWithin?]
      cases members.mapM (memberFound fun doc => valueWithin? depth doc) <;> rfl

/-- A value that is read whole is a document. -/
theorem readValue_bounded (items depth : Nat) : Bounded (readValue items depth) := by
  induction depth with
  | zero =>
    intro s v rest h
    rw [readValue] at h
    obtain ⟨⟨beginning, s₁⟩, hbegin, hbody⟩ := Except.bind_eq_ok_iff.mp h
    obtain ⟨b, s', rfl, hbegins⟩ := exists_of_readBeginning hbegin
    cases hbegins with
    | scalar v doc _ =>
      cases hbody
      exact ⟨b, doc, rfl⟩
    | array _ => cases hbody
    | object _ => cases hbody
  | succ depth ih =>
    intro s v rest h
    rw [readValue] at h
    obtain ⟨⟨beginning, s₁⟩, hbegin, hbody⟩ := Except.bind_eq_ok_iff.mp h
    obtain ⟨b, s', rfl, hbegins⟩ := exists_of_readBeginning hbegin
    cases hbegins with
    | scalar v doc _ =>
      cases hbody
      exact ⟨b, doc, rfl⟩
    | array r =>
      obtain ⟨⟨vs, s₂⟩, hitems, hbody⟩ := Except.bind_eq_ok_iff.mp hbody
      cases hbody
      obtain ⟨elements, gap, rfl⟩ := exists_of_readItems ih hitems
      exact ⟨b, .array elements gap, by simp [text]⟩
    | object r =>
      obtain ⟨⟨ms, s₂⟩, hmembers, hbody⟩ := Except.bind_eq_ok_iff.mp hbody
      cases hbody
      obtain ⟨members, gap, rfl⟩ := exists_of_readMembers ih hmembers
      exact ⟨b, .object members gap, by simp [text]⟩

end Document

end GrammarTypes.Json
