import GrammarTypes.Proofs.Decode.Agreement.Grammar

/-!
# Failures that agree

Both ways of a decoder visit a document in order, and so the first thing that is wrong with it is
found by both: where the value of a document cannot be decoded, its text cannot be read, for the
same reason and at the same path (`Decoder.FailsAlike`). Only the place in the text is more. A
record that is written as too long a list is the one exception: a reader of a text has no use for
the length and does not count it.
-/

namespace GrammarTypes.Decode

open Json Json.Document

variable {α β : Type}

/-! ## The same failure -/

/-- An outcome is the given failure, noticed at any place. -/
def FailsAs (x : Except Failure α) (f : Failure) : Prop :=
  ∃ place, x = .error { f with place := place }

namespace FailsAs

variable {x : Except Failure α} {f : Failure}

theorem bind (h : FailsAs x f) (g : α → Except Failure β) : FailsAs (x >>= g) f := by
  obtain ⟨place, rfl⟩ := h
  exact ⟨place, rfl⟩

theorem map (h : FailsAs x f) (g : α → β) : FailsAs (x.map g) f := by
  obtain ⟨place, rfl⟩ := h
  exact ⟨place, rfl⟩

/-- A step that succeeds leaves the failure to those after it. -/
theorem ok_bind {a : α} (hx : x = .ok a) {g : α → Except Failure β} (h : FailsAs (g a) f) :
    FailsAs (x >>= g) f := by
  subst hx
  exact h

theorem within (h : FailsAs x f) (step : Segment) :
    FailsAs (Decode.within step x) (f.inside step) := by
  obtain ⟨place, rfl⟩ := h
  exact ⟨place, rfl⟩

theorem raise {y : Except Cause α} {cause : Cause} (h : y = .error cause) (place : Place) :
    FailsAs (Decode.raise place y) { cause := cause } := by
  subst h
  exact ⟨place, rfl⟩

/-- A container settles the place of a failure inside it, and nothing else. -/
theorem enter {past : List Char → List Char} {depth items : Nat} {body : Limits → Reader α}
    {s : List Char} (h : FailsAs (body ⟨depth, items⟩ s) f) (c : Char) :
    FailsAs (Decode.enter past ⟨depth + 1, items⟩ body (c :: s)) f := by
  obtain ⟨place, h⟩ := h
  have inside : Decode.enter past ⟨depth + 1, items⟩ body (c :: s) =
      (body ⟨depth, items⟩ s).mapError (Failure.settle past) := rfl
  rw [inside, h]
  cases place with
  | nowhere => exact ⟨_, rfl⟩
  | before rest => exact ⟨_, rfl⟩
  | «at» rest ahead => exact ⟨_, rfl⟩

end FailsAs

/-- A reader fails at a document in the given way, whatever stands around it. -/
def FailsAt (reader : Reader α) (doc : Document) (f : Failure) : Prop :=
  ∀ (b : Blanks) (rest : List Char), doc.Before rest →
    FailsAs (reader (b.chars ++ (doc.text ++ rest))) f

/-- A decoder fails at the text of a document as it fails at its value, but for records with too
many items. -/
def Decoder.FailsAlike (d : Decoder α) : Prop :=
  ∀ ⦃depth items : Nat⦄ ⦃doc : Document⦄ ⦃v : Value⦄ ⦃f : Failure⦄, doc.text.length < items →
    doc.value? = some v → v.depth ≤ depth → d.ofValue v = .error f →
    (∀ length, f.cause ≠ .longRecord length) → FailsAt (d.ofText ⟨depth, items⟩) doc f

/-- A decoder that agrees reads a thing from the text of a document that it decodes from its
value. -/
theorem Decoder.Agrees.reads {d : Decoder α} (hd : d.Agrees) {depth items : Nat} {doc : Document}
    {v : Value} {x : α} (hitems : doc.text.length < items) (hv : doc.value? = some v)
    (hdepth : v.depth ≤ depth) (h : d.ofValue v = .ok x) (b : Blanks) {rest : List Char}
    (hbefore : doc.Before rest) :
    d.ofText ⟨depth, items⟩ (b.chars ++ (doc.text ++ rest)) = .ok (x, rest) := by
  have hfound := hd.ofText depth items doc hitems b rest hbefore
  rw [hd.ofValue hv hdepth, h] at hfound
  exact Except.toOption_eq_some_iff.1 hfound

/-! ## Scalars and values in memory -/

/-- How a value begins in a text. -/
def Beginning.of : Value → Beginning
  | .array _ => .array
  | .object _ => .object
  | v => .scalar v

/-- The beginning of a document with a value is read as the beginning of the value. -/
theorem readBeginning_of_value {doc : Document} {v : Value} (hv : doc.value? = some v)
    (b : Blanks) {rest : List Char} (hbefore : doc.Before rest) :
    ∃ s, readBeginning (b.chars ++ (doc.text ++ rest)) = .ok (.of v, s) := by
  have hread := doc.toOption_readBeginning b hbefore
  rcases doc.scalar_or_container with hscalar | ⟨elements, gap, rfl⟩ | ⟨members, gap, rfl⟩
  · obtain ⟨harray, hobject⟩ := hscalar.value?_ne hv
    rw [hscalar.beginning?_eq, hv] at hread
    refine ⟨rest, ?_⟩
    rw [Except.toOption_eq_some_iff.1 hread]
    cases v with
    | array vs => exact absurd rfl (harray vs)
    | object ms => exact absurd rfl (hobject ms)
    | _ => rfl
  · obtain ⟨vs, -, rfl⟩ := Option.map_eq_some_iff.mp hv
    exact ⟨_, Except.toOption_eq_some_iff.1 hread⟩
  · obtain ⟨ms, -, rfl⟩ := Option.map_eq_some_iff.mp hv
    exact ⟨_, Except.toOption_eq_some_iff.1 hread⟩

namespace Decoder

theorem FailsAlike.map {d : Decoder α} (hd : d.FailsAlike) (g : α → β) : (d.map g).FailsAlike := by
  intro depth items doc v f hitems hv hdepth h hcause b rest hbefore
  exact (hd hitems hv hdepth (Except.map_eq_error_iff.1 h) hcause b rest hbefore).map _

theorem string_failsAlike : Decoder.string.FailsAlike := by
  intro depth items doc v f _ hv _ h _ b rest hbefore
  obtain ⟨s, hbegin⟩ := readBeginning_of_value hv b hbefore
  refine .ok_bind hbegin ?_
  cases v with
  | string text => cases h
  | _ => cases h; exact ⟨_, rfl⟩

theorem buffered_failsAlike (decode : Value → Except Cause α) :
    (buffered decode).FailsAlike := by
  intro depth items doc v f hitems hv hdepth h _ b rest hbefore
  obtain ⟨cause, hcause, rfl⟩ := Except.mapError_eq_error_iff.1 h
  have hread := doc.readValue_finds hitems depth b rest hbefore
  rw [valueWithin?_of_value? hv hdepth] at hread
  refine .ok_bind (Except.toOption_eq_some_iff.1 hread) ?_
  exact (FailsAs.raise hcause _).bind _

end Decoder

/-! ## Lists -/

/-- The next item of an array is gone to. -/
theorem nextItem_document (lead : Lead) (first : Bool) (doc : Document) (s : List Char) :
    nextItem first (lead.text first ++ (doc.text ++ s)) = .ok (true, doc.text ++ s) := by
  obtain ⟨c, cs, hcs, hblank, -, hend, -⟩ := doc.exists_text_eq_cons
  rw [hcs, List.cons_append]
  exact lead.nextItem_text first hblank hend _

/-- The name of the next member of an object is read. -/
theorem nextKey_name (lead : Lead) (first : Bool) {q : Quoted} {key : String}
    (h : q.value? = some key) (s : List Char) :
    nextKey first (lead.text first ++ (q.text ++ s)) = .ok (some key, s) := by
  have hread := lead.toOption_nextKey_text first q s
  rw [h] at hread
  exact Except.toOption_eq_some_iff.1 hread

/-- Items are read up to the first that fails. -/
theorem readItems_failsAs {d : Decoder α} (hd : d.Agrees) (hf : d.FailsAlike)
    {depth items bound : Nat} {elements : List (Lead × Document)} {vs : List Value}
    (hbound : elements.length < bound)
    (hitems : ∀ item ∈ elements, item.2.text.length < items)
    (hvalue : itemsValue? elements = some vs) (hdepth : Value.depthOfItems vs ≤ depth)
    {index : Nat} {f : Failure} (h : Decoder.itemsOf d.ofValue index vs = .error f)
    (hcause : ∀ length, f.cause ≠ .longRecord length) (gap : Blanks) (rest : List Char) :
    FailsAs (readItems (d.ofText ⟨depth, items⟩) bound index
      (itemsText (index == 0) elements ++ (gap.chars ++ ']' :: rest))) f := by
  induction elements generalizing bound index vs with
  | nil =>
    cases hvalue
    cases h
  | cons element elements ih =>
    obtain ⟨lead, doc⟩ := element
    simp only [itemsValue?, Option.bind_eq_bind, Option.bind_eq_some_iff] at hvalue
    obtain ⟨v, hv, vs, hvs, heq⟩ := hvalue
    cases heq
    rw [Value.depthOfItems] at hdepth
    have hv' : v.depth ≤ depth := by omega
    have hdoc : doc.text.length < items := hitems (lead, doc) List.mem_cons_self
    have hbefore := doc.before_of_delimited (delimited_items elements gap rest)
    obtain ⟨bound, rfl⟩ := Nat.exists_eq_add_one.mpr (Nat.zero_lt_of_lt hbound)
    rw [itemsText, List.append_assoc, List.append_assoc, readItems]
    refine .ok_bind (nextItem_document lead _ doc _) ?_
    dsimp only
    rw [if_pos rfl]
    -- Either this item fails, or it is read and one after it fails.
    rcases Except.bind_eq_error_iff.1 h with hitem | ⟨x, hitem, hrest⟩
    · obtain ⟨g, hg, rfl⟩ := Except.mapError_eq_error_iff.1 hitem
      exact ((hf hdoc hv hv' hg hcause .none _ hbefore).within _).bind _
    · have hread := hd.reads hdoc hv hv' (Except.mapError_eq_ok_iff.1 hitem) .none hbefore
      rw [Blanks.chars_none, List.nil_append] at hread
      refine .ok_bind (Except.mapError_eq_ok_iff.2 hread) ?_
      refine FailsAs.bind ?_ _
      have hnext : Decoder.itemsOf d.ofValue (index + 1) vs = .error f := by
        rcases Except.bind_eq_error_iff.1 hrest with hnext | ⟨xs, -, hpure⟩
        · exact hnext
        · cases hpure
      exact ih (by simpa using hbound)
        (fun item hitem => hitems item (List.mem_cons_of_mem _ hitem)) hvs (by omega) hnext

/-- A document whose value is an array is one. -/
theorem exists_of_value?_array {doc : Document} {vs : List Value}
    (h : doc.value? = some (.array vs)) :
    ∃ elements gap, doc = .array elements gap ∧ itemsValue? elements = some vs := by
  rcases doc.scalar_or_container with hscalar | ⟨elements, gap, rfl⟩ | ⟨members, gap, rfl⟩
  · exact absurd rfl ((hscalar.value?_ne h).1 vs)
  · obtain ⟨vs', hvs, heq⟩ := Option.map_eq_some_iff.mp h
    cases heq
    exact ⟨elements, gap, rfl, hvs⟩
  · obtain ⟨ms, -, heq⟩ := Option.map_eq_some_iff.mp h
    cases heq

/-- A document whose value is an object is one. -/
theorem exists_of_value?_object {doc : Document} {ms : List (String × Value)}
    (h : doc.value? = some (.object ms)) :
    ∃ members gap, doc = .object members gap ∧ membersValue? members = some ms := by
  rcases doc.scalar_or_container with hscalar | ⟨elements, gap, rfl⟩ | ⟨members, gap, rfl⟩
  · exact absurd rfl ((hscalar.value?_ne h).2 ms)
  · obtain ⟨vs, -, heq⟩ := Option.map_eq_some_iff.mp h
    cases heq
  · obtain ⟨ms', hms, heq⟩ := Option.map_eq_some_iff.mp h
    cases heq
    exact ⟨members, gap, rfl, hms⟩

theorem Decoder.FailsAlike.list {d : Decoder α} (hf : d.FailsAlike) (hd : d.Agrees) :
    (Decoder.list d).FailsAlike := by
  intro depth items doc v f hitems hv hdepth h hcause b rest hbefore
  cases v with
  | array vs =>
    obtain ⟨elements, gap, rfl, hvs⟩ := exists_of_value?_array hv
    obtain ⟨hbound, hlengths⟩ := items_lt_of_text_lt hitems
    obtain ⟨depth, rfl⟩ := Nat.exists_eq_add_one.mpr (Nat.zero_lt_of_lt hdepth)
    rw [Value.depth] at hdepth
    have hinside := readItems_failsAs hd hf hbound hlengths hvs (Nat.le_of_succ_le_succ hdepth) h
      hcause gap rest
    have hbegin := (Document.array elements gap).toOption_readBeginning b hbefore
    exact .ok_bind (Except.toOption_eq_some_iff.1 hbegin) (hinside.enter '[')
  | _ =>
    cases h
    obtain ⟨s, hbegin⟩ := readBeginning_of_value hv b hbefore
    exact .ok_bind hbegin ⟨_, rfl⟩

/-! ## Records -/

namespace Record

variable {σ : Type} {r : Record σ α}

/-- Members are read into a draft up to the first that fails. -/
theorem readFields_failsAs (hfields : ∀ f ∈ r.fields, ∀ draft, (f.decode draft).Agrees)
    (hfails : ∀ f ∈ r.fields, ∀ draft, (f.decode draft).FailsAlike) {depth items bound : Nat}
    {members : List (Lead × Name × Document)} {ms : List (String × Value)}
    (hbound : members.length < bound)
    (hitems : ∀ member ∈ members, member.2.2.text.length < items)
    (hvalue : membersValue? members = some ms) (hdepth : Value.depthOfMembers ms ≤ depth)
    {draft : σ} {f : Failure} (h : r.fieldsOf ms draft = .error f)
    (hcause : ∀ length, f.cause ≠ .longRecord length) (first : Bool) (gap : Blanks)
    (rest : List Char) :
    FailsAs (r.readFields ⟨depth, items⟩ bound first draft
      (membersText first members ++ (gap.chars ++ '\x7d' :: rest))) f := by
  induction members generalizing bound first draft ms with
  | nil =>
    cases hvalue
    cases h
  | cons member members ih =>
    obtain ⟨lead, name, doc⟩ := member
    simp only [membersValue?, Option.bind_eq_bind, Option.bind_eq_some_iff] at hvalue
    obtain ⟨key, hkey, v, hv, ms, hms, heq⟩ := hvalue
    cases heq
    rw [Value.depthOfMembers] at hdepth
    have hv' : v.depth ≤ depth := by omega
    have hdoc : doc.text.length < items := hitems (lead, name, doc) List.mem_cons_self
    have hbefore := doc.before_of_delimited (delimited_members members gap rest)
    obtain ⟨bound, rfl⟩ := Nat.exists_eq_add_one.mpr (Nat.zero_lt_of_lt hbound)
    have hbound' : members.length < bound := by simpa using hbound
    have hitems' := fun member hmember => hitems member (List.mem_cons_of_mem _ hmember)
    have hnext (draft : σ) (h : r.fieldsOf ms draft = .error f) :=
      ih hbound' hitems' hms (by omega) h false
    rw [membersText, Name.text]
    simp only [List.append_assoc, List.cons_append]
    rw [readFields]
    refine .ok_bind (Except.mapError_eq_ok_iff.2 (nextKey_name lead first hkey _)) ?_
    dsimp only
    rw [fieldsOf] at h
    cases hfield : r.field? key with
    | none =>
      rw [hfield] at h
      dsimp only
      rw [readMember_append]
      exact .ok_bind (Except.mapError_eq_ok_iff.2 (doc.skipValue_append name.inner hbefore))
        (hnext draft h)
    | some fld =>
      rw [hfield] at h
      have hmem : fld ∈ r.fields := List.mem_of_find?_eq_some hfield
      dsimp only at h ⊢
      split at h
      · cases h
        rw [if_pos ‹_›]
        exact ⟨_, rfl⟩
      · rw [if_neg ‹_›, readMember_append]
        rcases Except.bind_eq_error_iff.1 h with hmember | ⟨draft', hmember, hrest⟩
        · obtain ⟨g, hg, rfl⟩ := Except.mapError_eq_error_iff.1 hmember
          exact ((hfails fld hmem draft hdoc hv hv' hg hcause name.inner _ hbefore).within _).bind _
        · have hread := (hfields fld hmem draft).reads hdoc hv hv'
            (Except.mapError_eq_ok_iff.1 hmember) name.inner hbefore
          exact .ok_bind (Except.mapError_eq_ok_iff.2 hread) (hnext draft' hrest)

/-- Items are read into a draft up to the first that fails. -/
theorem readPositions_failsAs {fs : List (RecordField σ)}
    (hfields : ∀ f ∈ fs, ∀ draft, (f.decode draft).Agrees)
    (hfails : ∀ f ∈ fs, ∀ draft, (f.decode draft).FailsAlike) {depth items : Nat}
    {elements : List (Lead × Document)} {vs : List Value}
    (hitems : ∀ item ∈ elements, item.2.text.length < items)
    (hvalue : itemsValue? elements = some vs) (hdepth : Value.depthOfItems vs ≤ depth)
    {length index : Nat} {draft : σ} {f : Failure}
    (h : r.positionsOf length index fs vs draft = .error f)
    (hcause : ∀ length, f.cause ≠ .longRecord length) (gap : Blanks) (rest : List Char) :
    FailsAs (r.readPositions ⟨depth, items⟩ index fs draft
      (itemsText (index == 0) elements ++ (gap.chars ++ ']' :: rest))) f := by
  induction fs generalizing elements vs index draft gap with
  | nil =>
    cases vs with
    | nil => cases h
    | cons v vs =>
      -- An item too many: what a text does not count.
      cases h
      exact absurd rfl (hcause length)
  | cons fld fs ih =>
    have hfields' := fun f hf => hfields f (List.mem_cons_of_mem fld hf)
    have hfails' := fun f hf => hfails f (List.mem_cons_of_mem fld hf)
    match elements with
    | [] =>
      cases hvalue
      rw [positionsOf] at h
      rw [itemsText, List.nil_append, readPositions]
      refine .ok_bind (nextItem_end gap _ _) ?_
      dsimp only
      rw [if_neg Bool.false_ne_true]
      split at h
      · cases h
        rw [if_pos ‹_›]
        exact ⟨_, rfl⟩
      · rw [if_neg ‹_›]
        exact ih hfields' hfails' hitems rfl hdepth h .none
    | (lead, doc) :: elements =>
      simp only [itemsValue?, Option.bind_eq_bind, Option.bind_eq_some_iff] at hvalue
      obtain ⟨v, hv, vs, hvs, heq⟩ := hvalue
      cases heq
      rw [Value.depthOfItems] at hdepth
      have hv' : v.depth ≤ depth := by omega
      have hdoc : doc.text.length < items := hitems (lead, doc) List.mem_cons_self
      have hbefore := doc.before_of_delimited (delimited_items elements gap rest)
      rw [itemsText, List.append_assoc, List.append_assoc, readPositions]
      refine .ok_bind (nextItem_document lead _ doc _) ?_
      dsimp only
      rw [if_pos rfl]
      rw [positionsOf] at h
      rcases Except.bind_eq_error_iff.1 h with hitem | ⟨draft', hitem, hrest⟩
      · obtain ⟨g, hg, rfl⟩ := Except.mapError_eq_error_iff.1 hitem
        exact ((hfails fld List.mem_cons_self draft hdoc hv hv' hg hcause .none _ hbefore).within
          _).bind _
      · have hread := (hfields fld List.mem_cons_self draft).reads hdoc hv hv'
          (Except.mapError_eq_ok_iff.1 hitem) .none hbefore
        rw [Blanks.chars_none, List.nil_append] at hread
        refine .ok_bind (Except.mapError_eq_ok_iff.2 hread) ?_
        exact ih hfields' hfails' (fun item hitem => hitems item (List.mem_cons_of_mem _ hitem))
          hvs (by omega) hrest gap

/-- Records fail in a text as in memory if their fields do. -/
theorem failsAlike (hfields : ∀ f ∈ r.fields, ∀ draft, (f.decode draft).Agrees)
    (hfails : ∀ f ∈ r.fields, ∀ draft, (f.decode draft).FailsAlike) : r.decoder.FailsAlike := by
  intro depth items doc v f hitems hv hdepth h hcause b rest hbefore
  cases v with
  | array vs =>
    obtain ⟨elements, gap, rfl, hvs⟩ := exists_of_value?_array hv
    obtain ⟨hbound, hlengths⟩ := items_lt_of_text_lt hitems
    obtain ⟨depth, rfl⟩ := Nat.exists_eq_add_one.mpr (Nat.zero_lt_of_lt hdepth)
    rw [Value.depth] at hdepth
    have hdepth' := Nat.le_of_succ_le_succ hdepth
    have hbegin := (Document.array elements gap).toOption_readBeginning b hbefore
    refine .ok_bind (Except.toOption_eq_some_iff.1 hbegin) (FailsAs.enter ?_ '[')
    rcases Except.bind_eq_error_iff.1 h with hpositions | ⟨draft, hpositions, hbuild⟩
    · exact (readPositions_failsAs hfields hfails hlengths hvs hdepth' hpositions hcause gap
        rest).bind _
    · obtain ⟨cause, hfailed, rfl⟩ := Except.mapError_eq_error_iff.1 hbuild
      have hfound := positionsFound_eq (r := r) hfields hvs hdepth' vs.length 0 r.start
      have hread := toOption_readPositions (r := r) some hfields depth hlengths 0 r.start gap rest
      rw [hfound, hpositions] at hread
      obtain ⟨⟨draft', s⟩, hdraft, hend⟩ := Option.bind_eq_some_iff.1 hread
      obtain ⟨after, -, heq⟩ := Option.map_eq_some_iff.1 hend
      cases heq
      exact .ok_bind (Except.toOption_eq_some_iff.1 hdraft) ((FailsAs.raise hfailed _).bind _)
  | object ms =>
    obtain ⟨members, gap, rfl, hms⟩ := exists_of_value?_object hv
    obtain ⟨hbound, hlengths⟩ := members_lt_of_text_lt hitems
    obtain ⟨depth, rfl⟩ := Nat.exists_eq_add_one.mpr (Nat.zero_lt_of_lt hdepth)
    rw [Value.depth] at hdepth
    have hdepth' := Nat.le_of_succ_le_succ hdepth
    have hbegin := (Document.object members gap).toOption_readBeginning b hbefore
    refine .ok_bind (Except.toOption_eq_some_iff.1 hbegin) (FailsAs.enter ?_ '\x7b')
    rcases Except.bind_eq_error_iff.1 h with hmembers | ⟨draft, hmembers, hbuild⟩
    · exact (readFields_failsAs hfields hfails hbound hlengths hms hdepth' hmembers hcause true gap
        rest).bind _
    · obtain ⟨cause, hfailed, rfl⟩ := Except.mapError_eq_error_iff.1 hbuild
      have hread := toOption_readFields hfields depth hbound hlengths true r.start gap rest
      rw [fieldsFound_eq hfields hms hdepth' r.start, hmembers] at hread
      exact .ok_bind (Except.toOption_eq_some_iff.1 hread) ((FailsAs.raise hfailed _).bind _)
  | _ =>
    cases h
    obtain ⟨s, hbegin⟩ := readBeginning_of_value hv b hbefore
    exact .ok_bind hbegin ⟨_, rfl⟩

end Record

/-! ## Expressions -/

/-- A tag that names no kind is refused where it is read. -/
theorem readTag_failsAt {doc : Document} {v : Value} {cause : Cause} (hv : doc.value? = some v)
    (h : kindOf v = .error cause) : FailsAt readTag doc { cause := cause } := by
  intro b rest hbefore
  obtain ⟨s, hbegin⟩ := readBeginning_of_value hv b hbefore
  refine .ok_bind hbegin ?_
  cases v with
  | array vs =>
    cases h
    exact ⟨_, rfl⟩
  | object ms =>
    cases h
    exact ⟨_, rfl⟩
  | _ => exact (FailsAs.raise h _).bind _

/-- Members are read up to the tag, if that fails. -/
theorem readTagged_failsAs {depth items bound : Nat} {members : List (Lead × Name × Document)}
    {ms : List (String × Value)} (hbound : members.length < bound)
    (hitems : ∀ member ∈ members, member.2.2.text.length < items)
    (hvalue : membersValue? members = some ms) (hdepth : Value.depthOfMembers ms ≤ depth)
    {seen : Option Expr.Kind} {f : Failure} (h : taggedOf seen ms = .error f) (first : Bool)
    (gap : Blanks) (rest : List Char) :
    FailsAs (readTagged ⟨depth, items⟩ bound first seen
      (membersText first members ++ (gap.chars ++ '\x7d' :: rest))) f := by
  induction members generalizing bound first seen ms with
  | nil =>
    cases hvalue
    obtain ⟨bound, rfl⟩ := Nat.exists_eq_add_one.mpr hbound
    rw [membersText, List.nil_append, readTagged, nextKey_end]
    cases seen with
    | some kind => cases h
    | none =>
      cases h
      exact ⟨_, rfl⟩
  | cons member members ih =>
    obtain ⟨lead, name, doc⟩ := member
    simp only [membersValue?, Option.bind_eq_bind, Option.bind_eq_some_iff] at hvalue
    obtain ⟨key, hkey, v, hv, ms, hms, heq⟩ := hvalue
    cases heq
    rw [Value.depthOfMembers] at hdepth
    have hv' : v.depth ≤ depth := by omega
    have hdoc : doc.text.length < items := hitems (lead, name, doc) List.mem_cons_self
    have hbefore := doc.before_of_delimited (delimited_members members gap rest)
    obtain ⟨bound, rfl⟩ := Nat.exists_eq_add_one.mpr (Nat.zero_lt_of_lt hbound)
    have hbound' : members.length < bound := by simpa using hbound
    have hitems' := fun member hmember => hitems member (List.mem_cons_of_mem _ hmember)
    have hnext (seen : Option Expr.Kind) (h : taggedOf seen ms = .error f) :=
      ih hbound' hitems' hms (by omega) h false
    rw [membersText, Name.text]
    simp only [List.append_assoc, List.cons_append]
    rw [readTagged]
    refine .ok_bind (Except.mapError_eq_ok_iff.2 (nextKey_name lead first hkey _)) ?_
    dsimp only
    rw [taggedOf] at h
    rw [readMember_append, readMember_append]
    split at h
    · rw [if_pos ‹_›]
      split at h
      · cases h
        rw [if_pos ‹_›]
        exact ⟨_, rfl⟩
      · rw [if_neg ‹_›]
        rcases Except.bind_eq_error_iff.1 h with htag | ⟨kind, htag, hrest⟩
        · obtain ⟨g, hg, rfl⟩ := Except.mapError_eq_error_iff.1 htag
          obtain ⟨cause, hcause, rfl⟩ := Except.mapError_eq_error_iff.1 hg
          exact ((readTag_failsAt hv hcause name.inner _ hbefore).within _).bind _
        · have hkind := Except.mapError_eq_ok_iff.1 (Except.mapError_eq_ok_iff.1 htag)
          have hread := readTag_finds doc name.inner _ hbefore
          rw [tagFound_eq hv, hkind] at hread
          exact .ok_bind (Except.mapError_eq_ok_iff.2 (Except.toOption_eq_some_iff.1 hread))
            (hnext (some kind) hrest)
    · rw [if_neg ‹_›]
      have hread := doc.readValue_finds hdoc depth name.inner _ hbefore
      rw [valueWithin?_of_value? hv hv'] at hread
      refine .ok_bind (Except.mapError_eq_ok_iff.2 (Except.toOption_eq_some_iff.1 hread)) ?_
      rcases Except.bind_eq_error_iff.1 h with hrest | ⟨tagged, -, hpure⟩
      · exact (hnext seen hrest).bind _
      · cases hpure

/-- Expressions fail in a text as in memory. -/
theorem Decoder.expression_failsAlike : Decoder.expression.FailsAlike := by
  intro depth items doc v f hitems hv hdepth h _ b rest hbefore
  rcases Except.bind_eq_error_iff.1 h with hbody | ⟨⟨kind, body⟩, hbody, hexpr⟩
  · refine FailsAs.bind ?_ _
    cases v with
    | array vs =>
      obtain ⟨elements, gap, rfl, hvs⟩ := exists_of_value?_array hv
      obtain ⟨depth, rfl⟩ := Nat.exists_eq_add_one.mpr (Nat.zero_lt_of_lt hdepth)
      have hbegin := (Document.array elements gap).toOption_readBeginning b hbefore
      refine .ok_bind (Except.toOption_eq_some_iff.1 hbegin) (FailsAs.enter ?_ '[')
      match elements with
      | [] =>
        cases hvs
        cases hbody
        rw [itemsText, List.nil_append]
        exact .ok_bind (nextItem_end gap _ _) ⟨_, rfl⟩
      | (lead, tag) :: elements =>
        simp only [itemsValue?, Option.bind_eq_bind, Option.bind_eq_some_iff] at hvs
        obtain ⟨v, htag, vs, -, heq⟩ := hvs
        cases heq
        rw [itemsText, List.append_assoc, List.append_assoc]
        refine .ok_bind (nextItem_document lead _ tag _) ?_
        rcases Except.bind_eq_error_iff.1 hbody with hkind | ⟨kind, -, hpure⟩
        · obtain ⟨g, hg, rfl⟩ := Except.mapError_eq_error_iff.1 hkind
          obtain ⟨cause, hcause, rfl⟩ := Except.mapError_eq_error_iff.1 hg
          exact ((readTag_failsAt htag hcause .none _
            (tag.before_of_delimited (delimited_items elements gap rest))).within _).bind _
        · cases hpure
    | object ms =>
      obtain ⟨members, gap, rfl, hms⟩ := exists_of_value?_object hv
      obtain ⟨hbound, hlengths⟩ := members_lt_of_text_lt hitems
      obtain ⟨depth, rfl⟩ := Nat.exists_eq_add_one.mpr (Nat.zero_lt_of_lt hdepth)
      rw [Value.depth] at hdepth
      have hbegin := (Document.object members gap).toOption_readBeginning b hbefore
      refine .ok_bind (Except.toOption_eq_some_iff.1 hbegin) (FailsAs.enter ?_ '\x7b')
      rcases Except.bind_eq_error_iff.1 hbody with htagged | ⟨tagged, -, hpure⟩
      · exact (readTagged_failsAs hbound hlengths hms (Nat.le_of_succ_le_succ hdepth) htagged true
          gap rest).bind _
      · cases hpure
    | _ =>
      cases hbody
      obtain ⟨s, hbegin⟩ := readBeginning_of_value hv b hbefore
      exact .ok_bind hbegin ⟨_, rfl⟩
  · -- The body is read into memory, and fails there.
    obtain ⟨cause, hcause, rfl⟩ := Except.mapError_eq_error_iff.1 hexpr
    have hread := readBody_finds depth items doc hitems b rest hbefore
    rw [bodyFound_eq hv hdepth, hbody] at hread
    exact .ok_bind (Except.toOption_eq_some_iff.1 hread) ((FailsAs.raise hcause _).bind _)

/-! ## Rules and grammars -/

theorem ruleRecord_failsAlike : ruleRecord.decoder.FailsAlike := by
  refine Record.failsAlike ruleRecord_fields_agree fun f hf draft => ?_
  simp only [ruleRecord, List.mem_cons, List.not_mem_nil, or_false] at hf
  rcases hf with rfl | rfl <;> dsimp only
  · exact Decoder.string_failsAlike.map _
  · exact Decoder.expression_failsAlike.map _

/-- Grammars fail in a text as in memory. -/
theorem grammarRecord_failsAlike : grammarRecord.decoder.FailsAlike := by
  refine Record.failsAlike grammarRecord_fields_agree fun f hf draft => ?_
  simp only [grammarRecord, List.mem_cons, List.not_mem_nil, or_false] at hf
  rcases hf with rfl | rfl | rfl <;> dsimp only
  · exact (Decoder.buffered_failsAlike _).map _
  · exact (Decoder.buffered_failsAlike _).map _
  · exact (ruleRecord_failsAlike.list (Record.agrees ruleRecord_fields_agree)).map _

/-- A text that denotes a value is refused as the value is: for the same reason and at the same
path. -/
theorem Decoder.FailsAlike.runText {d : Decoder α} (hd : d.FailsAlike) {source : String} {v : Value}
    (h : Denotes source v) (hdepth : v.depth ≤ 127) {f : Failure} (hf : d.ofValue v = .error f)
    (hcause : ∀ length, f.cause ≠ .longRecord length) :
    ∃ place, d.runText source =
      .error (Failure.report source.toList { f with place := place }) := by
  obtain ⟨before, doc, after, hsource, hv⟩ := h
  have hlength : doc.text.length < source.toList.length + 1 := by
    simp only [hsource, List.length_append]
    omega
  obtain ⟨place, hread⟩ := hd hlength hv hdepth hf hcause before after.chars
    (doc.before_of_delimited after.delimited)
  refine ⟨place, ?_⟩
  rw [← hsource] at hread
  simp only [Decoder.runText, Limits.ofText, hread]

end GrammarTypes.Decode
