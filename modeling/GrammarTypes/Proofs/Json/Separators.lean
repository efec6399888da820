import GrammarTypes.Proofs.Json.Numbers
import GrammarTypes.Proofs.Json.Strings

/-!
# What surrounds documents

Blanks, separators and beginnings: what the readers of these do at the text of a document, and what
they have before them when they succeed. A document begins with a character that is neither blank
nor a separator, so it is found at once; what follows an item or a member can follow a number, so a
number in a container ends where its text does.
-/

namespace GrammarTypes.Json

open Decode

/-! ## Blanks -/

namespace Blanks

/-- Blanks one after another. -/
def append (a b : Blanks) : Blanks where
  chars := a.chars ++ b.chars
  blank c hc := (List.mem_append.mp hc).elim (a.blank c) (b.blank c)

/-- Blanks are passed over. -/
@[simp] theorem skipBlanks_append (b : Blanks) (s : List Char) :
    skipBlanks (b.chars ++ s) = skipBlanks s :=
  List.dropWhile_append_of_pos b.blank

/-- What is passed over are blanks. -/
theorem exists_eq_append (s : List Char) : ∃ b : Blanks, s = b.chars ++ skipBlanks s :=
  ⟨⟨s.takeWhile isBlank, List.all_eq_true.mp List.all_takeWhile⟩,
    List.takeWhile_append_dropWhile.symm⟩

/-- What begins with a character is reached over blanks. -/
theorem exists_of_skipBlanks {s r : List Char} (h : skipBlanks s = r) :
    ∃ b : Blanks, s = b.chars ++ r :=
  h ▸ exists_eq_append s

/-- There are no blanks before a character that is the first. -/
theorem eq_of_append_eq_cons {b : Blanks} {c d : Char} {s t : List Char}
    (hd : isBlank d = false) (h : b.chars ++ c :: s = d :: t) : c = d ∧ s = t := by
  match hb : b.chars with
  | [] =>
    rw [hb] at h
    exact List.cons.inj h
  | e :: es =>
    rw [hb] at h
    obtain rfl : e = d := (List.cons.inj h).1
    have hblank := b.blank e (by simp [hb])
    rw [hd] at hblank
    cases hblank

/-- Blanks before what can follow a number can follow it too. -/
theorem delimited_append (b : Blanks) {rest : List Char} (h : Delimited rest) :
    Delimited (b.chars ++ rest) := by
  intro c hc
  match hb : b.chars with
  | [] =>
    rw [hb, List.nil_append] at hc
    exact h c hc
  | d :: ds =>
    rw [hb] at hc
    obtain rfl : d = c := Option.some.inj hc
    exact .inl (b.blank d (by simp [hb]))

end Blanks

/-- Nothing is passed over before a character that is not blank. -/
theorem skipBlanks_cons {c : Char} (h : isBlank c = false) (s : List Char) :
    skipBlanks (c :: s) = c :: s := by
  rw [skipBlanks, List.dropWhile_cons, h]
  rfl

/-! ## Separators -/

namespace Lead

/-- The text before an item with more blanks before the item. -/
def pad (lead : Lead) (b : Blanks) : Lead :=
  ⟨lead.outer, lead.inner.append b⟩

theorem text_pad (lead : Lead) (b : Blanks) (first : Bool) :
    (lead.pad b).text first = lead.text first ++ b.chars := by
  simp [pad, text, Blanks.append]

/-- The next item is reached. -/
theorem nextItem_text (lead : Lead) (first : Bool) {c : Char} (hblank : isBlank c = false)
    (hend : c ≠ ']') (s : List Char) :
    nextItem first (lead.text first ++ c :: s) = .ok (true, c :: s) := by
  have hnext := skipBlanks_cons hblank s
  have hcomma : skipBlanks (',' :: (lead.inner.chars ++ c :: s)) = _ := skipBlanks_cons rfl _
  unfold nextItem text
  cases first with
  | true => simp [hnext]
  | false => simp [hnext, hcomma, hend]

/-- The name of the next member is read. -/
theorem toOption_nextKey_text (lead : Lead) (first : Bool) (q : Quoted) (s : List Char) :
    (nextKey first (lead.text first ++ (q.text ++ s))).toOption =
      q.value?.map fun key => (some key, s) := by
  have hnext : skipBlanks ('"' :: (q.inner ++ s)) = _ := skipBlanks_cons rfl _
  have hcomma : skipBlanks (',' :: (lead.inner.chars ++ '"' :: (q.inner ++ s))) = _ :=
    skipBlanks_cons rfl _
  have hread := q.toOption_readString s
  unfold nextKey text Quoted.text
  cases first with
  | true => simp [hnext, hread, Function.comp_def]
  | false => simp [hnext, hcomma, hread, Function.comp_def]

end Lead

/-- There is no further item before the end of an array. -/
theorem nextItem_end (gap : Blanks) (first : Bool) (s : List Char) :
    nextItem first (gap.chars ++ ']' :: s) = .ok (false, ']' :: s) := by
  have hend : skipBlanks (']' :: s) = _ := skipBlanks_cons rfl _
  simp [nextItem, hend]

/-- There is no further member before the end of an object. -/
theorem nextKey_end (gap : Blanks) (first : Bool) (s : List Char) :
    nextKey first (gap.chars ++ '\x7d' :: s) = .ok (none, '\x7d' :: s) := by
  have hend : skipBlanks ('\x7d' :: s) = _ := skipBlanks_cons rfl _
  simp [nextKey, hend]

/-- A colon is read over blanks. -/
theorem readColon_append (gap : Blanks) (s : List Char) :
    readColon (gap.chars ++ ':' :: s) = .ok s := by
  have hcolon : skipBlanks (':' :: s) = _ := skipBlanks_cons rfl _
  simp [readColon, hcolon]

/-- What is passed over up to an item stands before an item. -/
theorem exists_of_nextItem_true {first : Bool} {s r : List Char}
    (h : nextItem first s = .ok (true, r)) : ∃ lead : Lead, s = lead.text first ++ r := by
  unfold nextItem at h
  split at h
  · cases h
  · cases h
  · next c s' hend hs =>
    obtain ⟨outer, rfl⟩ := Blanks.exists_of_skipBlanks hs
    split at h
    · next hfirst =>
      cases h
      exact ⟨⟨outer, .none⟩, by simp [Lead.text, hfirst]⟩
    · next hfirst =>
      split at h
      · next hcomma =>
        obtain ⟨inner, hinner⟩ := Blanks.exists_eq_append s'
        split at h
        · cases h
        · cases h
        · cases h
          refine ⟨⟨outer, inner⟩, ?_⟩
          rw [Lead.text, if_neg hfirst, hcomma, List.append_assoc, List.append_assoc, ← hinner]
          rfl
      · cases h

/-- What is passed over when there is no further item stands before the end of an array. -/
theorem exists_of_nextItem_false {first : Bool} {s r : List Char}
    (h : nextItem first s = .ok (false, r)) :
    ∃ (gap : Blanks) (rest : List Char), r = ']' :: rest ∧ s = gap.chars ++ ']' :: rest := by
  unfold nextItem at h
  split at h
  · cases h
  · next rest hs =>
    cases h
    obtain ⟨gap, hgap⟩ := Blanks.exists_of_skipBlanks hs
    exact ⟨gap, rest, rfl, hgap⟩
  · split at h
    · cases h
    · split at h
      · split at h <;> cases h
      · cases h

/-- What is read as a name is one, and stands after what precedes a member. -/
theorem exists_of_nextKey_some {first : Bool} {s r : List Char} {key : String}
    (h : nextKey first s = .ok (some key, r)) :
    ∃ (lead : Lead) (q : Quoted), s = lead.text first ++ (q.text ++ r) := by
  unfold nextKey at h
  split at h
  · cases h
  · cases h
  · next c s' hend hs =>
    obtain ⟨outer, rfl⟩ := Blanks.exists_of_skipBlanks hs
    split at h
    · next hfirst =>
      split at h
      · next hquote =>
        obtain ⟨⟨text, r'⟩, hread, heq⟩ := Except.map_eq_ok_iff.mp h
        cases heq
        obtain ⟨q, rfl⟩ := Quoted.exists_of_readString hread
        exact ⟨⟨outer, .none⟩, q, by simp [Lead.text, hfirst, hquote, Quoted.text]⟩
      · cases h
    · next hfirst =>
      split at h
      · next hcomma =>
        obtain ⟨inner, hinner⟩ := Blanks.exists_eq_append s'
        split at h
        · cases h
        · next s'' hs'' =>
          obtain ⟨⟨text, r'⟩, hread, heq⟩ := Except.map_eq_ok_iff.mp h
          cases heq
          obtain ⟨q, rfl⟩ := Quoted.exists_of_readString hread
          refine ⟨⟨outer, inner⟩, q, ?_⟩
          rw [Lead.text, if_neg hfirst, hcomma, hinner, hs'', Quoted.text]
          simp
        · cases h
        · cases h
      · cases h

/-- What is passed over when there is no further member stands before the end of an object. -/
theorem exists_of_nextKey_none {first : Bool} {s r : List Char}
    (h : nextKey first s = .ok (none, r)) :
    ∃ (gap : Blanks) (rest : List Char),
      r = '\x7d' :: rest ∧ s = gap.chars ++ '\x7d' :: rest := by
  unfold nextKey at h
  split at h
  · cases h
  · next rest hs =>
    cases h
    obtain ⟨gap, hgap⟩ := Blanks.exists_of_skipBlanks hs
    exact ⟨gap, rest, rfl, hgap⟩
  · split at h
    · split at h
      · obtain ⟨p, -, heq⟩ := Except.map_eq_ok_iff.mp h
        cases heq
      · cases h
    · split at h
      · split at h
        · cases h
        · obtain ⟨p, -, heq⟩ := Except.map_eq_ok_iff.mp h
          cases heq
        · cases h
        · cases h
      · cases h

/-- What is read as a colon is one, after blanks. -/
theorem exists_of_readColon {s r : List Char} (h : readColon s = .ok r) :
    ∃ gap : Blanks, s = gap.chars ++ ':' :: r := by
  unfold readColon at h
  split at h
  · cases h
  · next s' hs =>
    cases h
    exact Blanks.exists_of_skipBlanks hs
  · cases h

/-! ## Beginnings -/

/-- A number begins with a minus or a digit. -/
theorem Numeral.exists_text_eq_cons (n : Numeral) :
    ∃ c cs, n.text = c :: cs ∧ (c = '-' ∨ c.isDigit = true) := by
  obtain ⟨c, cs, hcs, hdigit⟩ := n.whole.exists_eq_cons
  unfold text unsigned
  cases n.negative with
  | true => exact ⟨'-', _, rfl, .inl rfl⟩
  | false => exact ⟨c, _, by rw [hcs]; rfl, .inr hdigit⟩

/-- The first character of a number is read as the beginning of one. -/
theorem readBeginning_digit {c : Char} (h : c = '-' ∨ c.isDigit = true) (s : List Char) :
    readBeginning (c :: s) = (do
      let (n, r) ← readNumber (c :: s)
      return (.scalar (.number n), r)) := by
  rcases h with rfl | h
  · rfl
  · rcases eq_of_isDigit h with rfl | rfl | rfl | rfl | rfl | rfl | rfl | rfl | rfl | rfl <;> rfl

/-- Blanks before a beginning make no difference. -/
theorem readBeginning_append (b : Blanks) (s : List Char) :
    readBeginning (b.chars ++ s) = readBeginning s := by
  unfold readBeginning
  rw [b.skipBlanks_append]

/-- The characters of a word are read. -/
theorem eq_append_of_readWord {word s rest : List Char} (h : readWord word s = .ok rest) :
    s = word ++ rest := by
  fun_induction readWord word s with
  | case1 s => exact Except.ok.inj h
  | case2 => cases h
  | case3 word c s ih => exact congrArg (c :: ·) (ih h)
  | case4 => cases h

namespace Document

/-- What can follow a document: only a number is not complete in itself. -/
def Before (rest : List Char) : Document → Prop
  | .number _ => Delimited rest
  | _ => True

theorem before_of_delimited (doc : Document) {rest : List Char} (h : Delimited rest) :
    doc.Before rest := by
  cases doc <;> first | exact h | trivial

/-- A document that is no container. -/
def IsScalar : Document → Prop
  | .array _ _ | .object _ _ => False
  | _ => True

/-- A document with brackets is complete in itself. -/
theorem before_of_not_isScalar {doc : Document} (h : ¬ doc.IsScalar) (rest : List Char) :
    doc.Before rest := by
  cases doc with
  | array _ _ => trivial
  | object _ _ => trivial
  | _ => exact absurd trivial h

theorem scalar_or_container (doc : Document) :
    doc.IsScalar ∨ (∃ items gap, doc = .array items gap) ∨
      ∃ members gap, doc = .object members gap := by
  cases doc with
  | array items gap => exact .inr (.inl ⟨items, gap, rfl⟩)
  | object members gap => exact .inr (.inr ⟨members, gap, rfl⟩)
  | _ => exact .inl trivial

/-- The value of a document that is no container. -/
def scalar? : Document → Option Value
  | .array _ _ | .object _ _ => none
  | doc => doc.value?

theorem IsScalar.scalar?_eq {doc : Document} (h : doc.IsScalar) : doc.scalar? = doc.value? := by
  cases doc with
  | array _ _ => exact h.elim
  | object _ _ => exact h.elim
  | _ => rfl

/-- The value of a scalar is no container. -/
theorem IsScalar.value?_ne {doc : Document} (h : doc.IsScalar) {v : Value}
    (hv : doc.value? = some v) : (∀ vs, v ≠ .array vs) ∧ ∀ ms, v ≠ .object ms := by
  cases doc with
  | array _ _ => exact h.elim
  | object _ _ => exact h.elim
  | null => cases hv; simp
  | bool _ => cases hv; simp
  | number n =>
    obtain ⟨x, -, rfl⟩ := Option.map_eq_some_iff.mp hv
    simp
  | string q =>
    obtain ⟨x, -, rfl⟩ := Option.map_eq_some_iff.mp hv
    simp

/-- The beginning of a document as it is read, and what is left after it: all of the document if it
begins with a bracket. -/
def beginning? (rest : List Char) : Document → Option (Beginning × List Char)
  | .array items gap => some (.array, '[' :: (itemsText true items ++ (gap.chars ++ ']' :: rest)))
  | .object members gap =>
    some (.object, '\x7b' :: (membersText true members ++ (gap.chars ++ '\x7d' :: rest)))
  | doc => doc.value?.map fun v => (.scalar v, rest)

/-- A scalar is read whole. -/
theorem IsScalar.beginning?_eq {doc : Document} (h : doc.IsScalar) (rest : List Char) :
    doc.beginning? rest = doc.value?.map fun v => (.scalar v, rest) := by
  cases doc with
  | array _ _ => exact h.elim
  | object _ _ => exact h.elim
  | _ => rfl

/-- The beginning of a document is read. -/
theorem toOption_readBeginning (doc : Document) (b : Blanks) {rest : List Char}
    (h : doc.Before rest) :
    (readBeginning (b.chars ++ (doc.text ++ rest))).toOption = doc.beginning? rest := by
  rw [readBeginning_append]
  cases doc with
  | null => rfl
  | bool b => cases b <;> rfl
  | number n =>
    obtain ⟨c, cs, hcs, hc⟩ := n.exists_text_eq_cons
    have hread := n.toOption_readNumber h
    rw [hcs, List.cons_append] at hread
    rw [text, hcs, List.cons_append, readBeginning_digit hc, Except.toOption_bind, hread]
    cases hvalue : n.value? with
    | none => simp [beginning?, value?, hvalue]
    | some x => simp [beginning?, value?, hvalue]
  | string q =>
    have hread := q.toOption_readString rest
    have hquote : readBeginning ((Document.string q).text ++ rest) = (do
        let read ← readString (q.inner ++ rest)
        return (.scalar (.string read.1), read.2)) := rfl
    rw [hquote, Except.toOption_bind, hread]
    cases hvalue : q.value? with
    | none => simp [beginning?, value?, hvalue]
    | some x => simp [beginning?, value?, hvalue]
  | array items gap =>
    rw [beginning?, text, List.cons_append, List.append_assoc, List.append_assoc]
    rfl
  | object members gap =>
    rw [beginning?, text, List.cons_append, List.append_assoc, List.append_assoc]
    rfl

/-- A text begins in a way and leaves a rest. -/
inductive Begins : Beginning → List Char → List Char → Prop
  /-- A scalar is read whole. -/
  | scalar (v : Value) (doc : Document) (rest : List Char) :
    Begins (.scalar v) (doc.text ++ rest) rest
  /-- The bracket of an array is not read. -/
  | array (rest : List Char) : Begins .array ('[' :: rest) ('[' :: rest)
  /-- The brace of an object is not read. -/
  | object (rest : List Char) : Begins .object ('\x7b' :: rest) ('\x7b' :: rest)

/-- What is read as the beginning of a value is one, after blanks. -/
theorem exists_of_readBeginning {s rest : List Char} {beginning : Beginning}
    (h : readBeginning s = .ok (beginning, rest)) :
    ∃ (b : Blanks) (s' : List Char), s = b.chars ++ s' ∧ Begins beginning s' rest := by
  obtain ⟨b, hb⟩ := Blanks.exists_eq_append s
  refine ⟨b, skipBlanks s, hb, ?_⟩
  unfold readBeginning at h
  split at h
  · cases h
  · next r hs =>
    obtain ⟨r', hword, h⟩ := Except.bind_eq_ok_iff.mp h
    cases h
    rw [hs, eq_append_of_readWord hword]
    exact .scalar _ .null rest
  · next r hs =>
    obtain ⟨r', hword, h⟩ := Except.bind_eq_ok_iff.mp h
    cases h
    rw [hs, eq_append_of_readWord hword]
    exact .scalar _ (.bool true) rest
  · next r hs =>
    obtain ⟨r', hword, h⟩ := Except.bind_eq_ok_iff.mp h
    cases h
    rw [hs, eq_append_of_readWord hword]
    exact .scalar _ (.bool false) rest
  · next r hs =>
    obtain ⟨⟨text, r'⟩, hread, h⟩ := Except.bind_eq_ok_iff.mp h
    cases h
    obtain ⟨q, rfl⟩ := Quoted.exists_of_readString hread
    rw [hs]
    exact .scalar _ (.string q) rest
  · next r hs =>
    cases h
    rw [hs]
    exact .array r
  · next r hs =>
    cases h
    rw [hs]
    exact .object r
  · next c r _ _ _ _ _ _ hs =>
    split at h
    · obtain ⟨⟨x, r'⟩, hread, h⟩ := Except.bind_eq_ok_iff.mp h
      cases h
      obtain ⟨n, hn⟩ := Numeral.exists_of_readNumber hread
      rw [hs, hn]
      exact .scalar _ (.number n) rest
    · cases h

end Document

/-! ## Extent -/

namespace Document

/-- A document begins with a character that separates nothing. -/
theorem exists_text_eq_cons (doc : Document) :
    ∃ c cs, doc.text = c :: cs ∧ isBlank c = false ∧ c ≠ ',' ∧ c ≠ ']' ∧ c ≠ '\x7d' := by
  cases doc with
  | null => exact ⟨_, _, rfl, by decide⟩
  | bool b => cases b <;> exact ⟨_, _, rfl, by decide⟩
  | number n =>
    obtain ⟨c, cs, hcs, hc⟩ := n.exists_text_eq_cons
    refine ⟨c, cs, hcs, ?_⟩
    rcases hc with rfl | hdigit
    · decide
    · rcases eq_of_isDigit hdigit with rfl | rfl | rfl | rfl | rfl | rfl | rfl | rfl | rfl | rfl <;>
        decide
  | string q => exact ⟨_, _, rfl, by decide⟩
  | array items gap => exact ⟨_, _, rfl, by decide⟩
  | object members gap => exact ⟨_, _, rfl, by decide⟩

/-- What follows an item in an array can follow a number. -/
theorem delimited_items (items : List (Lead × Document)) (gap : Blanks) (rest : List Char) :
    Delimited (itemsText false items ++ (gap.chars ++ ']' :: rest)) := by
  match items with
  | [] => exact gap.delimited_append (by simp [Delimited])
  | (lead, doc) :: items =>
    rw [itemsText, Lead.text, List.append_assoc, List.append_assoc]
    exact lead.outer.delimited_append (by simp [Delimited])

/-- What follows a member in an object can follow a number. -/
theorem delimited_members (members : List (Lead × Name × Document)) (gap : Blanks)
    (rest : List Char) :
    Delimited (membersText false members ++ (gap.chars ++ '\x7d' :: rest)) := by
  match members with
  | [] => exact gap.delimited_append (by simp [Delimited])
  | (lead, name, doc) :: members =>
    rw [membersText, Lead.text, List.append_assoc, List.append_assoc]
    exact lead.outer.delimited_append (by simp [Delimited])

/-- The items of an array are as many as its text has characters at most. -/
theorem length_le_itemsText (first : Bool) (items : List (Lead × Document)) :
    items.length ≤ (itemsText first items).length := by
  induction items generalizing first with
  | nil => exact Nat.zero_le _
  | cons item items ih =>
    obtain ⟨lead, doc⟩ := item
    obtain ⟨c, cs, hcs, -⟩ := doc.exists_text_eq_cons
    have hrest := ih false
    simp only [itemsText, hcs, List.length_append, List.length_cons]
    omega

/-- An item is no longer than the items together. -/
theorem length_text_le_itemsText (first : Bool) {items : List (Lead × Document)}
    {item : Lead × Document} (h : item ∈ items) :
    item.2.text.length ≤ (itemsText first items).length := by
  induction items generalizing first with
  | nil => cases h
  | cons head items ih =>
    simp only [itemsText, List.length_append]
    rcases List.mem_cons.mp h with rfl | hmem
    · omega
    · have hrest := ih false hmem
      omega

/-- The members of an object are as many as its text has characters at most. -/
theorem length_le_membersText (first : Bool) (members : List (Lead × Name × Document)) :
    members.length ≤ (membersText first members).length := by
  induction members generalizing first with
  | nil => exact Nat.zero_le _
  | cons member members ih =>
    obtain ⟨lead, name, doc⟩ := member
    obtain ⟨c, cs, hcs, -⟩ := doc.exists_text_eq_cons
    have hrest := ih false
    simp only [membersText, hcs, List.length_append, List.length_cons]
    omega

/-- The value of a member is no longer than the members together. -/
theorem length_text_le_membersText (first : Bool) {members : List (Lead × Name × Document)}
    {member : Lead × Name × Document} (h : member ∈ members) :
    member.2.2.text.length ≤ (membersText first members).length := by
  induction members generalizing first with
  | nil => cases h
  | cons head members ih =>
    obtain ⟨lead, name, doc⟩ := head
    simp only [membersText, List.length_append]
    rcases List.mem_cons.mp h with rfl | hmem
    · dsimp only
      omega
    · have hrest := ih false hmem
      omega

/-- A bound on an array is one on the number of its items and on each of them. -/
theorem items_lt_of_text_lt {items : List (Lead × Document)} {gap : Blanks} {bound : Nat}
    (h : (array items gap).text.length < bound) :
    items.length < bound ∧ ∀ item ∈ items, item.2.text.length < bound := by
  simp only [text, List.length_cons, List.length_append] at h
  have hcount := length_le_itemsText true items
  refine ⟨by omega, fun item hitem => ?_⟩
  have hlength := length_text_le_itemsText true hitem
  omega

/-- A bound on an object is one on the number of its members and on the value of each. -/
theorem members_lt_of_text_lt {members : List (Lead × Name × Document)} {gap : Blanks}
    {bound : Nat} (h : (object members gap).text.length < bound) :
    members.length < bound ∧ ∀ member ∈ members, member.2.2.text.length < bound := by
  simp only [text, List.length_cons, List.length_append] at h
  have hcount := length_le_membersText true members
  refine ⟨by omega, fun member hmember => ?_⟩
  have hlength := length_text_le_membersText true hmember
  omega

end Document

end GrammarTypes.Json
