import GrammarTypes.Proofs.Json.Reading

/-!
# Documents passed over

A value that nobody asks for is passed over by a machine with a stack of open brackets. At a
document the machine comes out after it with the stack it had, in fewer than twice as many steps as
the document has characters (`Document.skips`), so its fuel suffices and `skipValue` gets over every
document, also over those that have no value. Whenever it succeeds, there are documents before it
that close all open brackets (`Closes`), so it gets through documents only (`skipValue_bounded`).
-/

namespace GrammarTypes.Json

open Decode

/-! ## Beginnings -/

/-- Blanks before a value make no difference. -/
theorem skipBeginning_append (b : Blanks) (s : List Char) :
    skipBeginning (b.chars ++ s) = skipBeginning s := by
  unfold skipBeginning
  rw [b.skipBlanks_append]

/-- A number is passed over from its first digit on. -/
theorem skipBeginning_digit {c : Char} (h : c.isDigit = true) (s : List Char) :
    skipBeginning (c :: s) = (skipNumber (c :: s)).map (none, ·) := by
  rcases eq_of_isDigit h with rfl | rfl | rfl | rfl | rfl | rfl | rfl | rfl | rfl | rfl <;> rfl

namespace Document

/-- A scalar is passed over. -/
theorem IsScalar.skipBeginning_eq {doc : Document} (hscalar : doc.IsScalar) {rest : List Char}
    (h : doc.Before rest) : skipBeginning (doc.text ++ rest) = .ok (none, rest) := by
  cases doc with
  | array _ _ => exact hscalar.elim
  | object _ _ => exact hscalar.elim
  | null => rfl
  | bool b => cases b <;> rfl
  | number n =>
    have hskip := n.skipNumber_unsigned h
    rw [text, Numeral.text]
    cases n.negative with
    | true =>
      have hminus : skipBeginning ('-' :: (n.unsigned ++ rest)) =
          (skipNumber (n.unsigned ++ rest)).map (none, ·) := rfl
      exact hminus.trans (by rw [hskip]; rfl)
    | false =>
      obtain ⟨c, cs, hcs, hdigit⟩ := n.whole.exists_eq_cons
      rw [Numeral.unsigned, hcs, List.cons_append, List.cons_append] at hskip
      rw [if_neg Bool.false_ne_true, Numeral.unsigned, hcs, List.cons_append, List.cons_append,
        skipBeginning_digit hdigit, hskip]
      rfl
  | string q =>
    have hskip := q.skipChars_inner rest
    have hquote : skipBeginning ((Document.string q).text ++ rest) =
        (skipChars 0 (q.inner ++ rest)).map (none, ·) := rfl
    rw [hquote, hskip]
    rfl

end Document

/-! ## Separators -/

/-- What comes next inside a bracket. -/
def phase (first : Bool) : SkipPhase :=
  if first then .opened else .between

/-- A bracket is left at its end. -/
theorem skipNested_end (first : Bool) (bracket : Bracket) (outer : List Bracket) (gap : Blanks)
    (fuel : Nat) (rest : List Char) :
    skipNested (fuel + 1) (phase first) (bracket :: outer)
        (gap.chars ++ bracket.closing :: rest) =
      skipNested fuel .between outer rest := by
  have hend : skipBlanks (bracket.closing :: rest) = bracket.closing :: rest :=
    skipBlanks_cons (by cases bracket <;> rfl) rest
  cases first with
  | true => simp [phase, skipNested, hend]
  | false => simp [phase, skipNested, hend]

/-- The blanks before an item that are left after its comma. -/
def Lead.left (first : Bool) (lead : Lead) : Blanks :=
  if first then .none else lead.inner

/-- Inside a bracket the next value is reached over the separator. -/
theorem skipNested_lead (lead : Lead) (first : Bool) (bracket : Bracket) (outer : List Bracket)
    (fuel : Nat) {c : Char} (hblank : isBlank c = false) (hend : c ≠ bracket.closing)
    (s : List Char) :
    skipNested (fuel + 1) (phase first) (bracket :: outer) (lead.text first ++ c :: s) =
      skipToValue bracket ((lead.left first).chars ++ c :: s) >>=
        skipNested fuel .value (bracket :: outer) := by
  have hnext : skipBlanks (c :: s) = c :: s := skipBlanks_cons hblank s
  have hcomma : skipBlanks (',' :: (lead.inner.chars ++ c :: s)) = _ := skipBlanks_cons rfl _
  have hne : ',' ≠ bracket.closing := by cases bracket <;> decide
  cases first with
  | true => simp [phase, skipNested, hnext, hend, Lead.text, Lead.left]
  | false => simp [phase, skipNested, hcomma, hne, Lead.text, Lead.left]

/-- A name and its colon are passed over. -/
theorem skipKey_append (b : Blanks) (name : Name) (s : List Char) :
    skipKey (b.chars ++ (name.text ++ s)) = .ok (name.inner.chars ++ s) := by
  have hquote : skipBlanks ('"' :: (name.quoted.inner ++ (name.outer.chars ++
      ':' :: (name.inner.chars ++ s)))) = _ := skipBlanks_cons rfl _
  simp only [skipKey, b.skipBlanks_append, Name.text, Quoted.text, List.cons_append,
    List.append_assoc, hquote, name.quoted.skipChars_inner]
  exact readColon_append name.outer (name.inner.chars ++ s)

/-! ## Documents -/

namespace Document

/-- The machine gets over a document, from the value to what comes after it, in fewer than twice as
many steps as the document has characters. -/
def Skips (doc : Document) : Prop :=
  ∃ steps, steps < 2 * doc.text.length ∧
    ∀ (fuel : Nat) (outer : List Bracket) (b : Blanks) (rest : List Char), doc.Before rest →
      skipNested (steps + fuel) .value outer (b.chars ++ (doc.text ++ rest)) =
        skipNested fuel .between outer rest

/-- The machine gets over the items of an array and its end. -/
def SkipsItems (first : Bool) (items : List (Lead × Document)) : Prop :=
  ∃ steps, steps ≤ 2 * (itemsText first items).length + 1 ∧
    ∀ (fuel : Nat) (outer : List Bracket) (gap : Blanks) (rest : List Char),
      skipNested (steps + fuel) (phase first) (.square :: outer)
          (itemsText first items ++ (gap.chars ++ ']' :: rest)) =
        skipNested fuel .between outer rest

/-- The machine gets over the members of an object and its end. -/
def SkipsMembers (first : Bool) (members : List (Lead × Name × Document)) : Prop :=
  ∃ steps, steps ≤ 2 * (membersText first members).length + 1 ∧
    ∀ (fuel : Nat) (outer : List Bracket) (gap : Blanks) (rest : List Char),
      skipNested (steps + fuel) (phase first) (.curly :: outer)
          (membersText first members ++ (gap.chars ++ '\x7d' :: rest)) =
        skipNested fuel .between outer rest

/-- A scalar takes one step. -/
theorem IsScalar.skips {doc : Document} (h : doc.IsScalar) : doc.Skips := by
  obtain ⟨c, cs, hcs, -⟩ := doc.exists_text_eq_cons
  refine ⟨1, by simp [hcs]; omega, fun fuel outer b rest hbefore => ?_⟩
  rw [Nat.add_comm, skipNested, skipBeginning_append, h.skipBeginning_eq hbefore]
  rfl

/-- An item takes one step more than its document. -/
theorem SkipsItems.cons {first : Bool} {lead : Lead} {doc : Document}
    {items : List (Lead × Document)} (hdoc : doc.Skips) (hitems : SkipsItems false items) :
    SkipsItems first ((lead, doc) :: items) := by
  obtain ⟨docSteps, hdocSteps, hskipDoc⟩ := hdoc
  obtain ⟨steps, hsteps, hskip⟩ := hitems
  obtain ⟨c, cs, hcs, hblank, -, hend, -⟩ := doc.exists_text_eq_cons
  -- One step goes over the separator, then those of the document and of the items after it.
  refine ⟨docSteps + steps + 1, ?_, fun fuel outer gap rest => ?_⟩
  · simp only [itemsText, List.length_append]
    omega
  · have hnext := skipNested_lead lead first .square outer (docSteps + (steps + fuel)) hblank hend
      (cs ++ (itemsText false items ++ (gap.chars ++ ']' :: rest)))
    rw [← List.cons_append, ← hcs] at hnext
    have hfuel : docSteps + steps + 1 + fuel = docSteps + (steps + fuel) + 1 := by omega
    rw [itemsText, List.append_assoc, List.append_assoc, hfuel, hnext]
    exact (hskipDoc _ _ _ _ (doc.before_of_delimited (delimited_items items gap rest))).trans
      (hskip fuel outer gap rest)

/-- A member takes one step more than its document. -/
theorem SkipsMembers.cons {first : Bool} {lead : Lead} {name : Name} {doc : Document}
    {members : List (Lead × Name × Document)} (hdoc : doc.Skips)
    (hmembers : SkipsMembers false members) :
    SkipsMembers first ((lead, name, doc) :: members) := by
  obtain ⟨docSteps, hdocSteps, hskipDoc⟩ := hdoc
  obtain ⟨steps, hsteps, hskip⟩ := hmembers
  refine ⟨docSteps + steps + 1, ?_, fun fuel outer gap rest => ?_⟩
  · simp only [membersText, List.length_append]
    omega
  · have hquote : '"' ≠ Bracket.curly.closing := by decide
    have hnext := skipNested_lead lead first .curly outer (docSteps + (steps + fuel)) rfl hquote
      (name.quoted.inner ++ (name.outer.chars ++ ':' :: name.inner.chars) ++
        (doc.text ++ (membersText false members ++ (gap.chars ++ '\x7d' :: rest))))
    have hkey := skipKey_append (lead.left first) name
      (doc.text ++ (membersText false members ++ (gap.chars ++ '\x7d' :: rest)))
    have hfuel : docSteps + steps + 1 + fuel = docSteps + (steps + fuel) + 1 := by omega
    simp only [membersText, List.append_assoc]
    rw [hfuel]
    refine hnext.trans ?_
    rw [skipToValue]
    refine (congrArg (· >>= _) hkey).trans ?_
    exact (hskipDoc _ _ _ _ (doc.before_of_delimited (delimited_members members gap rest))).trans
      (hskip fuel outer gap rest)

mutual

/-- The machine gets over every document. -/
theorem skips : (doc : Document) → doc.Skips
  | .array items gap => by
    obtain ⟨steps, hsteps, hskip⟩ := skipsItems true items
    refine ⟨steps + 1, ?_, fun fuel outer b rest _ => ?_⟩
    · simp only [text, List.length_cons, List.length_append]
      omega
    · have hfuel : steps + 1 + fuel = steps + fuel + 1 := by omega
      rw [text, List.cons_append, List.append_assoc, List.append_assoc, hfuel, skipNested,
        skipBeginning_append]
      exact hskip fuel outer gap rest
  | .object members gap => by
    obtain ⟨steps, hsteps, hskip⟩ := skipsMembers true members
    refine ⟨steps + 1, ?_, fun fuel outer b rest _ => ?_⟩
    · simp only [text, List.length_cons, List.length_append]
      omega
    · have hfuel : steps + 1 + fuel = steps + fuel + 1 := by omega
      rw [text, List.cons_append, List.append_assoc, List.append_assoc, hfuel, skipNested,
        skipBeginning_append]
      exact hskip fuel outer gap rest
  | .null => IsScalar.skips trivial
  | .bool _ => IsScalar.skips trivial
  | .number _ => IsScalar.skips trivial
  | .string _ => IsScalar.skips trivial

/-- The machine gets over the items of every array. -/
theorem skipsItems (first : Bool) : (items : List (Lead × Document)) → SkipsItems first items
  | [] => ⟨1, by omega, fun fuel outer gap rest => by
      rw [Nat.add_comm]
      exact skipNested_end first .square outer gap fuel rest⟩
  | (_, doc) :: items => SkipsItems.cons (skips doc) (skipsItems false items)

/-- The machine gets over the members of every object. -/
theorem skipsMembers (first : Bool) :
    (members : List (Lead × Name × Document)) → SkipsMembers first members
  | [] => ⟨1, by omega, fun fuel outer gap rest => by
      rw [Nat.add_comm]
      exact skipNested_end first .curly outer gap fuel rest⟩
  | (_, _, doc) :: members => SkipsMembers.cons (skips doc) (skipsMembers false members)

end

/-- Every document is passed over. -/
theorem skipValue_append (doc : Document) (b : Blanks) {rest : List Char} (h : doc.Before rest) :
    skipValue (b.chars ++ (doc.text ++ rest)) = .ok ((), rest) := by
  obtain ⟨steps, hsteps, hskip⟩ := doc.skips
  generalize hs : b.chars ++ (doc.text ++ rest) = s
  have hlength : doc.text.length ≤ s.length := by
    simp only [← hs, List.length_append]
    omega
  -- One step is left at least, to see that no bracket is open.
  obtain ⟨fuel, hfuel⟩ : ∃ fuel, 2 * s.length + 2 = steps + (fuel + 1) :=
    ⟨2 * s.length + 1 - steps, by omega⟩
  have hend := hskip (fuel + 1) [] b rest h
  rw [hs, ← hfuel] at hend
  rw [skipValue, hend]
  rfl

end Document

/-! ## What was passed over -/

/-- A value is passed over, or entered when it begins with a bracket. -/
inductive Enters : Option Bracket → List Char → List Char → Prop
  /-- A scalar is passed over. -/
  | scalar (doc : Document) (rest : List Char) : Enters none (doc.text ++ rest) rest
  /-- An array is entered. -/
  | square (rest : List Char) : Enters (some .square) ('[' :: rest) rest
  /-- An object is entered. -/
  | curly (rest : List Char) : Enters (some .curly) ('\x7b' :: rest) rest

/-- What is passed over or entered is a value, after blanks. -/
theorem exists_of_skipBeginning {s rest : List Char} {bracket : Option Bracket}
    (h : skipBeginning s = .ok (bracket, rest)) :
    ∃ (b : Blanks) (s' : List Char), s = b.chars ++ s' ∧ Enters bracket s' rest := by
  obtain ⟨b, hb⟩ := Blanks.exists_eq_append s
  refine ⟨b, skipBlanks s, hb, ?_⟩
  unfold skipBeginning at h
  split at h
  · cases h
  · next r hs =>
    obtain ⟨r', hword, heq⟩ := Except.map_eq_ok_iff.mp h
    cases heq
    rw [hs, eq_append_of_readWord hword]
    exact .scalar .null rest
  · next r hs =>
    obtain ⟨r', hword, heq⟩ := Except.map_eq_ok_iff.mp h
    cases heq
    rw [hs, eq_append_of_readWord hword]
    exact .scalar (.bool true) rest
  · next r hs =>
    obtain ⟨r', hword, heq⟩ := Except.map_eq_ok_iff.mp h
    cases heq
    rw [hs, eq_append_of_readWord hword]
    exact .scalar (.bool false) rest
  · next r hs =>
    obtain ⟨r', hskip, heq⟩ := Except.map_eq_ok_iff.mp h
    cases heq
    obtain ⟨n, hsign, hn⟩ := Numeral.exists_of_skipNumber hskip true
    have htext : '-' :: r = n.text ++ rest := by rw [Numeral.text, hsign, hn]; rfl
    rw [hs, htext]
    exact .scalar (.number n) rest
  · next r hs =>
    obtain ⟨r', hskip, heq⟩ := Except.map_eq_ok_iff.mp h
    cases heq
    obtain ⟨q, rfl⟩ := Quoted.exists_of_skipChars hskip
    rw [hs]
    exact .scalar (.string q) rest
  · next r hs =>
    cases h
    rw [hs]
    exact .square rest
  · next r hs =>
    cases h
    rw [hs]
    exact .curly rest
  · next c r _ _ _ _ _ _ _ hs =>
    split at h
    · obtain ⟨r', hskip, heq⟩ := Except.map_eq_ok_iff.mp h
      cases heq
      obtain ⟨n, hsign, hn⟩ := Numeral.exists_of_skipNumber hskip false
      have htext : c :: r = n.text ++ rest := by rw [Numeral.text, hsign, hn]; rfl
      rw [hs, htext]
      exact .scalar (.number n) rest
    · cases h

/-- What is passed over as a name and its colon are these. -/
theorem exists_of_skipKey {s r : List Char} (h : skipKey s = .ok r) :
    ∃ (b : Blanks) (q : Quoted) (gap : Blanks),
      s = b.chars ++ (q.text ++ (gap.chars ++ ':' :: r)) := by
  unfold skipKey at h
  split at h
  · cases h
  · next s' hs =>
    obtain ⟨r', hskip, hcolon⟩ := Except.bind_eq_ok_iff.mp h
    obtain ⟨b, rfl⟩ := Blanks.exists_of_skipBlanks hs
    obtain ⟨q, rfl⟩ := Quoted.exists_of_skipChars hskip
    obtain ⟨gap, rfl⟩ := exists_of_readColon hcolon
    exact ⟨b, q, gap, rfl⟩
  · cases h

/-- Inside a bracket the machine leaves it at its end or goes on to the next value. -/
theorem skipNested_inside {first : Bool} {bracket : Bracket} {outer : List Bracket} {fuel : Nat}
    {s rest : List Char} (h : skipNested (fuel + 1) (phase first) (bracket :: outer) s = .ok rest) :
    (∃ (gap : Blanks) (r : List Char), s = gap.chars ++ bracket.closing :: r ∧
      skipNested fuel .between outer r = .ok rest) ∨
    ∃ (lead : Lead) (s₁ s₂ : List Char), s = lead.text first ++ s₁ ∧
      skipToValue bracket s₁ = .ok s₂ ∧
        skipNested fuel .value (bracket :: outer) s₂ = .ok rest := by
  cases first with
  | true =>
    rw [phase, if_pos rfl, skipNested] at h
    split at h
    · cases h
    · next c r hs =>
      obtain ⟨gap, rfl⟩ := Blanks.exists_of_skipBlanks hs
      split at h
      · next hc =>
        subst hc
        exact .inl ⟨gap, r, rfl, h⟩
      · obtain ⟨s₂, hvalue, h⟩ := Except.bind_eq_ok_iff.mp h
        exact .inr ⟨⟨gap, .none⟩, c :: r, s₂, by simp [Lead.text], hvalue, h⟩
  | false =>
    rw [phase, if_neg Bool.false_ne_true, skipNested] at h
    split at h
    · cases h
    · next c r hs =>
      obtain ⟨gap, rfl⟩ := Blanks.exists_of_skipBlanks hs
      split at h
      · next hc =>
        subst hc
        exact .inl ⟨gap, r, rfl, h⟩
      · split at h
        · next hcomma =>
          obtain ⟨s₂, hvalue, h⟩ := Except.bind_eq_ok_iff.mp h
          exact .inr ⟨⟨gap, .none⟩, r, s₂, by simp [Lead.text, hcomma], hvalue, h⟩
        · cases h

/-- What is before the machine between values when it succeeds: items and members that close all
open brackets, the innermost first. -/
def Closes (first : Bool) : List Bracket → List Char → List Char → Prop
  | [], s, rest => s = rest
  | .square :: outer, s, rest =>
    ∃ (items : List (Lead × Document)) (gap : Blanks) (s' : List Char),
      s = Document.itemsText first items ++ (gap.chars ++ ']' :: s') ∧ Closes false outer s' rest
  | .curly :: outer, s, rest =>
    ∃ (members : List (Lead × Name × Document)) (gap : Blanks) (s' : List Char),
      s = Document.membersText first members ++ (gap.chars ++ '\x7d' :: s') ∧
        Closes false outer s' rest

/-- What is before the machine when it succeeds. -/
def ClosesFrom : SkipPhase → List Bracket → List Char → List Char → Prop
  | .value, outer, s, rest =>
    ∃ (b : Blanks) (doc : Document) (s' : List Char),
      s = b.chars ++ (doc.text ++ s') ∧ Closes false outer s' rest
  | .opened, outer, s, rest => Closes true outer s rest
  | .between, outer, s, rest => Closes false outer s rest

/-- An item is added to those that close a bracket. -/
theorem Closes.cons {first : Bool} {bracket : Bracket} {outer : List Bracket}
    {lead : Lead} {s₁ s₂ rest : List Char} (hkey : skipToValue bracket s₁ = .ok s₂)
    (h : ClosesFrom .value (bracket :: outer) s₂ rest) :
    Closes first (bracket :: outer) (lead.text first ++ s₁) rest := by
  obtain ⟨b, doc, s₃, rfl, hcloses⟩ := h
  cases bracket with
  | square =>
    cases hkey
    obtain ⟨items, gap, s', rfl, houter⟩ := hcloses
    refine ⟨(lead.pad b, doc) :: items, gap, s', ?_, houter⟩
    rw [Document.itemsText, lead.text_pad]
    simp only [List.append_assoc]
  | curly =>
    obtain ⟨b', q, colon, rfl⟩ := exists_of_skipKey hkey
    obtain ⟨members, gap, s', rfl, houter⟩ := hcloses
    refine ⟨(lead.pad b', ⟨q, colon, b⟩, doc) :: members, gap, s', ?_, houter⟩
    rw [Document.membersText, lead.text_pad, Name.text]
    simp only [List.append_assoc, List.cons_append]

/-- A run of the machine that succeeds closes all brackets. -/
theorem closesFrom_of_skipNested {fuel : Nat} {p : SkipPhase} {outer : List Bracket}
    {s rest : List Char} (h : skipNested fuel p outer s = .ok rest) :
    ClosesFrom p outer s rest := by
  induction fuel generalizing p outer s with
  | zero => cases p <;> cases h
  | succ fuel ih =>
    -- After an opening bracket and between values the machine has the same choice.
    have hinside : ∀ first, p = phase first → Closes first outer s rest := by
      rintro first rfl
      cases outer with
      | nil => cases first <;> exact Except.ok.inj h
      | cons bracket outer =>
        obtain ⟨gap, r, rfl, hend⟩ | ⟨lead, s₁, s₂, rfl, hkey, hvalue⟩ := skipNested_inside h
        · have houter : Closes false outer r rest := ih hend
          cases bracket with
          | square => exact ⟨[], gap, r, rfl, houter⟩
          | curly => exact ⟨[], gap, r, rfl, houter⟩
        · exact Closes.cons hkey (ih hvalue)
    cases p with
    | opened => exact hinside true rfl
    | between => exact hinside false rfl
    | value =>
      rw [skipNested] at h
      obtain ⟨⟨bracket, s₁⟩, hbegin, hbody⟩ := Except.bind_eq_ok_iff.mp h
      obtain ⟨b, s', rfl, henters⟩ := exists_of_skipBeginning hbegin
      cases henters with
      | scalar doc => exact ⟨b, doc, s₁, rfl, ih hbody⟩
      | square =>
        obtain ⟨items, gap, s', rfl, houter⟩ := ih hbody
        exact ⟨b, .array items gap, s', by simp [Document.text], houter⟩
      | curly =>
        obtain ⟨members, gap, s', rfl, houter⟩ := ih hbody
        exact ⟨b, .object members gap, s', by simp [Document.text], houter⟩

/-- A value that is passed over is a document. -/
theorem skipValue_bounded : Bounded skipValue := by
  intro s x rest h
  obtain ⟨r, hskip, heq⟩ := Except.bind_eq_ok_iff.mp h
  cases heq
  obtain ⟨b, doc, s', rfl, rfl⟩ := closesFrom_of_skipNested hskip
  exact ⟨b, doc, rfl⟩

end GrammarTypes.Json
