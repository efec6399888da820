import GrammarTypes.Proofs.Text.Literal
import GrammarTypes.Proofs.Ty.Normal
import GrammarTypes.Ty.Render

/-!
# The text of a type determines the type

Nothing separates the levels of a type in its text, so the text is read from the left. A member of
a union begins with a word, up to the first delimiter (`toList_render`). The word and the delimiter
after it tell the kind of the member, and inside of it stands a literal, a name or a whole type,
each of which can be told from what follows. So a member can be told from what follows, when this
does not go on with the member (`determined_of_parts`). A whole type is its members between bars,
and they are read one after the other (`determined_of_members`).

The names in a type are free of delimiters and no keywords. They may be empty: an empty word that
no quote and no parenthesis follows is the empty name.
-/

namespace GrammarTypes

/-! ## Words and delimiters -/

/-- The characters that give the text of a type its structure. -/
def delimiters : List Char := ['"', '|', '(', ')', '<', '>']

/-- The delimiters that open a literal or what another type stands in. -/
def openers : List Char := ['"', '(', '<']

/-- The delimiters that close what a type stands in. -/
def closers : List Char := [')', '>']

/-- The words that stand for a type of their own and not for a rule. -/
def keywords : List String := ["string", "unknown", "never", "null", "undefined", "void"]

/-- A name without delimiters. -/
def Plain (name : String) : Prop := ∀ c ∈ name.toList, c ∉ delimiters

instance (name : String) : Decidable (Plain name) :=
  List.decidableBAll (fun c => c ∉ delimiters) name.toList

/-- What follows is nothing, or begins with one of the given characters. -/
def StopsAt (stops rest : List Char) : Prop := ∀ c ∈ rest.head?, c ∈ stops

variable {stops r s : List Char}

@[simp] theorem stopsAt_nil : StopsAt stops [] := by simp [StopsAt]

@[simp] theorem stopsAt_cons {c : Char} : StopsAt stops (c :: r) ↔ c ∈ stops := by simp [StopsAt]

/-- What stops at a character stops at it among others. -/
theorem StopsAt.mono {more : List Char} (h : StopsAt stops r) (hsub : stops ⊆ more) :
    StopsAt more r :=
  fun c hc => hsub (h c hc)

/-- A text that stops at some characters and goes on with another such text stops at them. -/
theorem StopsAt.append (hr : StopsAt stops r) (hs : StopsAt stops s) : StopsAt stops (r ++ s) := by
  cases r with
  | nil => exact hs
  | cons => exact hr

/-- A word can be told from what follows it, when this stops at a character outside the word. -/
theorem word_append_inj : ∀ {v w : List Char}, (∀ c ∈ v, c ∉ stops) → (∀ c ∈ w, c ∉ stops) →
    StopsAt stops r → StopsAt stops s → v ++ r = w ++ s → v = w ∧ r = s
  | [], [], _, _, _, _, h => ⟨rfl, h⟩
  | [], d :: w, _, hw, hr, _, h => by
    obtain rfl : r = d :: (w ++ s) := h
    exact absurd (stopsAt_cons.1 hr) (hw d List.mem_cons_self)
  | c :: v, [], hv, _, _, hs, h => by
    obtain rfl : c :: (v ++ r) = s := h
    exact absurd (stopsAt_cons.1 hs) (hv c List.mem_cons_self)
  | c :: v, d :: w, hv, hw, hr, hs, h => by
    obtain ⟨rfl, htail⟩ := List.cons.inj h
    obtain ⟨rfl, rfl⟩ := word_append_inj (fun x hx => hv x (List.mem_cons_of_mem c hx))
      (fun x hx => hw x (List.mem_cons_of_mem c hx)) hr hs htail
    exact ⟨rfl, rfl⟩

namespace Ty

variable {t u : Ty}

/-! ## Legible types -/

/-- What a legible type is like at its top: a union has at least two members and none of them is a
union, names are free of delimiters, and the name of a rule is no keyword. -/
def LegibleHere : Ty → Prop
  | .union ts => 2 ≤ ts.length ∧ ∀ t ∈ ts, t.isUnion = false
  | .ruleRef name => Plain name ∧ name ∉ keywords
  | .returnOf helper => Plain helper
  | _ => True

/-- A type whose text can be read. -/
def Legible (t : Ty) : Prop := t.Everywhere LegibleHere

instance : DecidablePred LegibleHere
  | .union ts => inferInstanceAs (Decidable (2 ≤ ts.length ∧ ∀ t ∈ ts, t.isUnion = false))
  | .ruleRef name => inferInstanceAs (Decidable (Plain name ∧ name ∉ keywords))
  | .returnOf helper => inferInstanceAs (Decidable (Plain helper))
  | .group _ | .array _ | .text | .unknown | .literal _ | .marker _ => isTrue trivial

instance : DecidablePred Legible := fun t => inferInstanceAs (Decidable (t.Everywhere LegibleHere))

/-- A legible type that can stand among the members of a union. -/
def LegibleMember (t : Ty) : Prop := t.Legible ∧ t.isUnion = false

/-- The members of a legible type are legible and no unions. -/
theorem Legible.members (h : t.Legible) : ∀ m ∈ t.members, m.LegibleMember := by
  cases t with
  | union ts =>
    obtain ⟨⟨-, hunion⟩, hts⟩ := everywhere_iff.1 h
    exact fun m hm => ⟨hts m hm, hunion m hm⟩
  | _ =>
    intro m hm
    obtain rfl := List.mem_singleton.1 hm
    exact ⟨h, rfl⟩

/-- A legible type is made of its members. -/
theorem Legible.ofMembers_members (h : t.Legible) : ofMembers t.members = t := by
  refine Ty.ofMembers_members ?_
  rintro ts rfl
  exact (everywhere_iff.1 h).1.1

/-! ## The text of one member -/

/-- The word that the text of a member begins with. -/
def word : Ty → String
  | .text => "string"
  | .unknown => "unknown"
  | .marker m => m.render
  | .ruleRef name => name
  | .array _ => "Array"
  | .returnOf _ => "ReturnType"
  | .literal _ | .group _ | .union _ => ""

/-- The text of a member after its first word. -/
def body : Ty → List Char
  | .literal value => (Text.literal value).toList
  | .group t => '(' :: (t.render.toList ++ [')'])
  | .array t => '<' :: (t.render.toList ++ ['>'])
  | .returnOf helper => '<' :: (("typeof " ++ helper).toList ++ ['>'])
  | .text | .unknown | .marker _ | .ruleRef _ | .union _ => []

/-- The text of a member is its first word and what comes after it. -/
theorem toList_render (h : t.isUnion = false) : t.render.toList = t.word.toList ++ t.body := by
  cases t with
  | union => exact nomatch h
  | literal value =>
    have htext : (literal value).render = Text.literal value := rfl
    simp [htext, word, body]
  | group t =>
    have htext : (group t).render = "(" ++ t.render ++ ")" := rfl
    simp [htext, word, body]
  | array t =>
    have htext : (array t).render = "Array<" ++ t.render ++ ">" := rfl
    simp [htext, word, body]
  | returnOf helper =>
    have htext : (returnOf helper).render = "ReturnType<typeof " ++ helper ++ ">" := rfl
    simp [htext, word, body]
  | text | unknown | marker | ruleRef => exact (List.append_nil _).symm

/-- The first word of a member has no delimiters. -/
theorem Legible.plain_word (h : t.Legible) : Plain t.word := by
  cases t with
  | ruleRef name => exact (everywhere_iff.1 h).1.1
  | marker m => cases m <;> decide
  | text => exact (by decide : Plain "string")
  | unknown => exact (by decide : Plain "unknown")
  | array => exact (by decide : Plain "Array")
  | returnOf => exact (by decide : Plain "ReturnType")
  | literal | group | union => exact (by decide : Plain "")

/-- What comes after the first word begins with a delimiter. -/
theorem stopsAt_body (t : Ty) : StopsAt openers t.body := by
  cases t with
  | literal value =>
    rw [body, Text.toList_literal, stopsAt_cons]
    decide
  | group | array | returnOf => exact stopsAt_cons.2 (by decide)
  | text | unknown | marker | ruleRef | union => exact stopsAt_nil

/-- Nothing of a member is left where the text goes on with the next one or is closed. -/
theorem body_eq_nil_of_stopsAt (h : StopsAt ('|' :: closers) (t.body ++ r)) : t.body = [] := by
  match hbody : t.body, stopsAt_body t with
  | [], _ => rfl
  | c :: cs, hc =>
    have hdisjoint : ∀ c ∈ openers, c ∉ '|' :: closers := by simp [openers, closers]
    rw [hbody] at h
    exact absurd (stopsAt_cons.1 h) (hdisjoint c (stopsAt_cons.1 hc))

/-- The type that a word stands for when nothing belongs to it. -/
def ofWord : String → Ty
  | "string" => .text
  | "unknown" => .unknown
  | "never" => .marker .never
  | "null" => .marker .null
  | "undefined" => .marker .undefined
  | "void" => .marker .void
  | name => .ruleRef name

/-- A member that is a word only is what the word stands for. -/
theorem LegibleMember.ofWord_word (h : t.LegibleMember) (hbody : t.body = []) :
    ofWord t.word = t := by
  cases t with
  | text | unknown => rfl
  | marker m => cases m <;> rfl
  | ruleRef name =>
    have hname : name ∉ keywords := (everywhere_iff.1 h.1).1.2
    simp only [keywords, List.mem_cons, List.not_mem_nil, or_false, not_or] at hname
    simp [ofWord, word, hname]
  | union => exact nomatch h.2
  | literal value => exact nomatch (Text.toList_literal value).symm.trans hbody
  | group | array | returnOf => exact nomatch hbody

/-- Among the given types, the text of a type can be told from what follows it, when this is nothing
or begins with one of the given characters. -/
def Determined (among : Ty → Prop) (stops : List Char) (t : Ty) : Prop :=
  ∀ ⦃u : Ty⦄ ⦃r s : List Char⦄, among u → StopsAt stops r → StopsAt stops s →
    t.render.toList ++ r = u.render.toList ++ s → t = u ∧ r = s

/-- A member can be told from what follows it: the next one after a bar, or what closes the text. -/
def DeterminedMember : Ty → Prop := Determined LegibleMember ('|' :: closers)

/-- A whole type can be told from what follows it, which closes the text. -/
def DeterminedType : Ty → Prop := Determined Legible closers

/-- A type in brackets can be told from what follows the closing one. -/
theorem DeterminedType.closed {c : Char} (h : t.DeterminedType) (hu : u.Legible) (hc : c ∈ closers)
    (htext : t.render.toList ++ [c] ++ r = u.render.toList ++ [c] ++ s) : t = u ∧ r = s := by
  rw [List.append_assoc, List.append_assoc] at htext
  obtain ⟨rfl, hrest⟩ := h hu (stopsAt_cons.2 hc) (stopsAt_cons.2 hc) htext
  exact ⟨rfl, (List.cons.inj hrest).2⟩

/-- The body of a member that has one can be told from what follows it. -/
theorem body_append_inj (hparts : ∀ v ∈ t.parts, v.DeterminedType) (ht : t.Legible) (hu : u.Legible)
    (hword : t.word = u.word) (hbody : t.body ≠ []) (hbody' : u.body ≠ [])
    (htext : t.body ++ r = u.body ++ s) : t = u ∧ r = s := by
  -- Two kinds with a body differ in their words, but for literals and groups, which have none.
  cases t with
  | literal v =>
    cases u with
    | literal w =>
      obtain ⟨rfl, hrest⟩ := Text.literal_append_inj htext
      exact ⟨rfl, hrest⟩
    | group => simp [body, Text.toList_literal] at htext
    | _ => simp_all [word, body]
  | group t =>
    cases u with
    | group u =>
      obtain ⟨rfl, hrest⟩ := (hparts t List.mem_cons_self).closed ((everywhere_of_part rfl).1 hu).2
        (by decide) (List.cons.inj htext).2
      exact ⟨rfl, hrest⟩
    | literal => simp [body, Text.toList_literal] at htext
    | _ => simp_all [word, body]
  | array t =>
    cases u with
    | array u =>
      obtain ⟨rfl, hrest⟩ := (hparts t List.mem_cons_self).closed ((everywhere_of_part rfl).1 hu).2
        (by decide) (List.cons.inj htext).2
      exact ⟨rfl, hrest⟩
    | _ => simp_all [word, body]
  | returnOf f =>
    cases u with
    | returnOf g =>
      have htail : f.toList ++ '>' :: r = g.toList ++ '>' :: s := by simpa [body] using htext
      have hstop : '>' ∈ delimiters := by decide
      obtain ⟨hname, hrest⟩ := word_append_inj (everywhere_iff.1 ht).1 (everywhere_iff.1 hu).1
        (stopsAt_cons.2 hstop) (stopsAt_cons.2 hstop) htail
      exact ⟨congrArg returnOf (String.toList_inj.1 hname), (List.cons.inj hrest).2⟩
    | _ => simp_all [word, body]
  | text | unknown | marker | ruleRef | union => exact absurd rfl hbody

/-- A member can be told from what follows it when its parts can. -/
theorem determined_of_parts (ht : t.LegibleMember) (hparts : ∀ u ∈ t.parts, u.DeterminedType) :
    t.DeterminedMember := by
  intro u r s hu hr hs htext
  have hopen : openers ⊆ delimiters := by decide
  have hclose : '|' :: closers ⊆ delimiters := by decide
  rw [toList_render ht.2, toList_render hu.2, List.append_assoc, List.append_assoc] at htext
  -- After its first word each text goes on with a delimiter: one that opens a body, or one of those
  -- that can follow a member.
  obtain ⟨hword, hbodies⟩ := word_append_inj ht.1.plain_word hu.1.plain_word
    (((stopsAt_body t).mono hopen).append (hr.mono hclose))
    (((stopsAt_body u).mono hopen).append (hs.mono hclose)) htext
  replace hword : t.word = u.word := String.toList_inj.1 hword
  by_cases hbody : t.body = []
  · -- The first is a word only. What follows it opens no body, so the second is a word only too.
    rw [hbody, List.nil_append] at hbodies
    have hbody' : u.body = [] := body_eq_nil_of_stopsAt (hbodies ▸ hr)
    rw [hbody', List.nil_append] at hbodies
    refine ⟨?_, hbodies⟩
    rw [← ht.ofWord_word hbody, ← hu.ofWord_word hbody', hword]
  · have hbody' : u.body ≠ [] := by
      intro hnil
      rw [hnil, List.nil_append] at hbodies
      exact hbody (body_eq_nil_of_stopsAt (hbodies ▸ hs))
    exact body_append_inj hparts ht.1 hu.1 hword hbody hbody' hbodies

/-! ## The text of several members -/

/-- The text of members with a bar before each of them. -/
def barred (ts : List Ty) : List Char := ts.flatMap fun t => '|' :: t.render.toList

/-- A union has bars between the texts of its members. -/
theorem toList_render_union (ts : List Ty) :
    (union ts).render.toList = ['|'].intercalate (ts.map fun t => t.render.toList) := by
  have htext : (union ts).render = "|".intercalate (renderAll ts) := rfl
  rw [htext, renderAll_eq_map, String.toList_intercalate, List.map_map]
  rfl

/-- Members with bars before them are a bar and their union. -/
theorem barred_cons (t : Ty) (ts : List Ty) :
    barred (t :: ts) = '|' :: (union (t :: ts)).render.toList := by
  induction ts generalizing t with
  | nil => simp [barred, toList_render_union, List.intercalate_singleton]
  | cons u ts ih =>
    calc barred (t :: u :: ts)
      _ = '|' :: (t.render.toList ++ barred (u :: ts)) := rfl
      _ = '|' :: (t.render.toList ++ '|' :: (union (u :: ts)).render.toList) := by rw [ih u]
      _ = '|' :: (union (t :: u :: ts)).render.toList := by
        simp [toList_render_union, List.intercalate_cons_cons]

/-- A legible type with a bar before it is its members with bars before them. -/
theorem Legible.barred_members (h : t.Legible) : barred t.members = '|' :: t.render.toList := by
  cases t with
  | union ts =>
    obtain ⟨⟨hlength, -⟩, -⟩ := everywhere_iff.1 h
    match ts with
    | t :: ts => exact barred_cons t ts
  | _ => exact List.append_nil _

/-- After a member, more members with bars before them can follow. -/
theorem stopsAt_barred (ts : List Ty) (hr : StopsAt closers r) :
    StopsAt ('|' :: closers) (barred ts ++ r) := by
  cases ts with
  | nil => exact hr.mono (List.subset_cons_self _ _)
  | cons t ts => exact stopsAt_cons.2 List.mem_cons_self

/-- Members can be told one by one from what follows them. -/
theorem barred_append_inj (hr : StopsAt closers r) (hs : StopsAt closers s) : ∀ {ts us : List Ty},
    (∀ t ∈ ts, t.DeterminedMember) → (∀ u ∈ us, u.LegibleMember) →
    barred ts ++ r = barred us ++ s → ts = us ∧ r = s
  | [], [], _, _, h => ⟨rfl, h⟩
  -- A bar does not close the text, so no members are left on either side.
  | [], u :: us, _, _, h => by
    obtain rfl : r = '|' :: (u.render.toList ++ barred us ++ s) := h
    exact absurd (stopsAt_cons.1 hr) (by decide)
  | t :: ts, [], _, _, h => by
    obtain rfl : '|' :: (t.render.toList ++ barred ts ++ r) = s := h
    exact absurd (stopsAt_cons.1 hs) (by decide)
  | t :: ts, u :: us, hts, hus, h => by
    have htext : t.render.toList ++ (barred ts ++ r) = u.render.toList ++ (barred us ++ s) := by
      simpa [barred] using h
    obtain ⟨rfl, hrest⟩ := hts t List.mem_cons_self (hus u List.mem_cons_self)
      (stopsAt_barred ts hr) (stopsAt_barred us hs) htext
    obtain ⟨rfl, rfl⟩ := barred_append_inj hr hs (fun v hv => hts v (List.mem_cons_of_mem t hv))
      (fun v hv => hus v (List.mem_cons_of_mem t hv)) hrest
    exact ⟨rfl, rfl⟩

/-- A type can be told from what follows it when its members can. -/
theorem determined_of_members (ht : t.Legible) (hmembers : ∀ m ∈ t.members, m.DeterminedMember) :
    t.DeterminedType := by
  intro u r s hu hr hs htext
  have hbarred : barred t.members ++ r = barred u.members ++ s := by
    rw [ht.barred_members, hu.barred_members, List.cons_append, List.cons_append, htext]
  obtain ⟨hsame, hrest⟩ := barred_append_inj hr hs hmembers hu.members hbarred
  refine ⟨?_, hrest⟩
  rw [← ht.ofMembers_members, ← hu.ofMembers_members, hsame]

/-- The members of a legible type can be told from what follows them. -/
theorem Legible.determined_members (h : t.Legible) : ∀ m ∈ t.members, m.DeterminedMember := by
  induction h with
  | @intro t here inside ih =>
    have ht : t.Legible := ⟨here, inside⟩
    intro m hm
    -- A part that is a member is its own only member; all other parts are whole types.
    cases t with
    | union ts =>
      have hself : m ∈ m.members := by
        rw [members_of_not_union (ht.members m hm).2]
        exact List.mem_singleton_self m
      exact ih m hm m hself
    | _ =>
      obtain rfl := List.mem_singleton.1 hm
      exact determined_of_parts ⟨ht, rfl⟩ fun u hu => determined_of_members (inside u hu) (ih u hu)

/-- Two legible types of one text are the same type. -/
theorem eq_of_render_eq (ht : t.Legible) (hu : u.Legible) (h : t.render = u.render) : t = u := by
  have htext : t.render.toList ++ [] = u.render.toList ++ [] := by rw [h]
  exact (determined_of_members ht ht.determined_members hu stopsAt_nil stopsAt_nil htext).1

/-- A literal of delimiters, a rule that has the name of the list type, and a list of its values. -/
theorem eq_of_render_eq_delimiters :
    (groupOf [.literal "\"|(", .union [.ruleRef "Array", .array (.ruleRef "Array")],
      .literal "\"|(", .returnOf "f"]).render =
        "(\"\\\"|(\"|Array|Array<Array>|ReturnType<typeof f>)" ∧
    groupOf [.literal "\"|(", .union [.ruleRef "Array", .array (.ruleRef "Array")],
      .literal "\"|(", .returnOf "f"] =
        group (.union [.literal "\"|(", .ruleRef "Array", .array (.ruleRef "Array"),
          .returnOf "f"]) :=
  ⟨by decide, eq_of_render_eq (by decide) (by decide) (by decide)⟩

end Ty

end GrammarTypes
