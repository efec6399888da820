import GrammarTypes.Decode.Grammar
import GrammarTypes.Proofs.Json.Skipping

/-!
# Whole texts

Where the document at the beginning of a text ends is determined by the text
(`Document.rest_eq_of_append_eq`), and so is its value. A whole text is read as the value that it
denotes, with the last member of each name (`Value.ofText_eq_ok_iff`): a text that is no document
with a value, with nothing but blanks around it, is refused.
-/

namespace GrammarTypes.Json

open Decode

/-- Blanks can follow a number. -/
theorem Blanks.delimited (b : Blanks) : Delimited b.chars := by
  have hblank : Delimited (b.chars ++ []) := b.delimited_append (by simp [Delimited])
  rwa [List.append_nil] at hblank

namespace Document

/-- What is left after a document at the beginning of a text is determined by the text. -/
theorem rest_eq_of_append_eq {b b' : Blanks} {doc doc' : Document} {rest rest' : List Char}
    (h : b.chars ++ (doc.text ++ rest) = b'.chars ++ (doc'.text ++ rest')) (hrest : doc.Before rest)
    (hrest' : doc'.Before rest') : rest = rest' := by
  have hskip := doc.skipValue_append b hrest
  rw [h, doc'.skipValue_append b' hrest'] at hskip
  cases hskip
  rfl

/-! ## Values that are read -/

/-- The values of items are those that are found, if what is found is always the value. -/
theorem itemsValue?_of_mapM {found : Document → Option Value}
    (h : ∀ {doc v}, found doc = some v → doc.value? = some v) {items : List (Lead × Document)}
    {vs : List Value} (hfound : (items.mapM fun item => found item.2) = some vs) :
    itemsValue? items = some vs := by
  induction items generalizing vs with
  | nil => exact hfound
  | cons item items ih =>
    rw [List.mapM_cons] at hfound
    obtain ⟨v, hv, hfound⟩ := Option.bind_eq_some_iff.mp hfound
    obtain ⟨vs, hvs, heq⟩ := Option.bind_eq_some_iff.mp hfound
    rw [itemsValue?, h hv, ih hvs]
    exact heq

/-- The names and values of members are those that are found, if what is found is always the
value. -/
theorem membersValue?_of_mapM {found : Document → Option Value}
    (h : ∀ {doc v}, found doc = some v → doc.value? = some v)
    {members : List (Lead × Name × Document)} {ms : List (String × Value)}
    (hfound : members.mapM (memberFound found) = some ms) : membersValue? members = some ms := by
  induction members generalizing ms with
  | nil => exact hfound
  | cons member members ih =>
    rw [List.mapM_cons] at hfound
    obtain ⟨m, hm, hfound⟩ := Option.bind_eq_some_iff.mp hfound
    obtain ⟨ms, hms, heq⟩ := Option.bind_eq_some_iff.mp hfound
    obtain ⟨key, hkey, hm⟩ := Option.bind_eq_some_iff.mp hm
    obtain ⟨v, hv, hm⟩ := Option.bind_eq_some_iff.mp hm
    cases hm
    rw [membersValue?, hkey, h hv, ih hms]
    exact heq

/-- A value that is found within a depth is the value. -/
theorem value?_of_valueWithin? {depth : Nat} {doc : Document} {v : Value}
    (h : doc.valueWithin? depth = some v) : doc.value? = some v := by
  induction depth generalizing doc v with
  | zero =>
    rcases doc.scalar_or_container with hscalar | ⟨items, gap, rfl⟩ | ⟨members, gap, rfl⟩
    · rwa [hscalar.valueWithin?_eq] at h
    · cases h
    · cases h
  | succ depth ih =>
    rcases doc.scalar_or_container with hscalar | ⟨items, gap, rfl⟩ | ⟨members, gap, rfl⟩
    · rwa [hscalar.valueWithin?_eq] at h
    · obtain ⟨vs, hvs, rfl⟩ := Option.map_eq_some_iff.mp h
      rw [value?, itemsValue?_of_mapM ih hvs]
      rfl
    · obtain ⟨ms, hms, rfl⟩ := Option.map_eq_some_iff.mp h
      rw [value?, membersValue?_of_mapM ih hms]
      rfl

/-! ## Values that are not too deep for their texts -/

mutual

/-- A value does not nest deeper than its text is long. -/
theorem depth_le_length_text {v : Value} :
    (doc : Document) → doc.value? = some v → v.depth ≤ doc.text.length
  | .null, h => by cases h; exact Nat.zero_le _
  | .bool _, h => by cases h; exact Nat.zero_le _
  | .number _, h => by
    obtain ⟨x, -, rfl⟩ := Option.map_eq_some_iff.mp h
    exact Nat.zero_le _
  | .string _, h => by
    obtain ⟨x, -, rfl⟩ := Option.map_eq_some_iff.mp h
    exact Nat.zero_le _
  | .array items gap, h => by
    obtain ⟨vs, hvs, rfl⟩ := Option.map_eq_some_iff.mp h
    have hitems := depthOfItems_le_length_itemsText true items hvs
    simp only [Value.depth, text, List.length_cons, List.length_append]
    omega
  | .object members gap, h => by
    obtain ⟨ms, hms, rfl⟩ := Option.map_eq_some_iff.mp h
    have hmembers := depthOfMembers_le_length_membersText true members hms
    simp only [Value.depth, text, List.length_cons, List.length_append]
    omega

/-- Items do not nest deeper than their text is long. -/
theorem depthOfItems_le_length_itemsText (first : Bool) {vs : List Value} :
    (items : List (Lead × Document)) → itemsValue? items = some vs →
      Value.depthOfItems vs ≤ (itemsText first items).length
  | [], h => by cases h; exact Nat.zero_le _
  | (lead, doc) :: items, h => by
    simp only [itemsValue?, Option.bind_eq_bind, Option.bind_eq_some_iff] at h
    obtain ⟨v, hv, vs, hvs, heq⟩ := h
    cases heq
    have hdoc := depth_le_length_text doc hv
    have hitems := depthOfItems_le_length_itemsText false items hvs
    simp only [Value.depthOfItems, itemsText, List.length_append]
    omega

/-- Members do not nest deeper than their text is long. -/
theorem depthOfMembers_le_length_membersText (first : Bool) {ms : List (String × Value)} :
    (members : List (Lead × Name × Document)) → membersValue? members = some ms →
      Value.depthOfMembers ms ≤ (membersText first members).length
  | [], h => by cases h; exact Nat.zero_le _
  | (lead, name, doc) :: members, h => by
    simp only [membersValue?, Option.bind_eq_bind, Option.bind_eq_some_iff] at h
    obtain ⟨key, -, v, hv, ms, hms, heq⟩ := h
    cases heq
    have hdoc := depth_le_length_text doc hv
    have hmembers := depthOfMembers_le_length_membersText false members hms
    simp only [Value.depthOfMembers, membersText, List.length_append]
    omega

end

end Document

/-! ## Texts -/

/-- A text from which a value is read up to blanks denotes the value. -/
theorem denotes_of_readValue {source : String} {items depth : Nat} {v : Value} {rest : List Char}
    (h : readValue items depth source.toList = .ok (v, rest))
    (hitems : source.toList.length < items) (hrest : ∀ c ∈ rest, isBlank c) : Denotes source v := by
  obtain ⟨before, doc, hsource⟩ := Document.readValue_bounded items depth _ v rest h
  have hlength : doc.text.length < items := by
    rw [hsource] at hitems
    simp only [List.length_append] at hitems
    omega
  have hbefore := doc.before_of_delimited (Blanks.delimited ⟨rest, hrest⟩)
  have hread := doc.readValue_finds hlength depth before rest hbefore
  rw [← hsource, h] at hread
  obtain ⟨v', hv', heq⟩ := Option.map_eq_some_iff.mp hread.symm
  cases heq
  exact ⟨before, doc, ⟨rest, hrest⟩, hsource, Document.value?_of_valueWithin? hv'⟩

/-- From a text that denotes a value the value is read, and blanks are left. -/
theorem Denotes.readValue {source : String} {v : Value} (h : Denotes source v) :
    ∃ after : Blanks,
      Decode.readValue (source.toList.length + 1) source.toList.length source.toList =
        .ok (v, after.chars) := by
  obtain ⟨before, doc, after, hsource, hv⟩ := h
  have hlength : doc.text.length ≤ source.toList.length := by
    simp only [hsource, List.length_append]
    omega
  have hdepth := Nat.le_trans (doc.depth_le_length_text hv) hlength
  have hread := doc.readValue_finds (Nat.lt_succ_of_le hlength) source.toList.length before _
    (doc.before_of_delimited after.delimited)
  rw [← hsource, Document.valueWithin?_of_value? hv hdepth] at hread
  exact ⟨after, Except.toOption_eq_some_iff.mp hread⟩

/-- The value of a whole text is the one that the text denotes, with the last member of each
name. -/
theorem Value.ofText_eq_ok_iff {source : String} {w : Value} :
    Value.ofText source = .ok w ↔ ∃ v, Denotes source v ∧ v.distinct = w := by
  constructor
  · intro h
    unfold Value.ofText at h
    dsimp only at h
    split at h
    · next v rest hread =>
      split at h
      · next hend =>
        obtain ⟨after, hafter⟩ := Blanks.exists_of_skipBlanks hend
        have hblank : ∀ c ∈ rest, isBlank c := by
          rw [hafter, List.append_nil]
          exact after.blank
        exact ⟨v, denotes_of_readValue hread (Nat.lt_succ_self _) hblank, Except.ok.inj h⟩
      · cases h
    · cases h
  · rintro ⟨v, h, rfl⟩
    obtain ⟨after, hread⟩ := h.readValue
    have hend : skipBlanks after.chars = [] := by
      have hskip := after.skipBlanks_append []
      rwa [List.append_nil] at hskip
    unfold Value.ofText
    dsimp only
    rw [hread]
    dsimp only
    rw [hend]

end GrammarTypes.Json
