import GrammarTypes.Proofs.Decode.Members

/-!
# Grammars written as values

How a syntax tree is written as a JSON value, and that decoding reads it back. A node is an object
with the documented members in any order and any others among them; a false flag, an absent label
and an absent initializer can be left out. `Expr.WrittenAs`, `Rule.WrittenAs` and
`Grammar.WrittenAs` say so, node by node, and `Grammar.value` is one such value. The draft of a node
does not depend on the order of its members, so it is the one that the documented members make
(`FieldsWrittenAs.draft`).
-/

namespace GrammarTypes

open Decode
open Json (Value)

/-! ## Ways to write a syntax tree -/

/-- A part of a class as it is written. -/
def ClassPart.value : ClassPart → Value
  | .char text => .string text
  | .range lower upper => .array [.string lower, .string upper]

/-- The member for a flag, which can be left out when the flag is false. -/
inductive FlagWrittenAs (key : String) : Bool → List (String × Value) → Prop
  | written (b : Bool) : FlagWrittenAs key b [(key, .bool b)]
  | leftOut : FlagWrittenAs key false []

/-- The member for a label, which can be left out when there is none. -/
inductive LabelWrittenAs : Option String → List (String × Value) → Prop
  | written (label : String) : LabelWrittenAs (some label) [("label", .string label)]
  | null : LabelWrittenAs none [("label", .null)]
  | leftOut : LabelWrittenAs none []

namespace Expr

mutual

/-- A value that an expression is written as. -/
inductive WrittenAs : Expr → Value → Prop
  | object {e : Expr} {fields ms : List (String × Value)} (hfields : FieldsWrittenAs e fields)
    (hms : HasMembers ("type" :: (fieldsOf e.kind).map Field.key)
      (("type", .string e.kind.tag) :: fields) ms) : WrittenAs e (.object ms)

/-- Values that several expressions are written as. -/
inductive AllWrittenAs : List Expr → List Value → Prop
  | nil : AllWrittenAs [] []
  | cons {e : Expr} {v : Value} {es : List Expr} {vs : List Value} (h : WrittenAs e v)
    (hs : AllWrittenAs es vs) : AllWrittenAs (e :: es) (v :: vs)

/-- Members that the fields of an expression are written as. -/
inductive FieldsWrittenAs : Expr → List (String × Value) → Prop
  | action (code : String) {e : Expr} {v : Value} (h : WrittenAs e v) :
    FieldsWrittenAs (.action code e) [("code", .string code), ("expression", v)]
  | any : FieldsWrittenAs .any []
  | choice {es : List Expr} {vs : List Value} (h : AllWrittenAs es vs) :
    FieldsWrittenAs (.choice es) [("alternatives", .array vs)]
  | charClass (parts : List ClassPart) {inverted ignoreCase : Bool}
    {ms ms' : List (String × Value)} (h : FlagWrittenAs "inverted" inverted ms)
    (h' : FlagWrittenAs "ignoreCase" ignoreCase ms') :
    FieldsWrittenAs (.charClass parts inverted ignoreCase)
      (("parts", .array (parts.map ClassPart.value)) :: (ms ++ ms'))
  | group {e : Expr} {v : Value} (h : WrittenAs e v) :
    FieldsWrittenAs (.group e) [("expression", v)]
  | labeled {label : Option String} {ms : List (String × Value)} {e : Expr} {v : Value}
    (hlabel : LabelWrittenAs label ms) (h : WrittenAs e v) :
    FieldsWrittenAs (.labeled label e) (ms ++ [("expression", v)])
  | literal (value : String) {ignoreCase : Bool} {ms : List (String × Value)}
    (h : FlagWrittenAs "ignoreCase" ignoreCase ms) :
    FieldsWrittenAs (.literal value ignoreCase) (("value", .string value) :: ms)
  | named (name : String) {e : Expr} {v : Value} (h : WrittenAs e v) :
    FieldsWrittenAs (.named name e) [("name", .string name), ("expression", v)]
  | oneOrMore {e : Expr} {v : Value} (h : WrittenAs e v) :
    FieldsWrittenAs (.oneOrMore e) [("expression", v)]
  | optional {e : Expr} {v : Value} (h : WrittenAs e v) :
    FieldsWrittenAs (.optional e) [("expression", v)]
  | ruleRef (name : String) : FieldsWrittenAs (.ruleRef name) [("name", .string name)]
  | semanticAnd (code : String) : FieldsWrittenAs (.semanticAnd code) [("code", .string code)]
  | semanticNot (code : String) : FieldsWrittenAs (.semanticNot code) [("code", .string code)]
  | sequence {es : List Expr} {vs : List Value} (h : AllWrittenAs es vs) :
    FieldsWrittenAs (.sequence es) [("elements", .array vs)]
  | simpleAnd {e : Expr} {v : Value} (h : WrittenAs e v) :
    FieldsWrittenAs (.simpleAnd e) [("expression", v)]
  | simpleNot {e : Expr} {v : Value} (h : WrittenAs e v) :
    FieldsWrittenAs (.simpleNot e) [("expression", v)]
  | text {e : Expr} {v : Value} (h : WrittenAs e v) :
    FieldsWrittenAs (.text e) [("expression", v)]
  | zeroOrMore {e : Expr} {v : Value} (h : WrittenAs e v) :
    FieldsWrittenAs (.zeroOrMore e) [("expression", v)]

end

/-- The value of a node: its tag, and then its fields. -/
def node (kind : Kind) (fields : List (String × Value)) : Value :=
  .object (("type", .string kind.tag) :: fields)

/-- A label as it is written. -/
def labelValue : Option String → Value
  | none => .null
  | some label => .string label

mutual

/-- The fields of an expression, none of them left out. -/
def fieldValues : Expr → List (String × Value)
  | .action code e => [("code", .string code), ("expression", node e.kind (fieldValues e))]
  | .any => []
  | .choice es => [("alternatives", .array (values es))]
  | .charClass parts inverted ignoreCase =>
    [("parts", .array (parts.map ClassPart.value)), ("inverted", .bool inverted),
     ("ignoreCase", .bool ignoreCase)]
  | .group e => [("expression", node e.kind (fieldValues e))]
  | .labeled label e => [("label", labelValue label), ("expression", node e.kind (fieldValues e))]
  | .literal value ignoreCase => [("value", .string value), ("ignoreCase", .bool ignoreCase)]
  | .named name e => [("name", .string name), ("expression", node e.kind (fieldValues e))]
  | .oneOrMore e => [("expression", node e.kind (fieldValues e))]
  | .optional e => [("expression", node e.kind (fieldValues e))]
  | .ruleRef name => [("name", .string name)]
  | .semanticAnd code => [("code", .string code)]
  | .semanticNot code => [("code", .string code)]
  | .sequence es => [("elements", .array (values es))]
  | .simpleAnd e => [("expression", node e.kind (fieldValues e))]
  | .simpleNot e => [("expression", node e.kind (fieldValues e))]
  | .text e => [("expression", node e.kind (fieldValues e))]
  | .zeroOrMore e => [("expression", node e.kind (fieldValues e))]

/-- The values of expressions. -/
def values : List Expr → List Value
  | [] => []
  | e :: es => node e.kind (fieldValues e) :: values es

end

/-- The value of an expression, with nothing left out or added. -/
def value (e : Expr) : Value :=
  node e.kind (fieldValues e)

/-- An expression is written as a node with its fields. -/
theorem FieldsWrittenAs.writtenAs {e : Expr} {fields : List (String × Value)}
    (h : FieldsWrittenAs e fields) : WrittenAs e (node e.kind fields) :=
  .object h (.given _ _)

mutual

/-- The fields of an expression are a way to write them. -/
theorem fieldsWrittenAs_fieldValues : (e : Expr) → FieldsWrittenAs e (fieldValues e)
  | .action code e => .action code (fieldsWrittenAs_fieldValues e).writtenAs
  | .any => .any
  | .choice es => .choice (allWrittenAs_values es)
  | .charClass parts inverted ignoreCase =>
    .charClass parts (.written inverted) (.written ignoreCase)
  | .group e => .group (fieldsWrittenAs_fieldValues e).writtenAs
  | .labeled none e => .labeled .null (fieldsWrittenAs_fieldValues e).writtenAs
  | .labeled (some label) e => .labeled (.written label) (fieldsWrittenAs_fieldValues e).writtenAs
  | .literal value ignoreCase => .literal value (.written ignoreCase)
  | .named name e => .named name (fieldsWrittenAs_fieldValues e).writtenAs
  | .oneOrMore e => .oneOrMore (fieldsWrittenAs_fieldValues e).writtenAs
  | .optional e => .optional (fieldsWrittenAs_fieldValues e).writtenAs
  | .ruleRef name => .ruleRef name
  | .semanticAnd code => .semanticAnd code
  | .semanticNot code => .semanticNot code
  | .sequence es => .sequence (allWrittenAs_values es)
  | .simpleAnd e => .simpleAnd (fieldsWrittenAs_fieldValues e).writtenAs
  | .simpleNot e => .simpleNot (fieldsWrittenAs_fieldValues e).writtenAs
  | .text e => .text (fieldsWrittenAs_fieldValues e).writtenAs
  | .zeroOrMore e => .zeroOrMore (fieldsWrittenAs_fieldValues e).writtenAs

/-- The values of expressions are a way to write them. -/
theorem allWrittenAs_values : (es : List Expr) → AllWrittenAs es (values es)
  | [] => .nil
  | e :: es => .cons (fieldsWrittenAs_fieldValues e).writtenAs (allWrittenAs_values es)

end

/-- The value of an expression is a way to write it. -/
theorem writtenAs_value (e : Expr) : e.WrittenAs e.value :=
  (fieldsWrittenAs_fieldValues e).writtenAs

/-- The fields of an expression are written under the names that its kind has. -/
theorem FieldsWrittenAs.keys {e : Expr} {fields : List (String × Value)}
    (h : FieldsWrittenAs e fields) :
    (fields.map Prod.fst).Sublist ((fieldsOf e.kind).map Field.key) := by
  cases h with
  | charClass parts h h' => cases h <;> cases h' <;> simp [fieldsOf, kind, Field.key]
  | labeled hlabel h => cases hlabel <;> simp [fieldsOf, kind, Field.key]
  | literal value h => cases h <;> simp [fieldsOf, kind, Field.key]
  | _ => exact List.Sublist.refl _

/-- A draft is filled by a member that is a field of the kind and not yet there, and then by the
others. -/
theorem foldlM_take_cons {kind : Expr.Kind} {key : String} {v : Value}
    {ms : List (String × Value)} {d d' : Draft} {f : Field} {change : Draft → Draft}
    (hfield : field? kind key = some f) (hhas : d.has f = false)
    (hfilling : Draft.filling f v = some change)
    (hrest : ms.foldlM (expressionForm kind).take (change d) = some d') :
    ((key, v) :: ms).foldlM (expressionForm kind).take d = some d' := by
  rw [List.foldlM_cons, Form.take_of_field?_eq_some (m := (key, v)) hfield]
  simpa [expressionForm, hhas, hfilling] using hrest

/-- The field for the expression beneath is filled by it. -/
theorem filling_expression {v : Value} {e : Expr} (h : Decode.exprOf v = .ok e) :
    Draft.filling .expression v = some fun d => { d with expression := some e } := by
  rw [Draft.filling, h]
  rfl

/-- The field for alternatives is filled by them. -/
theorem filling_alternatives {vs : List Value} {es : List Expr} (h : Decode.exprList vs = .ok es) :
    Draft.filling .alternatives (.array vs) = some fun d => { d with alternatives := some es } := by
  rw [Draft.filling, Decode.exprsOf, h]
  rfl

/-- The field for elements is filled by them. -/
theorem filling_elements {vs : List Value} {es : List Expr} (h : Decode.exprList vs = .ok es) :
    Draft.filling .elements (.array vs) = some fun d => { d with elements := some es } := by
  rw [Draft.filling, Decode.exprsOf, h]
  rfl

/-- An expression with no field but the expression beneath is filled by it. -/
theorem draft_of_part {kind : Expr.Kind} {v : Value} {e : Expr}
    (hkind : field? kind "expression" = some .expression) (h : Decode.exprOf v = .ok e) :
    [("expression", v)].foldlM (expressionForm kind).take {} = some { expression := some e } :=
  foldlM_take_cons hkind rfl (filling_expression h) rfl

/-- The parts of a class are read back. -/
theorem partsOf_map_value (parts : List ClassPart) :
    partsOf (.array (parts.map ClassPart.value)) = .ok parts := by
  have hmap : (parts.map ClassPart.value).mapM partOf = .ok parts := by
    induction parts with
    | nil => rfl
    | cons part parts ih =>
      rw [List.map_cons, List.mapM_cons, ih]
      cases part <;> rfl
  exact hmap

/-- The field for the parts of a class is filled by them. -/
theorem filling_parts (parts : List ClassPart) :
    Draft.filling .parts (.array (parts.map ClassPart.value)) =
      some fun d => { d with parts := some parts } := by
  rw [Draft.filling, partsOf_map_value]
  rfl

/-! ## Tags among members -/

/-- No kind of expression has a field for the tag. -/
theorem field?_tagKey (kind : Expr.Kind) : field? kind tagKey = none := by
  cases kind <;> rfl

/-- The tag with a kind's name names the kind. -/
theorem kindOf_tag (kind : Expr.Kind) : kindOf (.string kind.tag) = .ok kind := by
  cases kind <;> rfl

/-- The members of a node are its tag and, before and after it, members without the tag's name that
hold its fields. -/
theorem split_tag {reserved : List String} {tag : Value} {fields ms : List (String × Value)}
    (h : HasMembers (tagKey :: reserved) ((tagKey, tag) :: fields) ms)
    (hfields : ∀ m ∈ fields, m.1 ≠ tagKey) :
    ∃ before after, ms = before ++ (tagKey, tag) :: after ∧
      (∀ m ∈ before ++ after, m.1 ≠ tagKey) ∧
      HasMembers (tagKey :: reserved) fields (before ++ after) := by
  obtain ⟨others, hperm, hothers⟩ := h
  obtain ⟨before, after, rfl⟩ := List.append_of_mem (hperm.mem_iff.2 List.mem_cons_self)
  have hrest : (before ++ after).Perm (fields ++ others) :=
    (List.perm_middle.symm.trans hperm).cons_inv
  refine ⟨before, after, rfl, fun m hm => ?_, others, hrest, hothers⟩
  rcases List.mem_append.1 (hrest.mem_iff.1 hm) with hfield | hother
  · exact hfields m hfield
  · exact fun hname => hothers m hother (hname ▸ List.mem_cons_self)

/-- Members without a tag leave the kind that was named before them. -/
theorem kindOfMembers_some {kind : Expr.Kind} {ms : List (String × Value)}
    (h : ∀ m ∈ ms, m.1 ≠ tagKey) : kindOfMembers (some kind) ms = .ok kind := by
  induction ms with
  | nil => rfl
  | cons m ms ih =>
    rw [kindOfMembers, if_neg (h m List.mem_cons_self)]
    exact ih fun m' hm' => h m' (List.mem_cons_of_mem m hm')

/-- Members with one tag name its kind. -/
theorem kindOfMembers_none {kind : Expr.Kind} {tag : Value} {before after : List (String × Value)}
    (h : ∀ m ∈ before ++ after, m.1 ≠ tagKey) (hkind : innerKindOf tag = .ok kind) :
    kindOfMembers none (before ++ (tagKey, tag) :: after) = .ok kind := by
  induction before with
  | nil =>
    rw [List.nil_append, kindOfMembers, if_pos rfl, hkind]
    exact kindOfMembers_some h
  | cons m before ih =>
    rw [List.cons_append, kindOfMembers, if_neg (h m List.mem_cons_self)]
    exact ih fun m' hm' => h m' (List.mem_cons_of_mem m hm')

/-- Members without a tag are kept. -/
theorem taggedOf_some {kind : Expr.Kind} {ms : List (String × Value)}
    (h : ∀ m ∈ ms, m.1 ≠ tagKey) : taggedOf (some kind) ms = .ok (kind, ms) := by
  induction ms with
  | nil => rfl
  | cons m ms ih =>
    rw [taggedOf, if_neg (h m List.mem_cons_self),
      ih fun m' hm' => h m' (List.mem_cons_of_mem m hm')]
    rfl

/-- Of members with one tag the others are kept. -/
theorem taggedOf_none {kind : Expr.Kind} {tag : Value} {before after : List (String × Value)}
    (h : ∀ m ∈ before ++ after, m.1 ≠ tagKey) (hkind : kindOf tag = .ok kind) :
    taggedOf none (before ++ (tagKey, tag) :: after) = .ok (kind, before ++ after) := by
  induction before with
  | nil =>
    rw [List.nil_append, taggedOf, if_pos rfl, hkind]
    exact taggedOf_some h
  | cons m before ih =>
    rw [List.cons_append, taggedOf, if_neg (h m List.mem_cons_self),
      ih fun m' hm' => h m' (List.mem_cons_of_mem m hm')]
    rfl

/-! ## Expressions read back -/

/-- The tag is passed over when fields are filled. -/
theorem toOption_fillMembers_tag (kind : Expr.Kind) (before after : List (String × Value))
    (tag : Value) (d : Draft) :
    (fillMembers kind (before ++ (tagKey, tag) :: after) d).toOption =
      (fillMembers kind (before ++ after) d).toOption := by
  simp only [toOption_fillMembers, List.foldlM_append, List.foldlM_cons]
  refine congrArg _ (funext fun d' => ?_)
  rw [Form.take_of_field?_eq_none (m := (tagKey, tag)) (field?_tagKey kind) d']
  rfl

/-- A node whose fields make a draft is read back from its members, in another expression and
directly under a rule. -/
theorem FieldsWrittenAs.node {e : Expr} {fields ms : List (String × Value)} {d : Draft}
    (h : FieldsWrittenAs e fields)
    (hms : HasMembers (tagKey :: (fieldsOf e.kind).map Field.key)
      ((tagKey, .string e.kind.tag) :: fields) ms)
    (hd : fields.foldlM (expressionForm e.kind).take {} = some d)
    (hbuild : d.build e.kind = .ok e) :
    Decode.exprOf (.object ms) = .ok e ∧ Decoder.expression.ofValue (.object ms) = .ok e := by
  have hnames : ∀ m ∈ fields, m.1 ≠ tagKey := by
    intro m hm htag
    have hkey := h.keys.subset (List.mem_map_of_mem hm)
    obtain ⟨f, hf, hfkey⟩ := List.mem_map.1 hkey
    have hnone := List.find?_eq_none.1 (field?_tagKey e.kind) f hf
    exact hnone (by simpa using hfkey.trans htag)
  have hnodup : (fields.map Prod.fst).Nodup := by
    refine h.keys.nodup ?_
    cases e.kind <;> decide
  obtain ⟨before, after, rfl, htags, hrest⟩ := split_tag hms hnames
  have hfill : fillMembers e.kind (before ++ after) {} = .ok d := by
    rw [← Except.toOption_eq_some_iff,
      toOption_fillMembers_eq hrest hnodup (List.subset_cons_self _ _)]
    exact hd
  constructor
  · have hkind :
        kindOfMembers none (before ++ (tagKey, .string e.kind.tag) :: after) = .ok e.kind :=
      kindOfMembers_none htags (kindOf_tag e.kind)
    have hfill' :
        fillMembers e.kind (before ++ (tagKey, .string e.kind.tag) :: after) {} = .ok d := by
      rw [← Except.toOption_eq_some_iff, toOption_fillMembers_tag, hfill, Except.toOption_ok]
    rw [← Except.toOption_eq_some_iff]
    -- Inside another expression the tag is passed over among the fields.
    simp [Decode.exprOf, hkind, hfill', hbuild]
  · have hbody : bodyOf (.object (before ++ (tagKey, .string e.kind.tag) :: after)) =
        .ok (e.kind, .members (before ++ after)) := by
      rw [bodyOf, taggedOf_none htags (kindOf_tag e.kind)]
      rfl
    -- Directly under a rule the tag has been taken out of the members.
    have hexpr : exprOfBody e.kind (.members (before ++ after)) = .ok e := by
      rw [exprOfBody, hfill]
      exact hbuild
    rw [← Except.toOption_eq_some_iff]
    simp [Decoder.expression, hbody, hexpr]

mutual

/-- An expression inside another one is read back. -/
theorem WrittenAs.exprOf : ∀ {e : Expr} {v : Value}, WrittenAs e v → Decode.exprOf v = .ok e
  | _, _, .object hfields hms =>
    let ⟨_, hd, hbuild⟩ := hfields.draft
    (hfields.node hms hd hbuild).1

/-- Expressions in a list are read back. -/
theorem AllWrittenAs.exprList : ∀ {es : List Expr} {vs : List Value}, AllWrittenAs es vs →
    Decode.exprList vs = .ok es
  | _, _, .nil => by simp [Decode.exprList]
  | _, _, .cons h hs => by
    simp [Decode.exprList, h.exprOf, hs.exprList]
    rfl

/-- The fields of a node make a draft of the node. -/
theorem FieldsWrittenAs.draft : ∀ {e : Expr} {fields : List (String × Value)},
    FieldsWrittenAs e fields →
      ∃ d, fields.foldlM (expressionForm e.kind).take {} = some d ∧ d.build e.kind = .ok e
  | _, _, .action code h =>
    ⟨_, foldlM_take_cons (f := .code) rfl rfl rfl
      (foldlM_take_cons rfl rfl (filling_expression h.exprOf) rfl), rfl⟩
  | _, _, .any => ⟨{}, rfl, rfl⟩
  | _, _, .choice h => ⟨_, foldlM_take_cons rfl rfl (filling_alternatives h.exprList) rfl, rfl⟩
  | _, _, .charClass parts h h' => by
    cases h <;> cases h' <;> exact ⟨_, foldlM_take_cons rfl rfl (filling_parts parts) rfl, rfl⟩
  | _, _, .labeled hlabel h => by
    cases hlabel with
    | written label =>
      exact ⟨_, foldlM_take_cons (f := .label) rfl rfl rfl
        (foldlM_take_cons rfl rfl (filling_expression h.exprOf) rfl), rfl⟩
    | null =>
      exact ⟨_, foldlM_take_cons (f := .label) rfl rfl rfl
        (foldlM_take_cons rfl rfl (filling_expression h.exprOf) rfl), rfl⟩
    | leftOut => exact ⟨_, draft_of_part rfl h.exprOf, rfl⟩
  | _, _, .literal value h => by cases h <;> exact ⟨_, rfl, rfl⟩
  | _, _, .named name h =>
    ⟨_, foldlM_take_cons (f := .name) rfl rfl rfl
      (foldlM_take_cons rfl rfl (filling_expression h.exprOf) rfl), rfl⟩
  | _, _, .ruleRef name => ⟨_, rfl, rfl⟩
  | _, _, .semanticAnd code => ⟨_, rfl, rfl⟩
  | _, _, .semanticNot code => ⟨_, rfl, rfl⟩
  | _, _, .sequence h => ⟨_, foldlM_take_cons rfl rfl (filling_elements h.exprList) rfl, rfl⟩
  | _, _, .group h => ⟨_, draft_of_part rfl h.exprOf, rfl⟩
  | _, _, .oneOrMore h => ⟨_, draft_of_part rfl h.exprOf, rfl⟩
  | _, _, .optional h => ⟨_, draft_of_part rfl h.exprOf, rfl⟩
  | _, _, .simpleAnd h => ⟨_, draft_of_part rfl h.exprOf, rfl⟩
  | _, _, .simpleNot h => ⟨_, draft_of_part rfl h.exprOf, rfl⟩
  | _, _, .text h => ⟨_, draft_of_part rfl h.exprOf, rfl⟩
  | _, _, .zeroOrMore h => ⟨_, draft_of_part rfl h.exprOf, rfl⟩

end

/-- The expression of a rule is read back. -/
theorem WrittenAs.ofValue {e : Expr} {v : Value} (h : WrittenAs e v) :
    Decoder.expression.ofValue v = .ok e := by
  cases h with
  | object hfields hms =>
    obtain ⟨d, hd, hbuild⟩ := hfields.draft
    exact (hfields.node hms hd hbuild).2

end Expr

/-! ## Rules and grammars -/

/-- A value that a rule is written as. -/
inductive Rule.WrittenAs (rule : Rule) : Value → Prop
  | object {v : Value} {ms : List (String × Value)} (h : rule.expression.WrittenAs v)
    (hms : HasMembers ["name", "expression"] [("name", .string rule.name), ("expression", v)] ms) :
    rule.WrittenAs (.object ms)

/-- A value that a block of code is written as. -/
inductive BlockWrittenAs (code : String) : Value → Prop
  | object {ms : List (String × Value)} (hms : HasMembers ["code"] [("code", .string code)] ms) :
    BlockWrittenAs code (.object ms)

/-- A value that an initializer is written as: an object for a single block, and a list of objects
for several. -/
inductive Initializer.WrittenAs : Initializer → Value → Prop
  | one {code : String} {v : Value} (h : BlockWrittenAs code v) : WrittenAs (.one code) v
  | many {codes : List String} {vs : List Value} (h : List.Forall₂ BlockWrittenAs codes vs) :
    WrittenAs (.many codes) (.array vs)

/-- The member for an initializer, which can be left out when there is none. -/
inductive InitializerMember (key : String) : Option Initializer → List (String × Value) → Prop
  | written {i : Initializer} {v : Value} (h : i.WrittenAs v) :
    InitializerMember key (some i) [(key, v)]
  | null : InitializerMember key none [(key, .null)]
  | leftOut : InitializerMember key none []

/-- A value that a grammar is written as. -/
inductive Grammar.WrittenAs (g : Grammar) : Value → Prop
  | object {top each ms : List (String × Value)} {vs : List Value}
    (htop : InitializerMember "topLevelInitializer" g.topLevelInitializer top)
    (heach : InitializerMember "initializer" g.initializer each)
    (hrules : List.Forall₂ Rule.WrittenAs g.rules vs)
    (hms : HasMembers ["topLevelInitializer", "initializer", "rules"]
      (top ++ each ++ [("rules", .array vs)]) ms) :
    g.WrittenAs (.object ms)

/-- The value of a rule. -/
def Rule.value (rule : Rule) : Value :=
  .object [("name", .string rule.name), ("expression", rule.expression.value)]

/-- The value of a block of code. -/
def blockValue (code : String) : Value :=
  .object [("code", .string code)]

/-- The value of an initializer. -/
def Initializer.value : Initializer → Value
  | .one code => blockValue code
  | .many codes => .array (codes.map blockValue)

/-- The value of a grammar, with nothing left out or added. -/
def Grammar.value (g : Grammar) : Value :=
  .object
    [("topLevelInitializer", (g.topLevelInitializer.map Initializer.value).getD .null),
     ("initializer", (g.initializer.map Initializer.value).getD .null),
     ("rules", .array (g.rules.map Rule.value))]

/-- Things in a list are written one by one. -/
theorem forall₂_map_value {α : Type} {R : α → Value → Prop} {f : α → Value}
    (h : ∀ x, R x (f x)) (xs : List α) : List.Forall₂ R xs (xs.map f) :=
  List.forall₂_map_right_iff.2 (List.forall₂_same.2 fun x _ => h x)

/-- The value of an initializer is a way to write it. -/
theorem Initializer.writtenAs_value (i : Initializer) : i.WrittenAs i.value := by
  have hblock : ∀ code, BlockWrittenAs code (blockValue code) := fun _ => .object (.given _ _)
  cases i with
  | one code => exact .one (hblock code)
  | many codes => exact .many (forall₂_map_value hblock codes)

/-- The value of an initializer that may be absent is a way to write it. -/
theorem initializerMember_value (key : String) (i : Option Initializer) :
    InitializerMember key i [(key, (i.map Initializer.value).getD .null)] := by
  cases i with
  | none => exact .null
  | some i => exact .written i.writtenAs_value

/-- The value of a grammar is a way to write it. -/
theorem Grammar.writtenAs_value (g : Grammar) : g.WrittenAs g.value := by
  have hrule : ∀ rule : Rule, rule.WrittenAs rule.value :=
    fun rule => .object rule.expression.writtenAs_value (.given _ _)
  exact .object (initializerMember_value _ _) (initializerMember_value _ _)
    (forall₂_map_value hrule g.rules) (.given _ _)

/-- A record is read back from its members when the given ones make a draft of it. -/
theorem Record.ofValue_object {σ α : Type} {r : Record σ α} {given ms : List (String × Value)}
    {d : σ} {x : α}
    (hapart : ∀ f ∈ r.fields, ∀ g ∈ r.fields, f.key ≠ g.key → r.form.Apart f g)
    (h : HasMembers (r.fields.map RecordField.key) given ms) (hnodup : (given.map Prod.fst).Nodup)
    (hd : given.foldlM r.form.take r.start = some d) (hbuild : r.build d = .ok x) :
    r.decoder.ofValue (.object ms) = .ok x := by
  have hfields : r.fieldsOf ms r.start = .ok d := by
    rw [← Except.toOption_eq_some_iff, Record.toOption_fieldsOf_eq hapart h hnodup]
    exact hd
  rw [← Except.toOption_eq_some_iff]
  simp [Record.decoder, hfields, hbuild]

/-- A rule is read back. -/
theorem Rule.WrittenAs.ofValue {rule : Rule} {v : Value} (h : rule.WrittenAs v) :
    ruleRecord.decoder.ofValue v = .ok rule := by
  cases h with
  | @object v ms h hms =>
    refine Record.ofValue_object (d := ⟨some rule.name, some rule.expression⟩) ruleRecord_apart hms
      (by simp) ?_ rfl
    simp [Form.take, Record.form, Record.field?, ruleRecord, Decoder.map, Decoder.string, textOf,
      raise, h.ofValue]

/-- Rules in a list are read back. -/
theorem itemsOf_rules {rules : List Rule} {vs : List Value}
    (h : List.Forall₂ Rule.WrittenAs rules vs) (index : Nat) :
    Decoder.itemsOf ruleRecord.decoder.ofValue index vs = .ok rules := by
  induction h generalizing index with
  | nil => rfl
  | cons hrule _ ih =>
    rw [← Except.toOption_eq_some_iff]
    simp [Decoder.itemsOf, hrule.ofValue, ih]

/-- A block of code is read back. -/
theorem BlockWrittenAs.blockOf? {code : String} {v : Value} (h : BlockWrittenAs code v) :
    Decode.blockOf? v = some code := by
  obtain ⟨others, hperm, hothers⟩ := h
  have hfilter := hperm.filter fun m => m.1 == "code"
  have hothers : others.filter (fun m => m.1 == "code") = [] := by
    simpa [List.filter_eq_nil_iff] using hothers
  rw [List.filter_append, hothers] at hfilter
  rw [Decode.blockOf?, List.perm_singleton.1 hfilter]

/-- Blocks of code in a list are read back, and the list is no block itself. -/
theorem blockOf?_array {codes : List String} {vs : List Value}
    (h : List.Forall₂ BlockWrittenAs codes vs) :
    Decode.blockOf? (.array vs) = none ∧ vs.mapM Decode.blockOf? = some codes := by
  constructor
  · cases h with
    | nil => rfl
    | cons hblock htail =>
      obtain ⟨hms⟩ := hblock
      rfl
  · induction h with
    | nil => rfl
    | cons hblock _ ih => rw [List.mapM_cons, hblock.blockOf?, ih]; rfl

/-- An initializer is read back. -/
theorem Initializer.WrittenAs.initializerOf? {i : Initializer} {v : Value} (h : i.WrittenAs v) :
    Decode.initializerOf? v = .ok (some i) := by
  cases h with
  | one h =>
    have hblock := h.blockOf?
    obtain ⟨hms⟩ := h
    simp [Decode.initializerOf?, initializerOf, hblock, Except.map]
  | many h =>
    obtain ⟨hnone, hblocks⟩ := blockOf?_array h
    simp [Decode.initializerOf?, initializerOf, hnone, hblocks, Except.map]

/-- What the steps of a grammar's form are at an initializer and at the rules. -/
theorem grammarRecord_take (d : GrammarDraft) (v : Value) :
    (d.topLevelInitializer = none → grammarRecord.form.take d ("topLevelInitializer", v) =
      (Decode.initializerOf? v).toOption.map fun x => { d with topLevelInitializer := some x }) ∧
    (d.initializer = none → grammarRecord.form.take d ("initializer", v) =
      (Decode.initializerOf? v).toOption.map fun x => { d with initializer := some x }) ∧
    (d.rules = none → grammarRecord.form.take d ("rules", v) =
      ((Decoder.list ruleRecord.decoder).ofValue v).toOption.map fun x =>
        { d with rules := some x }) := by
  refine ⟨fun h => ?_, fun h => ?_, fun h => ?_⟩ <;>
    simp [Form.take, Record.form, Record.field?, grammarRecord, Decoder.map, Decoder.buffered, h]

/-- The initializers are read back or left absent. -/
theorem foldlM_initializers {top each : List (String × Value)} {i j : Option Initializer}
    (htop : InitializerMember "topLevelInitializer" i top)
    (heach : InitializerMember "initializer" j each) :
    ∃ x y, (top ++ each).foldlM grammarRecord.form.take {} =
        some { topLevelInitializer := x, initializer := y } ∧
      x.getD none = i ∧ y.getD none = j := by
  have htop : ∃ x, top.foldlM grammarRecord.form.take {} = some { topLevelInitializer := x } ∧
      x.getD none = i := by
    cases htop with
    | written h =>
      refine ⟨some _, ?_, rfl⟩
      simp [(grammarRecord_take {} _).1 rfl, h.initializerOf?]
    | null => exact ⟨some none, rfl, rfl⟩
    | leftOut => exact ⟨none, rfl, rfl⟩
  obtain ⟨x, hx, hi⟩ := htop
  have heach : ∃ y, each.foldlM grammarRecord.form.take { topLevelInitializer := x } =
      some { topLevelInitializer := x, initializer := y } ∧ y.getD none = j := by
    cases heach with
    | written h =>
      refine ⟨some _, ?_, rfl⟩
      simp [(grammarRecord_take { topLevelInitializer := x } _).2.1 rfl, h.initializerOf?]
    | null => exact ⟨some none, rfl, rfl⟩
    | leftOut => exact ⟨none, rfl, rfl⟩
  obtain ⟨y, hy, hj⟩ := heach
  refine ⟨x, y, ?_, hi, hj⟩
  rw [List.foldlM_append, hx]
  exact hy

/-- The member for an initializer has its name, if there is one. -/
theorem InitializerMember.keys {key : String} {i : Option Initializer}
    {ms : List (String × Value)} (h : InitializerMember key i ms) :
    (ms.map Prod.fst).Sublist [key] := by
  cases h <;> simp

/-- Every grammar is written as a value, and decoding reads it back from every value that it is
written as: with the members of its objects in any order, and with any members among them that are
no fields. -/
theorem Grammar.ofValue_of_writtenAs (g : Grammar) :
    g.WrittenAs g.value ∧ ∀ v, g.WrittenAs v → Grammar.ofValue v = .ok g := by
  refine ⟨g.writtenAs_value, fun v h => ?_⟩
  obtain @⟨top, each, ms, vs, htop, heach, hrules, hms⟩ := h
  obtain ⟨x, y, hinitializers, hx, hy⟩ := foldlM_initializers htop heach
  have hnodup : ((top ++ each ++ [("rules", Value.array vs)]).map Prod.fst).Nodup := by
    rw [List.map_append, List.map_append]
    exact ((htop.keys.append heach.keys).append (.refl ["rules"])).nodup (by decide)
  -- The initializers make their part of the draft first, and then the rules theirs.
  have hdraft : (top ++ each ++ [("rules", Value.array vs)]).foldlM grammarRecord.form.take {} =
      some ⟨x, y, some g.rules⟩ := by
    have hlist : (Decoder.list ruleRecord.decoder).ofValue (.array vs) = .ok g.rules :=
      itemsOf_rules hrules 0
    rw [List.foldlM_append, hinitializers]
    simp [(grammarRecord_take ⟨x, y, none⟩ _).2.2 rfl, hlist]
  have hbuild : grammarRecord.build ⟨x, y, some g.rules⟩ = .ok g := by
    show Except.ok (⟨x.getD none, y.getD none, g.rules⟩ : Grammar) = .ok g
    rw [hx, hy]
  rw [Grammar.ofValue, Decoder.runValue,
    Record.ofValue_object grammarRecord_apart hms hnodup hdraft hbuild]
  rfl

/-- A grammar with a rule that has a class in an action. -/
def Grammar.digits : Grammar :=
  ⟨some (.many ["let x;"]), none,
    [⟨"A", .action "return 1;" (.charClass [.char "x", .range "0" "9"] false false)⟩]⟩

/-- The grammar written with each object's members from the last to the first, and among them
members that are no fields. -/
def Grammar.digitsValue : Value :=
  .object
    [("location", .object []),
     ("rules", .array [.object
       [("type", .string "rule"),
        ("expression", .object
          [("name", .array []),
           ("expression", .object
             [("location", .null), ("ignoreCase", .bool false),
              ("parts", .array [.string "x", .array [.string "0", .string "9"]]),
              ("type", .string "class")]),
           ("code", .string "return 1;"), ("type", .string "action")]),
        ("name", .string "A")]]),
     ("initializer", .null),
     ("topLevelInitializer", .array [.object [("code", .string "let x;")]])]

theorem Grammar.ofValue_of_writtenAs_digits :
    Grammar.digits.WrittenAs Grammar.digitsValue ∧
      Grammar.ofValue Grammar.digitsValue = .ok Grammar.digits := by
  have hreverse : ∀ {reserved : List String} {given : List (String × Value)} (others),
      (∀ m ∈ others, m.1 ∉ reserved) → HasMembers reserved given (given ++ others).reverse :=
    fun others h => ⟨others, List.reverse_perm _, h⟩
  have hclass : Expr.WrittenAs (.charClass [.char "x", .range "0" "9"] false false) _ :=
    .object (.charClass _ .leftOut (.written false))
      (hreverse [("location", .null)] (by decide))
  have haction : Expr.WrittenAs (.action "return 1;" _) _ :=
    .object (.action "return 1;" hclass) (hreverse [("name", .array [])] (by decide))
  have hrule : Rule.WrittenAs ⟨"A", _⟩ _ :=
    .object haction (hreverse [("type", .string "rule")] (by decide))
  have hblock : BlockWrittenAs "let x;" (.object [("code", .string "let x;")]) :=
    .object ⟨[], .refl _, by decide⟩
  have hgrammar : Grammar.digits.WrittenAs Grammar.digitsValue :=
    .object (.written (.many (.cons hblock .nil))) .null (.cons hrule .nil)
      (hreverse [("location", .object [])] (by decide))
  exact ⟨hgrammar, (Grammar.ofValue_of_writtenAs Grammar.digits).2 _ hgrammar⟩

end GrammarTypes
