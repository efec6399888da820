import GrammarTypes.Proofs.Decode.Agreement.Failure
import GrammarTypes.Proofs.Decode.Parts

/-!
# Unknown kinds of expression

A tag that names no kind is never passed over. Where the tag of any node of a syntax tree is
exchanged for one, the tree is refused, with the tag in the message and the rule in the path
(`Grammar.unknown_kind_located`). An expression inside another one is decoded from memory and fails
without a path of its own, so the path ends at the expression of the rule.
-/

namespace GrammarTypes

open Decode
open Json (Value)

/-! ## Nodes -/

/-- A part of an expression, with the field that holds it and the way to it from there. -/
inductive Expr.PartAt (e : Expr) : Field → List Segment → Expr → Prop
  /-- The only expression beneath. -/
  | single {part : Expr} (hpart : e.single? = some part) : PartAt e .expression [] part
  /-- An alternative or an element. -/
  | listed {f : Field} {parts : List Expr} {part : Expr} {i : Nat}
    (hparts : e.several? = some (f, parts)) (hpart : parts[i]? = some part) :
    PartAt e f [.index i] part

/-- The way from an expression to itself or to one beneath it, at any depth, also inside a text or a
lookahead. -/
inductive Expr.NodeAt : Expr → List Segment → Prop
  /-- The expression itself. -/
  | here (e : Expr) : NodeAt e []
  /-- A node of a part. -/
  | beneath {e part : Expr} {f : Field} {steps address : List Segment}
    (hpart : e.PartAt f steps part) (node : NodeAt part address) :
    NodeAt e (.key f.key :: (steps ++ address))

/-- A value and the one it becomes when what is at a path is exchanged for another value. -/
inductive Json.Value.ReplacedAt (new : Value) : List Segment → Value → Value → Prop
  /-- The value itself is exchanged. -/
  | here (v : Value) : ReplacedAt new [] v new
  /-- Something in a member of an object is exchanged. -/
  | member {path : List Segment} {v v' : Value} (before after : List (String × Value))
    (name : String) (h : ReplacedAt new path v v') :
    ReplacedAt new (.key name :: path) (.object (before ++ (name, v) :: after))
      (.object (before ++ (name, v') :: after))
  /-- Something in an item of an array is exchanged. -/
  | item {path : List Segment} {v v' : Value} (before after : List Value)
    (h : ReplacedAt new path v v') :
    ReplacedAt new (.index before.length :: path) (.array (before ++ v :: after))
      (.array (before ++ v' :: after))

/-! ## Tags -/

section Tags

variable {k : String} {before after : List (String × Value)} {v : Value}

/-- A text that is no tag names no kind. -/
theorem kindOf_unknown (hk : ∀ kind : Expr.Kind, kind.tag ≠ k) :
    kindOf (.string k) = .error (.unknownKind k) := by
  have hnone : Expr.Kind.ofTag? k = none := by
    simp [Expr.Kind.ofTag?, List.find?_eq_none, hk]
  rw [kindOf, kindOfText, hnone]

/-- The kind of an object does not depend on members that hold no tag. -/
theorem kindOfMembers_congr {key : String} (hkey : key ≠ tagKey) (v v' : Value)
    (seen : Option Expr.Kind) :
    kindOfMembers seen (before ++ (key, v) :: after) =
      kindOfMembers seen (before ++ (key, v') :: after) := by
  induction before generalizing seen with
  | nil => simp [kindOfMembers, hkey]
  | cons m before ih =>
    simp only [List.cons_append, kindOfMembers, ih]

/-- An object with a kind has none any more when its tag is exchanged for an unknown one. -/
theorem kindOfMembers_unknown (hk : ∀ kind : Expr.Kind, kind.tag ≠ k) {seen : Option Expr.Kind}
    {kind : Expr.Kind} (h : kindOfMembers seen (before ++ (tagKey, v) :: after) = .ok kind) :
    seen = none ∧
      kindOfMembers seen (before ++ (tagKey, .string k) :: after) = .error (.unknownKind k) := by
  induction before generalizing seen with
  | nil =>
    simp only [List.nil_append, kindOfMembers, if_pos] at h ⊢
    cases seen with
    | some kind => cases h
    | none => exact ⟨rfl, Except.bind_eq_error_iff.2 (.inl (kindOf_unknown hk))⟩
  | cons m before ih =>
    obtain ⟨key, w⟩ := m
    simp only [List.cons_append, kindOfMembers] at h ⊢
    split at h
    · -- A tag before this one leaves no room for it.
      cases seen with
      | some kind => cases h
      | none =>
        obtain ⟨kind', -, h⟩ := Except.bind_eq_ok_iff.1 h
        exact absurd (ih h).1 (by simp)
    · rw [if_neg ‹_›]
      exact ih h

/-- The other members of an object directly under a rule are handed on as they are. -/
theorem taggedOf_member {key : String} (hkey : key ≠ tagKey) {seen : Option Expr.Kind}
    {kind : Expr.Kind} {ms : List (String × Value)}
    (h : taggedOf seen (before ++ (key, v) :: after) = .ok (kind, ms)) :
    ∃ before' after', ms = before' ++ (key, v) :: after' ∧
      ∀ v', taggedOf seen (before ++ (key, v') :: after) =
        .ok (kind, before' ++ (key, v') :: after') := by
  induction before generalizing seen ms with
  | nil =>
    rw [List.nil_append, taggedOf, if_neg hkey] at h
    obtain ⟨⟨kind', ms'⟩, htagged, h⟩ := Except.bind_eq_ok_iff.1 h
    cases h
    refine ⟨[], ms', rfl, fun v' => ?_⟩
    rw [List.nil_append, taggedOf, if_neg hkey, htagged]
    rfl
  | cons m before ih =>
    obtain ⟨key', w⟩ := m
    rw [List.cons_append, taggedOf] at h
    split at h
    · split at h
      · cases h
      · obtain ⟨kind', hkind, h⟩ := Except.bind_eq_ok_iff.1 h
        obtain ⟨before', after', hms, htagged⟩ := ih h
        refine ⟨before', after', hms, fun v' => ?_⟩
        rw [List.cons_append, taggedOf, if_pos ‹_›, if_neg ‹_›, hkind]
        exact htagged v'
    · obtain ⟨⟨kind', ms'⟩, htagged, h⟩ := Except.bind_eq_ok_iff.1 h
      cases h
      obtain ⟨before', after', rfl, hothers⟩ := ih htagged
      refine ⟨(key', w) :: before', after', rfl, fun v' => ?_⟩
      rw [List.cons_append, taggedOf, if_neg ‹_›, hothers v']
      rfl

/-- An object directly under a rule is refused at its tag when that is exchanged for an unknown
one. -/
theorem taggedOf_unknown (hk : ∀ kind : Expr.Kind, kind.tag ≠ k) {seen : Option Expr.Kind}
    {tagged : Expr.Kind × List (String × Value)}
    (h : taggedOf seen (before ++ (tagKey, v) :: after) = .ok tagged) :
    seen = none ∧ taggedOf seen (before ++ (tagKey, .string k) :: after) =
      .error { cause := .unknownKind k, path := [.key tagKey] } := by
  induction before generalizing seen tagged with
  | nil =>
    rw [List.nil_append, taggedOf, if_pos rfl] at h ⊢
    cases seen with
    | some kind => cases h
    | none =>
      refine ⟨rfl, Except.bind_eq_error_iff.2 (.inl ?_)⟩
      rw [kindOf_unknown hk]
      rfl
  | cons m before ih =>
    obtain ⟨key, w⟩ := m
    rw [List.cons_append, taggedOf] at h ⊢
    split at h
    · split at h
      · cases h
      · obtain ⟨kind', -, h⟩ := Except.bind_eq_ok_iff.1 h
        exact absurd (ih h).1 (by simp)
    · obtain ⟨tagged', h, -⟩ := Except.bind_eq_ok_iff.1 h
      obtain ⟨hseen, hfails⟩ := ih h
      refine ⟨hseen, ?_⟩
      rw [if_neg ‹_›, hfails]
      rfl

end Tags

/-! ## Expressions -/

section Expressions

variable {k : String} {e : Expr} {address : List Segment} {v v' : Value}

theorem Decode.Field.key_ne_tagKey (f : Field) : f.key ≠ tagKey := by
  cases f <;> decide

theorem exprOf_object (ms : List (String × Value)) :
    exprOf (.object ms) = kindOfMembers none ms >>= fun kind => exprOfBody kind (.members ms) := by
  rw [exprOf]
  rfl

/-- A part of an expression is decoded from a value inside the member of its field, and another
value that fails there fails the expression. -/
theorem exprOfBody_part {new : Value} {kind : Expr.Kind} {f : Field} {steps : List Segment}
    {part : Expr} {before after : List (String × Value)} (hpart : e.PartAt f steps part)
    (h : exprOfBody kind (.members (before ++ (f.key, v) :: after)) = .ok e)
    (replaced : Value.ReplacedAt new (steps ++ address) v v') :
    ∃ u u', exprOf u = .ok part ∧ Value.ReplacedAt new address u u' ∧
      ∀ c, exprOf u' = .error c →
        exprOfBody kind (.members (before ++ (f.key, v') :: after)) = .error c := by
  cases hpart with
  | single hpart =>
    obtain ⟨hdecoded, hfails⟩ := exprOfBody_single h hpart
    exact ⟨v, v', hdecoded, replaced, hfails v'⟩
  | listed hparts hpart =>
    cases replaced with
    | item vs us replaced =>
      obtain ⟨hdecoded, hfails⟩ := exprOfBody_several h hparts
      rw [exprsOf] at hdecoded
      obtain ⟨hitem, hfailing⟩ := exprList_item hdecoded hpart
      refine ⟨_, _, hitem, replaced, fun c hc => hfails _ c ?_⟩
      rw [exprsOf]
      exact hfailing _ c hc

/-- An expression inside another one is refused when the tag of one of its nodes is exchanged for an
unknown one. -/
theorem exprOf_unknown (hk : ∀ kind : Expr.Kind, kind.tag ≠ k) (node : e.NodeAt address)
    (h : exprOf v = .ok e)
    (replaced : Value.ReplacedAt (.string k) (address ++ [.key tagKey]) v v') :
    exprOf v' = .error (.unknownKind k) := by
  -- The way to the node is followed in the tree and in the value at once.
  induction node generalizing v v' with
  | here e =>
    cases replaced with
    | member before after _ replaced =>
      cases replaced
      rw [exprOf_object] at h ⊢
      obtain ⟨kind, hkind, -⟩ := Except.bind_eq_ok_iff.1 h
      exact Except.bind_eq_error_iff.2 (.inl (kindOfMembers_unknown hk hkind).2)
  | @beneath e part f steps address hpart node ih =>
    rw [List.cons_append, List.append_assoc] at replaced
    cases replaced with
    | member before after _ replaced =>
      rw [exprOf_object] at h ⊢
      obtain ⟨kind, hkind, hbody⟩ := Except.bind_eq_ok_iff.1 h
      obtain ⟨u, u', hdecoded, hreplaced, hfails⟩ := exprOfBody_part hpart hbody replaced
      refine Except.bind_eq_error_iff.2 (.inr ⟨kind, ?_, hfails _ (ih hdecoded hreplaced)⟩)
      rw [← hkind]
      exact kindOfMembers_congr f.key_ne_tagKey _ _ none

/-- The expression of a rule is refused as well: at its own tag, or else without a path. -/
theorem expression_unknown (hk : ∀ kind : Expr.Kind, kind.tag ≠ k) (node : e.NodeAt address)
    (h : Decoder.expression.ofValue v = .ok e)
    (replaced : Value.ReplacedAt (.string k) (address ++ [.key tagKey]) v v') :
    ∃ path, Decoder.expression.ofValue v' = .error { cause := .unknownKind k, path := path } := by
  obtain ⟨⟨kind, body⟩, hbody, h⟩ := Except.bind_eq_ok_iff.1 h
  have h := Except.mapError_eq_ok_iff.1 h
  cases node with
  | here e =>
    cases replaced with
    | member before after _ replaced =>
      cases replaced
      obtain ⟨tagged, htagged, -⟩ := Except.bind_eq_ok_iff.1 hbody
      refine ⟨[.key tagKey], Except.bind_eq_error_iff.2 (.inl ?_)⟩
      exact Except.bind_eq_error_iff.2 (.inl (taggedOf_unknown hk htagged).2)
  | @beneath _ part f steps address hpart node =>
    rw [List.cons_append, List.append_assoc] at replaced
    cases replaced with
    | member before after _ replaced =>
      obtain ⟨⟨kind', ms⟩, htagged, hpure⟩ := Except.bind_eq_ok_iff.1 hbody
      cases hpure
      -- The tag is taken out first; the member that leads to the node is among the others.
      obtain ⟨before', after', rfl, hothers⟩ := taggedOf_member f.key_ne_tagKey htagged
      obtain ⟨u, u', hdecoded, hreplaced, hfails⟩ := exprOfBody_part hpart h replaced
      have hfails := hfails _ (exprOf_unknown hk node hdecoded hreplaced)
      refine ⟨[], Except.bind_eq_error_iff.2 (.inr ⟨(kind, .members _), ?_,
        Except.mapError_eq_error_iff.2 ⟨_, hfails, rfl⟩⟩)⟩
      exact Except.bind_eq_ok_iff.2 ⟨_, hothers _, rfl⟩

end Expressions

/-! ## Grammars -/

section Grammars

variable {k : String} {address : List Segment} {v v' : Value} {g : Grammar} {rule : Rule} {i : Nat}

/-- A grammar is refused, at the expression of the rule, when the tag of one of its nodes is
exchanged for an unknown one. -/
theorem grammarRecord_unknown (hk : ∀ kind : Expr.Kind, kind.tag ≠ k)
    (node : rule.expression.NodeAt address) (hrule : g.rules[i]? = some rule)
    (h : grammarRecord.decoder.ofValue v = .ok g)
    (replaced : Value.ReplacedAt (.string k)
      (.key "rules" :: .index i :: .key "expression" :: (address ++ [.key tagKey])) v v') :
    ∃ path, grammarRecord.decoder.ofValue v' = .error
      { cause := .unknownKind k,
        path := .key "rules" :: .index i :: .key "expression" :: path } := by
  cases replaced with
  | member before after _ replaced =>
    obtain ⟨hrules, hfails⟩ := grammarRecord_rules h
    cases replaced with
    | item vs us replaced =>
      obtain ⟨hitem, hitemFails⟩ := Decoder.list_item hrules hrule
      cases replaced with
      | member before after _ replaced =>
        obtain ⟨hexpression, hruleFails⟩ := ruleRecord_expression hitem
        obtain ⟨path, hpath⟩ := expression_unknown hk node hexpression replaced
        exact ⟨path, hfails _ _ (hitemFails _ _ (hruleFails _ _ hpath))⟩

/-- An error that is about an unknown kind in the expression of a rule. -/
structure DecodeError.NamesKind (e : DecodeError) (i : Nat) (tag : String) : Prop where
  /-- The path begins with that of the expression. -/
  path : ∃ rest, e.path = "rules[" ++ toString i ++ "].expression" ++ rest
  /-- The message is about the tag. -/
  detail : ∃ rest, e.detail = "unknown variant `" ++ tag ++ "`" ++ rest

theorem Decode.pathText_expression (i : Nat) (path : List Segment) :
    pathText (.key "rules" :: .index i :: .key "expression" :: path) =
      "rules[" ++ toString i ++ "].expression" ++ pathTail false path := by
  have hrules : "rules[" = "rules" ++ "[" := by decide
  have hexpression : "].expression" = "]" ++ ("." ++ "expression") := by decide
  simp only [pathText, pathTail, hrules, hexpression, String.append_assoc, List.isEmpty_cons,
    if_true, if_false, String.empty_append, Bool.false_eq_true]

theorem Decode.Cause.message_unknownKind (tag : String) :
    (Cause.unknownKind tag).message = "unknown variant `" ++ tag ++ "`, expected one of " ++
      ", ".intercalate (Expr.Kind.all.map fun k => "`" ++ k.tag ++ "`") :=
  rfl

theorem Decode.Failure.report_namesKind (source : List Char) (place : Place)
    (path : List Segment) (i : Nat) (tag : String) :
    (Failure.report source
      { cause := .unknownKind tag,
        path := .key "rules" :: .index i :: .key "expression" :: path,
        place := place }).NamesKind i tag where
  path := ⟨pathTail false path, pathText_expression i path⟩
  detail := by
    refine ⟨", expected one of " ++ (", ".intercalate
      (Expr.Kind.all.map fun k => "`" ++ k.tag ++ "`") ++ place.message source), ?_⟩
    have hquote : "`, expected one of " = "`" ++ ", expected one of " := by decide
    simp only [Failure.report, Failure.message, Cause.message_unknownKind, hquote,
      String.append_assoc]

/-- Where the tag of a node of a decoded grammar is exchanged for one that is unknown, the value and
each text that denotes it are refused, with the rule in the path and the tag in the message. -/
theorem Grammar.unknown_kind_located (hk : ∀ kind : Expr.Kind, kind.tag ≠ k)
    (h : Grammar.ofValue v = .ok g) (hrule : g.rules[i]? = some rule)
    (node : rule.expression.NodeAt address)
    (replaced : Value.ReplacedAt (.string k)
      ([.key "rules", .index i, .key "expression"] ++ address ++ [.key "type"]) v v') :
    (∃ e, Grammar.ofValue v' = .error e ∧ e.NamesKind i k) ∧
      ∀ source, Json.Denotes source v' → v'.depth ≤ 127 →
        ∃ e, Grammar.ofText source = .error e ∧ e.NamesKind i k := by
  obtain ⟨path, hfails⟩ :=
    grammarRecord_unknown hk node hrule (Except.mapError_eq_ok_iff.1 h) replaced
  constructor
  · exact ⟨_, Except.mapError_eq_error_iff.2 ⟨_, hfails, rfl⟩,
      Failure.report_namesKind [] .nowhere path i k⟩
  · intro source hsource hdepth
    obtain ⟨place, hread⟩ :=
      grammarRecord_failsAlike.runText hsource hdepth hfails (fun _ => nofun)
    exact ⟨_, hread, Failure.report_namesKind source.toList place path i k⟩

/-- A grammar of one rule, with a node that is an alternative beneath `text`. -/
def Grammar.nestedValue (tag : String) : Value :=
  .object [("rules", .array [.object [("name", .string "r"), ("expression",
    .object [("type", .string "text"), ("expression",
      .object [("type", .string "choice"), ("alternatives",
        .array [.object [("type", .string tag)]])])])]])]

/-- A text of the grammar, in which the node has an unknown kind. -/
def Grammar.nestedSource : String :=
  "\x7b\"rules\":[\x7b\"name\":\"r\",\"expression\":\x7b\"type\":\"text\",\"expression\":" ++
    "\x7b\"type\":\"choice\",\"alternatives\":[\x7b\"type\":\"bogus\"\x7d]\x7d\x7d\x7d]\x7d"

/-- The document that the text is. -/
def Grammar.nestedDocument : Json.Document :=
  .object [(.none, .plain "rules", .array [(.none, .object [
    (.none, .plain "name", .string (.plain "r")),
    (.none, .plain "expression", .object [
      (.none, .plain "type", .string (.plain "text")),
      (.none, .plain "expression", .object [
        (.none, .plain "type", .string (.plain "choice")),
        (.none, .plain "alternatives", .array [(.none, .object [
          (.none, .plain "type", .string (.plain "bogus"))] .none)] .none)] .none)] .none)]
    .none)] .none)] .none

/-- The node is deep in the expression, and both ways of decoding refuse it. -/
theorem Grammar.unknown_kind_located_beneath_text :
    Grammar.ofValue (nestedValue "any") = .ok ⟨none, none, [⟨"r", .text (.choice [.any])⟩]⟩ ∧
      (∃ e, Grammar.ofValue (nestedValue "bogus") = .error e ∧ e.NamesKind 0 "bogus") ∧
      ∃ e, Grammar.ofText nestedSource = .error e ∧ e.NamesKind 0 "bogus" := by
  have hdecoded : Grammar.ofValue (nestedValue "any") =
      .ok ⟨none, none, [⟨"r", .text (.choice [.any])⟩]⟩ := rfl
  have hk : ∀ kind : Expr.Kind, kind.tag ≠ "bogus" := by
    intro kind
    cases kind <;> decide
  have node : (Expr.text (.choice [.any])).NodeAt
      [.key "expression", .key "alternatives", .index 0] :=
    .beneath (.single rfl) (.beneath (.listed (f := .alternatives) rfl rfl) (.here _))
  have replaced : Value.ReplacedAt (.string "bogus")
      [.key "rules", .index 0, .key "expression", .key "expression", .key "alternatives", .index 0,
        .key "type"] (nestedValue "any") (nestedValue "bogus") :=
    .member [] [] _ (.item [] [] (.member [_] [] _ (.member [_] [] _ (.member [_] [] _
      (.item [] [] (.member [] [] _ (.here _)))))))
  have hdenotes : Json.Denotes nestedSource (nestedValue "bogus") :=
    ⟨.none, nestedDocument, .none, by decide +kernel, rfl⟩
  obtain ⟨hvalue, htext⟩ := Grammar.unknown_kind_located (i := 0) hk hdecoded rfl node replaced
  exact ⟨hdecoded, hvalue, htext _ hdenotes (by decide)⟩

end Grammars

end GrammarTypes
