import GrammarTypes.Proofs.Decode.Members

/-!
# Parts of a value

A value that is decoded has decoded parts: one member of an object, one item of an array. What was
decoded from the part is found in what was decoded from the whole, since no later member can fill a
field again; and if the part is exchanged for one that fails, the whole fails in the same way, one
step further out. This module has both facts for lists, for records and for expressions.
-/

namespace GrammarTypes

open Decode
open Json (Value)

namespace Decode

/-! ## Forms -/

namespace Form

variable {F D β : Type} {form : Form F D} {d d' : D} {f : F}

/-- A draft that is filled from members has been filled from each that is a field. -/
theorem foldlM_member {before after : List (String × Value)} {key : String} {v : Value}
    (hfield : form.field? key = some f)
    (h : (before ++ (key, v) :: after).foldlM form.take d = some d') :
    ∃ d₁ d₂, before.foldlM form.take d = some d₁ ∧ form.has d₁ f = false ∧
      form.fill d₁ f v = some d₂ ∧ after.foldlM form.take d₂ = some d' := by
  rw [List.foldlM_append] at h
  obtain ⟨d₁, hbefore, h⟩ := Option.bind_eq_some_iff.1 h
  rw [List.foldlM_cons] at h
  obtain ⟨d₂, htake, hafter⟩ := Option.bind_eq_some_iff.1 h
  rw [take_of_field?_eq_some (m := (key, v)) hfield] at htake
  split at htake
  · cases htake
  · exact ⟨d₁, d₂, hbefore, Bool.eq_false_iff.2 ‹_›, htake, hafter⟩

/-- What a draft shows stays as it is if no field that is not there yet changes it. -/
theorem foldlM_keeps (view : D → Option β)
    (keeps : ∀ key g v d d' x, form.field? key = some g → form.has d g = false →
      form.fill d g v = some d' → view d = some x → view d' = some x)
    {ms : List (String × Value)} (h : ms.foldlM form.take d = some d') {x : β}
    (hview : view d = some x) : view d' = some x := by
  induction ms generalizing d with
  | nil =>
    cases h
    exact hview
  | cons m ms ih =>
    rw [List.foldlM_cons] at h
    obtain ⟨d₁, htake, hrest⟩ := Option.bind_eq_some_iff.1 h
    refine ih hrest ?_
    cases hfield : form.field? m.1 with
    | none =>
      rw [take_of_field?_eq_none hfield] at htake
      cases htake
      exact hview
    | some g =>
      rw [take_of_field?_eq_some hfield] at htake
      split at htake
      · cases htake
      · exact keeps m.1 g m.2 d d₁ x hfield (Bool.eq_false_iff.2 ‹_›) htake hview

end Form

/-! ## Lists -/

/-- An item of a list that is decoded item by item is decoded as the item at its place, and another
one that fails there fails the list. -/
theorem item_of_items {ε α : Type} (decode : Nat → Value → Except ε α)
    (items : Nat → List Value → Except ε (List α))
    (hcons : ∀ i v vs, items i (v :: vs) = do
      let x ← decode i v
      let xs ← items (i + 1) vs
      return x :: xs)
    {i : Nat} {before after : List Value} {v : Value} {xs : List α} {x : α}
    (h : items i (before ++ v :: after) = .ok xs) (hx : xs[before.length]? = some x) :
    decode (i + before.length) v = .ok x ∧
      ∀ v' e, decode (i + before.length) v' = .error e →
        items i (before ++ v' :: after) = .error e := by
  induction before generalizing i xs with
  | nil =>
    rw [List.nil_append, hcons] at h
    obtain ⟨y, hy, h⟩ := Except.bind_eq_ok_iff.1 h
    obtain ⟨ys, -, h⟩ := Except.bind_eq_ok_iff.1 h
    cases h
    cases hx
    refine ⟨hy, fun v' e he => ?_⟩
    rw [List.nil_append, hcons]
    exact Except.bind_eq_error_iff.2 (.inl he)
  | cons u before ih =>
    rw [List.cons_append, hcons] at h
    obtain ⟨y, hy, h⟩ := Except.bind_eq_ok_iff.1 h
    obtain ⟨ys, hys, h⟩ := Except.bind_eq_ok_iff.1 h
    cases h
    obtain ⟨decoded, fails⟩ := ih hys (by simpa using hx)
    have hplace : i + (u :: before).length = i + 1 + before.length := by
      rw [List.length_cons]
      omega
    rw [hplace]
    refine ⟨decoded, fun v' e he => ?_⟩
    rw [List.cons_append, hcons]
    exact Except.bind_eq_error_iff.2
      (.inr ⟨y, hy, Except.bind_eq_error_iff.2 (.inl (fails v' e he))⟩)

theorem Decoder.list_item {α : Type} {d : Decoder α} {before after : List Value} {v : Value}
    {xs : List α} {x : α} (h : (Decoder.list d).ofValue (.array (before ++ v :: after)) = .ok xs)
    (hx : xs[before.length]? = some x) :
    d.ofValue v = .ok x ∧ ∀ v' f, d.ofValue v' = .error f →
      (Decoder.list d).ofValue (.array (before ++ v' :: after)) =
        .error (f.inside (.index before.length)) := by
  obtain ⟨decoded, fails⟩ := item_of_items (fun i v => within (.index i) (d.ofValue v))
    (itemsOf d.ofValue) (fun _ _ _ => rfl) h hx
  rw [Nat.zero_add] at decoded fails
  exact ⟨Except.mapError_eq_ok_iff.1 decoded,
    fun v' f hf => fails v' _ (Except.mapError_eq_error_iff.2 ⟨f, hf, rfl⟩)⟩

theorem exprList_item {before after : List Value} {v : Value} {es : List Expr} {e : Expr}
    (h : exprList (before ++ v :: after) = .ok es) (he : es[before.length]? = some e) :
    exprOf v = .ok e ∧ ∀ v' c, exprOf v' = .error c →
      exprList (before ++ v' :: after) = .error c :=
  item_of_items (fun _ => exprOf) (fun _ => exprList) (i := 0) (fun _ _ _ => by rw [exprList]) h he

/-! ## Records -/

namespace Record

variable {σ α : Type} {r : Record σ α}

theorem fieldsOf_append (xs ys : List (String × Value)) (d : σ) :
    r.fieldsOf (xs ++ ys) d = r.fieldsOf xs d >>= r.fieldsOf ys := by
  induction xs generalizing d with
  | nil => rfl
  | cons x xs ih =>
    obtain ⟨key, v⟩ := x
    rw [List.cons_append, fieldsOf, fieldsOf]
    cases r.field? key with
    | none => exact ih d
    | some f =>
      dsimp only
      split
      · rfl
      · rw [bind_assoc]
        congr 1
        funext d'
        exact ih d'

/-- A record that is decoded has decoded the value of each of its fields, and another value that
fails there fails the record. -/
theorem ofValue_member {f : RecordField σ} {before after : List (String × Value)} {key : String}
    {v : Value} {x : α} (hfield : r.field? key = some f)
    (h : r.decoder.ofValue (.object (before ++ (key, v) :: after)) = .ok x) :
    ∃ d d₁ d₂, (f.decode d).ofValue v = .ok d₁ ∧ after.foldlM r.form.take d₁ = some d₂ ∧
      r.build d₂ = .ok x ∧ ∀ v' e, (f.decode d).ofValue v' = .error e →
        r.decoder.ofValue (.object (before ++ (key, v') :: after)) =
          .error (e.inside (.key key)) := by
  obtain ⟨d₂, hdraft, hbuild⟩ := Except.bind_eq_ok_iff.1 h
  have hfold := (r.toOption_fieldsOf _ _).symm.trans (congrArg Except.toOption hdraft)
  obtain ⟨d, d₁, hbefore, hfilled, hfill, hafter⟩ := Form.foldlM_member hfield hfold
  refine ⟨d, d₁, d₂, Except.toOption_eq_some_iff.1 hfill, hafter,
    Except.mapError_eq_ok_iff.1 hbuild, fun v' e he => ?_⟩
  have hread : r.fieldsOf before r.start = .ok d :=
    Except.toOption_eq_some_iff.1 ((r.toOption_fieldsOf _ _).trans hbefore)
  have hfails : r.fieldsOf ((key, v') :: after) d = .error (e.inside (.key key)) := by
    have hempty : f.filled d = false := hfilled
    rw [fieldsOf, hfield]
    dsimp only
    rw [hempty, he]
    rfl
  refine Except.bind_eq_error_iff.2 (.inl ?_)
  rw [fieldsOf_append]
  exact Except.bind_eq_error_iff.2 (.inr ⟨d, hread, hfails⟩)

end Record

/-- A field that is read and set elsewhere leaves what the draft shows as it is. -/
theorem Record.keeps_of_set {σ α β γ : Type} {r : Record σ α} {view : σ → Option β} {key : String}
    {required : Bool} {filled : σ → Bool} {read : Decoder γ} {set : σ → γ → σ} {d d' : σ}
    {v : Value} {x : β}
    (h : r.form.fill d ⟨key, required, filled, fun d => read.map (set d)⟩ v = some d')
    (hview : view d = some x) (hset : ∀ d y, view (set d y) = view d) : view d' = some x := by
  obtain ⟨y, -, rfl⟩ := Except.map_eq_ok_iff.1 (Except.toOption_eq_some_iff.1 h)
  rw [hset, hview]

/-- The expression of a rule is what its `expression` member is decoded as. -/
theorem ruleRecord_expression {before after : List (String × Value)} {v : Value} {rule : Rule}
    (h : ruleRecord.decoder.ofValue (.object (before ++ ("expression", v) :: after)) = .ok rule) :
    Decoder.expression.ofValue v = .ok rule.expression ∧
      ∀ v' e, Decoder.expression.ofValue v' = .error e →
        ruleRecord.decoder.ofValue (.object (before ++ ("expression", v') :: after)) =
          .error (e.inside (.key "expression")) := by
  obtain ⟨d, d₁, d₂, hdecoded, hafter, hbuild, hfails⟩ := Record.ofValue_member rfl h
  obtain ⟨expr, hexpr, rfl⟩ := Except.map_eq_ok_iff.1 hdecoded
  -- No member after it can fill the field again, so the draft still holds what was decoded.
  have hkept : d₂.expression = some expr := by
    refine Form.foldlM_keeps RuleDraft.expression ?_ hafter rfl
    intro key g v d d' x hfield hempty hfill hview
    have hmem := (Record.field?_eq_some hfield).1
    simp only [ruleRecord, List.mem_cons, List.not_mem_nil, or_false] at hmem
    rcases hmem with rfl | rfl
    · exact Record.keeps_of_set hfill hview fun _ _ => rfl
    · have hempty : d.expression.isSome = false := hempty
      rw [hview] at hempty
      cases hempty
  refine ⟨?_, fun v' e he => hfails v' e (Except.map_eq_error_iff.2 he)⟩
  obtain ⟨name, -, hbuild⟩ := Except.bind_eq_ok_iff.1 hbuild
  rw [hkept] at hbuild
  cases hbuild
  exact hexpr

/-- The rules of a grammar are what its `rules` member is decoded as. -/
theorem grammarRecord_rules {before after : List (String × Value)} {v : Value} {g : Grammar}
    (h : grammarRecord.decoder.ofValue (.object (before ++ ("rules", v) :: after)) = .ok g) :
    (Decoder.list ruleRecord.decoder).ofValue v = .ok g.rules ∧
      ∀ v' e, (Decoder.list ruleRecord.decoder).ofValue v' = .error e →
        grammarRecord.decoder.ofValue (.object (before ++ ("rules", v') :: after)) =
          .error (e.inside (.key "rules")) := by
  obtain ⟨d, d₁, d₂, hdecoded, hafter, hbuild, hfails⟩ := Record.ofValue_member rfl h
  obtain ⟨rules, hrules, rfl⟩ := Except.map_eq_ok_iff.1 hdecoded
  have hkept : d₂.rules = some rules := by
    refine Form.foldlM_keeps GrammarDraft.rules ?_ hafter rfl
    intro key g v d d' x hfield hempty hfill hview
    have hmem := (Record.field?_eq_some hfield).1
    simp only [grammarRecord, List.mem_cons, List.not_mem_nil, or_false] at hmem
    rcases hmem with rfl | rfl | rfl
    · exact Record.keeps_of_set hfill hview fun _ _ => rfl
    · exact Record.keeps_of_set hfill hview fun _ _ => rfl
    · have hempty : d.rules.isSome = false := hempty
      rw [hview] at hempty
      cases hempty
  refine ⟨?_, fun v' e he => hfails v' e (Except.map_eq_error_iff.2 he)⟩
  change needField "rules" d₂.rules >>= _ = _ at hbuild
  rw [hkept] at hbuild
  cases hbuild
  exact hrules

/-! ## Expressions -/

theorem fillMembers_append (kind : Expr.Kind) (xs ys : List (String × Value)) (d : Draft) :
    fillMembers kind (xs ++ ys) d = fillMembers kind xs d >>= fillMembers kind ys := by
  induction xs generalizing d with
  | nil =>
    rw [List.nil_append, fillMembers]
    rfl
  | cons x xs ih =>
    obtain ⟨key, v⟩ := x
    rw [List.cons_append, fillMembers, fillMembers]
    cases field? kind key with
    | none => exact ih d
    | some f =>
      dsimp only
      split
      · rfl
      · rw [bind_assoc]
        congr 1
        funext d'
        exact ih d'

/-- An expression that is decoded has decoded the value of each of its fields, and another value
that fails there fails the expression. -/
theorem exprOfBody_member {kind : Expr.Kind} {f : Field} {before after : List (String × Value)}
    {key : String} {v : Value} {e : Expr} (hfield : field? kind key = some f)
    (h : exprOfBody kind (.members (before ++ (key, v) :: after)) = .ok e) :
    ∃ d change d₁, Draft.filling f v = some change ∧
      after.foldlM (expressionForm kind).take (change d) = some d₁ ∧ d₁.build kind = .ok e ∧
      ∀ v' c, d.fill f v' (fun _ => exprOf v') (fun _ => exprsOf v') = .error c →
        exprOfBody kind (.members (before ++ (key, v') :: after)) = .error c := by
  obtain ⟨d₁, hdraft, hbuild⟩ := Except.bind_eq_ok_iff.1 h
  have hfold := (toOption_fillMembers _ _ _).symm.trans (congrArg Except.toOption hdraft)
  obtain ⟨d, d', hbefore, hempty, hfill, hafter⟩ := Form.foldlM_member hfield hfold
  obtain ⟨change, hchange, rfl⟩ := Option.map_eq_some_iff.1 hfill
  refine ⟨d, change, d₁, hchange, hafter, hbuild, fun v' c hc => ?_⟩
  have hread : fillMembers kind before {} = .ok d :=
    Except.toOption_eq_some_iff.1 ((toOption_fillMembers _ _ _).trans hbefore)
  have hfails : fillMembers kind ((key, v') :: after) d = .error c := by
    have hempty : d.has f = false := hempty
    rw [fillMembers, hfield]
    dsimp only
    rw [hempty, hc]
    rfl
  refine Except.bind_eq_error_iff.2 (.inl ?_)
  rw [fillMembers_append]
  exact Except.bind_eq_error_iff.2 (.inr ⟨d, hread, hfails⟩)

/-- What a draft of an expression shows of a field stays as it is once it is there. -/
theorem foldlM_keeps_field {β : Type} {kind : Expr.Kind} (view : Draft → Option β) (f : Field)
    (hhas : ∀ d, d.has f = (view d).isSome)
    (hother : ∀ g v change, g ≠ f → Draft.filling g v = some change → ∀ d, view (change d) = view d)
    {ms : List (String × Value)} {d d' : Draft}
    (h : ms.foldlM (expressionForm kind).take d = some d') {x : β} (hview : view d = some x) :
    view d' = some x := by
  refine Form.foldlM_keeps view ?_ h hview
  intro key g v d d' x hfield hempty hfill hview
  obtain ⟨change, hchange, rfl⟩ := Option.map_eq_some_iff.1 hfill
  rw [hother g v change ?_ hchange, hview]
  rintro rfl
  have hempty : d.has g = false := hempty
  rw [hhas, hview] at hempty
  cases hempty

end Decode

/-- The expression beneath one that has a single one there. -/
def Expr.single? : Expr → Option Expr
  | .action _ e | .group e | .labeled _ e | .named _ e | .oneOrMore e | .optional e | .simpleAnd e
  | .simpleNot e | .text e | .zeroOrMore e => some e
  | _ => none

/-- The expressions beneath one that lists them, with their field. -/
def Expr.several? : Expr → Option (Field × List Expr)
  | .choice es => some (.alternatives, es)
  | .sequence es => some (.elements, es)
  | _ => none

namespace Decode

/-- The expressions that a draft lists in a field. -/
def Draft.list? (d : Draft) : Field → Option (List Expr)
  | .alternatives => d.alternatives
  | .elements => d.elements
  | _ => none

theorem Draft.need_eq_ok_iff {α : Type} {f : Field} {x : Option α} {a : α} :
    Draft.need f x = .ok a ↔ x = some a := by
  cases x <;> simp [Draft.need]

/-- The expression beneath one is that of the draft. -/
theorem Draft.build_single {d : Draft} {kind : Expr.Kind} {e part : Expr}
    (h : d.build kind = .ok e) (hpart : e.single? = some part) :
    field? kind "expression" = some .expression ∧ d.expression = some part := by
  cases kind <;>
    simp only [Draft.build, Except.bind_eq_ok_iff, Draft.need_eq_ok_iff, pure, Except.pure,
      Except.ok.injEq] at h <;>
    grind [Expr.single?, field?, fieldsOf, Field.key]

/-- The expressions beneath one are those of the draft. -/
theorem Draft.build_several {d : Draft} {kind : Expr.Kind} {e : Expr} {f : Field}
    {parts : List Expr} (h : d.build kind = .ok e) (hparts : e.several? = some (f, parts)) :
    field? kind f.key = some f ∧ d.list? f = some parts := by
  cases kind <;>
    simp only [Draft.build, Except.bind_eq_ok_iff, Draft.need_eq_ok_iff, pure, Except.pure,
      Except.ok.injEq] at h <;>
    grind [Expr.several?, field?, fieldsOf, Field.key, Draft.list?]

/-- The expression beneath one is what the `expression` member is decoded as. -/
theorem exprOfBody_single {kind : Expr.Kind} {before after : List (String × Value)} {v : Value}
    {e part : Expr}
    (h : exprOfBody kind (.members (before ++ ("expression", v) :: after)) = .ok e)
    (hpart : e.single? = some part) :
    exprOf v = .ok part ∧ ∀ v' c, exprOf v' = .error c →
      exprOfBody kind (.members (before ++ ("expression", v') :: after)) = .error c := by
  -- That there is an expression beneath says that the kind has the field.
  obtain ⟨d₂, -, hbuild₂⟩ := Except.bind_eq_ok_iff.1 h
  obtain ⟨hfield, -⟩ := Draft.build_single hbuild₂ hpart
  obtain ⟨d, change, d₁, hchange, hafter, hbuild, hfails⟩ := exprOfBody_member hfield h
  obtain ⟨x, hx, rfl⟩ := Option.map_eq_some_iff.1 hchange
  have hkept : d₁.expression = some x := by
    refine foldlM_keeps_field Draft.expression .expression (fun _ => rfl) ?_ hafter rfl
    intro g v change hne hfilling d
    cases g <;> first
      | exact absurd rfl hne
      | obtain ⟨y, -, rfl⟩ := Option.map_eq_some_iff.1 hfilling
        rfl
  obtain rfl : x = part := Option.some.inj (hkept.symm.trans (Draft.build_single hbuild hpart).2)
  refine ⟨Except.toOption_eq_some_iff.1 hx, fun v' c hc => hfails v' c ?_⟩
  exact Except.map_eq_error_iff.2 hc

/-- The expressions beneath one are what the member of their field is decoded as. -/
theorem exprOfBody_several {kind : Expr.Kind} {before after : List (String × Value)} {v : Value}
    {e : Expr} {f : Field} {parts : List Expr}
    (h : exprOfBody kind (.members (before ++ (f.key, v) :: after)) = .ok e)
    (hparts : e.several? = some (f, parts)) :
    exprsOf v = .ok parts ∧ ∀ v' c, exprsOf v' = .error c →
      exprOfBody kind (.members (before ++ (f.key, v') :: after)) = .error c := by
  have hf : f = .alternatives ∨ f = .elements := by
    cases e <;> simp [Expr.several?] at hparts <;> simp [hparts.1]
  obtain ⟨d₂, -, hbuild₂⟩ := Except.bind_eq_ok_iff.1 h
  obtain ⟨hfield, -⟩ := Draft.build_several hbuild₂ hparts
  obtain ⟨d, change, d₁, hchange, hafter, hbuild, hfails⟩ := exprOfBody_member hfield h
  obtain ⟨xs, hxs, hfilled⟩ : ∃ xs, (exprsOf v).toOption = some xs ∧
      (change d).list? f = some xs := by
    rcases hf with rfl | rfl <;> obtain ⟨xs, hxs, rfl⟩ := Option.map_eq_some_iff.1 hchange <;>
      exact ⟨xs, hxs, rfl⟩
  have hkept : d₁.list? f = some xs := by
    refine foldlM_keeps_field (Draft.list? · f) f ?_ ?_ hafter hfilled
    · rcases hf with rfl | rfl <;> intro d <;> rfl
    · intro g v change hne hfilling d
      rcases hf with rfl | rfl <;> cases g <;> first
        | exact absurd rfl hne
        | obtain ⟨y, -, rfl⟩ := Option.map_eq_some_iff.1 hfilling
          rfl
  obtain rfl : xs = parts :=
    Option.some.inj (hkept.symm.trans (Draft.build_several hbuild hparts).2)
  refine ⟨Except.toOption_eq_some_iff.1 hxs, fun v' c hc => hfails v' c ?_⟩
  rcases hf with rfl | rfl <;> exact Except.map_eq_error_iff.2 hc

end Decode

end GrammarTypes
