import GrammarTypes.Proofs.Helper.Allocation

/-!
# What a derivation does not read

A derivation carries code along without reading it, passes over display names, and does not look
beneath a text or a lookahead. The outline of an expression is what is left without these, and the
outline of a yield is the yield without code. The result for an outline is the outline of the result
(`Expr.result_outline`), so expressions of one outline yield the same but for the code, whatever the
parts are that the outline leaves out.
-/

namespace GrammarTypes

/-! ## Outlines of yields -/

/-- The helper without its code. -/
def Helper.outline (h : Helper) : Helper := { h with code := "" }

/-- The action without its code. -/
def Action.outline (a : Action) : Action := { a with code := "" }

namespace Yield

/-- The yield without code. -/
def outline (y : Yield) : Yield :=
  { y with action := y.action.map Action.outline, helpers := y.helpers.map Helper.outline }

/-- What a parent sees of a yield has no code. -/
theorem valueTypes_outline (y : Yield) : y.outline.valueTypes = y.valueTypes := by
  unfold valueTypes outline
  cases y.action <;> rfl

/-- What is taken over from a part has the outline of what it has there. -/
theorem outline_absorb (y z : Yield) : (y.absorb z).outline = y.outline.absorb z.outline := by
  simp [outline, absorb]

/-- An operator sees no code. -/
theorem outline_wrap (f : List Ty → Ty) (y : Yield) : (y.wrap f).outline = y.outline.wrap f := by
  unfold wrap
  rw [valueTypes_outline, outline_absorb]
  rfl

/-- A capture sees no code. -/
theorem outline_capture (label : String) (y : Yield) :
    (y.capture label).outline = y.outline.capture label := by
  unfold capture
  rw [valueTypes_outline]
  rfl

/-- An action only adds its own code. -/
theorem outline_underAction (name code : String) (s : Scope) (y : Yield) :
    (y.underAction name code s).outline = y.outline.underAction name "" s := by
  simp [underAction, addHelper, absorb, outline, Action.outline, Helper.outline, Yield.of]

/-- The entry of an element does not depend on code. -/
theorem entry_outline (decided : Option Action) (y : Yield) :
    entry (decided.map Action.outline) y.outline = entry decided y := by
  unfold entry outline
  cases y.action <;> cases decided <;> rfl

/-- A sequence sees no code of its elements. -/
theorem outline_append (y z : Yield) : (y.append z).outline = y.outline.append z.outline := by
  have hentry : entry y.outline.action z.outline = entry y.action z := entry_outline y.action z
  unfold append
  rw [hentry, outline_absorb]
  cases haction : z.action <;> simp [outline, haction]

/-- A choice sees no code of its alternatives. -/
theorem outline_orElse (y z : Yield) : (y.orElse z).outline = y.outline.orElse z.outline := by
  unfold orElse
  rw [valueTypes_outline, outline_absorb]
  rfl

/-- What adds one part without seeing its code adds many parts so. -/
theorem outline_foldl {add : Yield → Yield → Yield}
    (hadd : ∀ y z, (add y z).outline = add y.outline z.outline) (ys : List Yield) (acc : Yield) :
    (ys.foldl add acc).outline = (ys.map outline).foldl add acc.outline := by
  induction ys generalizing acc with
  | nil => rfl
  | cons y ys ih => rw [List.foldl_cons, ih, hadd, List.map_cons, List.foldl_cons]

/-- The outline of a sequence is that of its elements. -/
theorem outline_sequence (ys : List Yield) :
    (sequence ys).outline = sequence (ys.map outline) :=
  outline_foldl outline_append ys {}

/-- The outline of a choice is that of its alternatives. -/
theorem outline_choice (ys : List Yield) : (choice ys).outline = choice (ys.map outline) :=
  outline_foldl outline_orElse ys {}

/-- The yields differ at most in code. -/
structure SameButCode (y y' : Yield) : Prop where
  /-- They have the same candidate types. -/
  types : y.types = y'.types
  /-- They bind the same labels to the same candidates. -/
  labels : y.labels = y'.labels
  /-- The same helper decides their values. -/
  action : y.action.map Action.helper = y'.action.map Action.helper
  /-- Their helpers have the same names, kinds and parameters, in the same order. -/
  helpers : y.helpers.map (fun h => (h.name, h.kind, h.params)) =
    y'.helpers.map fun h => (h.name, h.kind, h.params)

/-- Yields of one outline differ at most in code. -/
theorem SameButCode.of_outline {y y' : Yield} (h : y.outline = y'.outline) :
    y.SameButCode y' where
  types := (Yield.mk.inj h).1
  labels := (Yield.mk.inj h).2.1
  action := by
    have haction := congrArg (Option.map Action.helper) (Yield.mk.inj h).2.2.1
    rwa [Option.map_map, Option.map_map] at haction
  helpers := by
    have hhelpers := congrArg (List.map fun h => (h.name, h.kind, h.params)) (Yield.mk.inj h).2.2.2
    rwa [List.map_map, List.map_map] at hhelpers

end Yield

/-! ## Outlines of expressions -/

namespace Expr

mutual

/-- The expression with the parts left out that a derivation does not read: code and display names
are empty, and what stands beneath a text or a lookahead is the same everywhere. -/
def outline : Expr → Expr
  | .action _ e => .action "" (outline e)
  | .any => .any
  | .choice es => .choice (outlineAll es)
  | .charClass parts inverted ignoreCase => .charClass parts inverted ignoreCase
  | .group e => .group (outline e)
  | .labeled label e => .labeled label (outline e)
  | .literal value ignoreCase => .literal value ignoreCase
  | .named _ e => .named "" (outline e)
  | .oneOrMore e => .oneOrMore (outline e)
  | .optional e => .optional (outline e)
  | .ruleRef name => .ruleRef name
  | .semanticAnd _ => .semanticAnd ""
  | .semanticNot _ => .semanticNot ""
  | .sequence es => .sequence (outlineAll es)
  | .simpleAnd _ => .simpleAnd .any
  | .simpleNot _ => .simpleNot .any
  | .text _ => .text .any
  | .zeroOrMore e => .zeroOrMore (outline e)

/-- The outlines of several expressions. -/
def outlineAll : List Expr → List Expr
  | [] => []
  | e :: es => outline e :: outlineAll es

end

mutual

/-- An outline has as many helpers as the expression. -/
theorem helperCount_outline : ∀ e : Expr, e.outline.helperCount = e.helperCount
  | .any | .charClass .. | .literal .. | .ruleRef _ | .simpleAnd _ | .simpleNot _ | .text _
  | .semanticAnd _ | .semanticNot _ => rfl
  | .action _ e => by rw [outline, helperCount, helperCount, helperCount_outline e]
  | .group e | .labeled _ e | .named _ e | .oneOrMore e | .optional e | .zeroOrMore e => by
    rw [outline, helperCount, helperCount, helperCount_outline e]
  | .choice es | .sequence es => by
    rw [outline, helperCount, helperCount, helperCountAll_outlineAll es]

/-- Outlines have as many helpers as the expressions. -/
theorem helperCountAll_outlineAll : ∀ es : List Expr,
    helperCountAll (outlineAll es) = helperCountAll es
  | [] => rfl
  | e :: es => by
    rw [outlineAll, helperCountAll, helperCountAll, helperCount_outline e,
      helperCountAll_outlineAll es]

end

variable {rule : String} {limit : Nat}

/-- An expression without parts and code has the result of its outline. -/
theorem Leaf.result_outline {e : Expr} (he : Leaf e) (s : Scope) (n : Nat) :
    result rule limit e.outline s n = Yield.outline <$> result rule limit e s n := by
  have hsame : result rule limit e.outline s n = result rule limit e s n := by
    cases he <;> rfl
  rw [hsame]
  cases hy : result rule limit e s n with
  | error err => rfl
  | ok y =>
    obtain ⟨t, rfl⟩ := he.result_eq_of hy
    rfl

/-- An expression that makes one type of the candidates of its part goes with the outline of the
part. -/
theorem Wraps.result_outline {e inner : Expr} {f : List Ty → Ty} (he : Wraps e inner f)
    {s : Scope} {n : Nat} (h : result rule limit inner.outline s n =
      Yield.outline <$> result rule limit inner s n) :
    result rule limit e.outline s n = Yield.outline <$> result rule limit e s n := by
  have hresult : result rule limit e s n = Yield.wrap f <$> result rule limit inner s n ∧
      result rule limit e.outline s n = Yield.wrap f <$> result rule limit inner.outline s n := by
    cases he <;> exact ⟨rfl, rfl⟩
  rw [hresult.1, hresult.2, h]
  cases result rule limit inner s n with
  | error err => rfl
  | ok y => exact congrArg Except.ok (Yield.outline_wrap f y).symm

mutual

/-- The result for the outline of an expression is the outline of its result. -/
theorem result_outline : ∀ (e : Expr) (s : Scope) (n : Nat),
    result rule limit e.outline s n = Yield.outline <$> result rule limit e s n
  | .any, s, n => Leaf.any.result_outline s n
  | .text e, s, n => (Leaf.text e).result_outline s n
  | .literal v i, s, n => (Leaf.literal v i).result_outline s n
  | .charClass ps v i, s, n => (Leaf.charClass ps v i).result_outline s n
  | .ruleRef name, s, n => (Leaf.ruleRef name).result_outline s n
  | .simpleAnd e, s, n => (Leaf.simpleAnd e).result_outline s n
  | .simpleNot e, s, n => (Leaf.simpleNot e).result_outline s n
  | .semanticAnd _, _, _ => rfl
  | .semanticNot _, _, _ => rfl
  | .named _ e, s, n => result_outline e s n
  | .labeled none e, s, n => result_outline e s n
  | .group e, s, n => (Wraps.group e).result_outline (result_outline e s n)
  | .zeroOrMore e, s, n => (Wraps.zeroOrMore e).result_outline (result_outline e s n)
  | .oneOrMore e, s, n => (Wraps.oneOrMore e).result_outline (result_outline e s n)
  | .optional e, s, n => (Wraps.optional e).result_outline (result_outline e s n)
  | .labeled (some label) e, s, n => by
    rw [outline, result, result, result_outline e s n]
    cases result rule limit e s n with
    | error err => rfl
    | ok y => exact congrArg Except.ok (Yield.outline_capture label y).symm
  | .action code e, s, n => by
    rw [outline, result, result, result_outline e s (n + 1)]
    cases result rule limit e s (n + 1) with
    | error err => rfl
    | ok y => exact congrArg Except.ok (Yield.outline_underAction _ code s y).symm
  | .sequence es, s, n => by
    rw [outline, result, result, elementResults_outlineAll es s n]
    cases elementResults rule limit es s n with
    | error err => rfl
    | ok ys => exact congrArg Except.ok (Yield.outline_sequence ys).symm
  | .choice es, s, n => by
    rw [outline, result, result, alternativeResults_outlineAll es n]
    cases alternativeResults rule limit es n with
    | error err => rfl
    | ok ys => exact congrArg Except.ok (Yield.outline_choice ys).symm

/-- The results for the outlines of elements are the outlines of their results. -/
theorem elementResults_outlineAll : ∀ (es : List Expr) (s : Scope) (n : Nat),
    elementResults rule limit (outlineAll es) s n =
      List.map Yield.outline <$> elementResults rule limit es s n
  | [], _, _ => rfl
  | e :: es, s, n => by
    have hfirst := result_outline e s n
    cases hy : result rule limit e s n with
    | error err =>
      rw [hy] at hfirst
      rw [outlineAll, elementResults, elementResults, hfirst, hy]
      rfl
    | ok y =>
      rw [hy] at hfirst
      -- The labels of an element have no code, so the scope of the others is the same.
      have hrest := elementResults_outlineAll es (s.merge y.labels) (n + e.helperCount)
      rw [outlineAll, elementResults_cons hfirst, elementResults_cons hy, helperCount_outline]
      refine (congrArg _ hrest).trans ?_
      cases elementResults rule limit es (s.merge y.labels) (n + e.helperCount) <;> rfl

/-- The results for the outlines of alternatives are the outlines of their results. -/
theorem alternativeResults_outlineAll : ∀ (es : List Expr) (n : Nat),
    alternativeResults rule limit (outlineAll es) n =
      List.map Yield.outline <$> alternativeResults rule limit es n
  | [], _ => rfl
  | e :: es, n => by
    rw [outlineAll, alternativeResults, alternativeResults, result_outline e .empty n,
      helperCount_outline, alternativeResults_outlineAll es]
    cases result rule limit e .empty n with
    | error err => rfl
    | ok y => cases alternativeResults rule limit es (n + e.helperCount) <;> rfl

end

/-! ## Outlines of rules -/

/-- Display names at the top are passed over in an outline too. -/
theorem unnamed_outline (e : Expr) : e.outline.unnamed = e.unnamed.outline := by
  fun_induction unnamed e with
  | case1 display e ih => exact ih
  | case2 e hnamed =>
    cases e with
    | named display e => exact absurd rfl (hnamed display e)
    | _ => rfl

/-- An action at the top of an expression is one at the top of its outline. -/
theorem topAction?_outline (e : Expr) :
    e.outline.topAction? = e.topAction?.map fun top => ("", top.2.outline) := by
  unfold topAction?
  rw [unnamed_outline]
  cases e.unnamed <;> rfl

/-- An outline has as many numbered helpers as the expression. -/
theorem numberedCount_outline (e : Expr) : e.outline.numberedCount = e.numberedCount := by
  unfold numberedCount
  rw [topAction?_outline, helperCount_outline]
  cases e.topAction? with
  | none => rfl
  | some top => exact helperCount_outline top.2

/-- The result for the outline of a rule's expression is the outline of its result. -/
theorem ruleResult_outline (e : Expr) (n : Nat) :
    e.outline.ruleResult rule limit n = Yield.outline <$> e.ruleResult rule limit n := by
  unfold ruleResult
  rw [topAction?_outline, unnamed_outline]
  cases e.topAction? with
  | none => exact result_outline e.unnamed .empty n
  | some top =>
    obtain ⟨code, inner⟩ := top
    have hinner : result rule limit inner.outline .empty n =
        Yield.outline <$> result rule limit inner .empty n := result_outline inner .empty n
    simp only [Option.map_some, hinner]
    cases result rule limit inner .empty n with
    | error err => rfl
    | ok y => exact congrArg Except.ok (Yield.outline_underAction _ code .empty y).symm

end Expr

/-! ## Whose code it is -/

namespace Yield

/-- The action that decides the value is that of a helper, with its name and its code. -/
def ActionOfHelper (y : Yield) : Prop :=
  ∀ a, y.action = some a → ∃ h ∈ y.helpers, h.kind = .action ∧ h.name = a.helper ∧ h.code = a.code

variable {y acc : Yield}

/-- Without an action there is nothing to say. -/
theorem ActionOfHelper.of_none (h : y.action = none) : y.ActionOfHelper := by
  intro a ha
  rw [h] at ha
  cases ha

/-- The helper of an action comes last. -/
theorem actionOfHelper_underAction (name code : String) (s : Scope) (y : Yield) :
    (y.underAction name code s).ActionOfHelper := by
  intro a ha
  obtain rfl := Option.some.inj ha
  exact ⟨_, List.mem_append_right _ (List.mem_singleton_self _), rfl, rfl, rfl⟩

/-- The value of a sequence is decided by its last action, whose helper it has. -/
theorem ActionOfHelper.append (hacc : acc.ActionOfHelper) (hy : y.ActionOfHelper) :
    (acc.append y).ActionOfHelper := by
  intro a ha
  rw [action_append] at ha
  cases hown : y.action with
  | none =>
    rw [hown, Option.none_or] at ha
    obtain ⟨h, hh, hcode⟩ := hacc a ha
    exact ⟨h, List.mem_append_left _ hh, hcode⟩
  | some b =>
    rw [hown, Option.some_or] at ha
    obtain rfl := Option.some.inj ha
    obtain ⟨h, hh, hcode⟩ := hy b hown
    exact ⟨h, List.mem_append_right _ hh, hcode⟩

end Yield

namespace Expr

variable {rule : String} {limit : Nat}

/-- A sequence that goes on with such elements has the helper of its action. -/
theorem actionOfHelper_of_chain {es : List Expr} {s : Scope} {n : Nat} {ys : List Yield}
    (h : Chain (fun _ _ _ y => y.ActionOfHelper) bound es s n ys) {acc : Yield}
    (hacc : acc.ActionOfHelper) : (ys.foldl Yield.append acc).ActionOfHelper := by
  induction h generalizing acc with
  | nil => exact hacc
  | cons hy _ ih => exact ih (hacc.append hy)

/-- The value of every result is decided by one of its helpers or by none. -/
theorem actionOfHelper_preserved : Preserved rule limit fun _ _ _ y => y.ActionOfHelper where
  leaf _ _ := .of_none rfl
  condition _ := .of_none rfl
  passes _ h := h
  wraps _ _ := .of_none rfl
  capture _ := .of_none rfl
  action _ := Yield.actionOfHelper_underAction _ _ _ _
  sequence h := actionOfHelper_of_chain h (.of_none rfl)
  choice _ := .of_none (Yield.action_choice _)

/-- The code in a yield is that of the nodes of the expression: the helpers have the code of the
nodes one by one, and the action that decides the value has the code of its helper. -/
structure OwnsCode (e : Expr) (y : Yield) : Prop where
  /-- The helpers have the kinds and the code of the nodes, each after those beneath it. -/
  helpers : y.helpers.map (fun h => (h.kind, h.code)) =
    e.codePostorder.map fun x => (x.kind, x.code)
  /-- The action is that of a helper. -/
  action : y.ActionOfHelper

/-- Helpers that are those of the nodes have their kinds and code, whatever their names are. -/
theorem Allocates.kinds_and_code {e : Expr} {name : Nat → String} {hs : List Helper}
    (h : e.Allocates name hs) :
    hs.map (fun f => (f.kind, f.code)) = e.codePostorder.map fun x => (x.kind, x.code) := by
  have hsnd := congrArg (List.map Prod.snd) h
  rwa [List.map_map, List.map_map] at hsnd

/-- The code in a result is that of the expression. -/
theorem ownsCode_result {e : Expr} {s : Scope} {n : Nat} {y : Yield}
    (h : result rule limit e s n = .ok y) : e.OwnsCode y where
  helpers := (allocates_preserved.of_result e s n y h).kinds_and_code
  action := actionOfHelper_preserved.of_result e s n y h

/-- The code in the result of a rule is that of its expression. -/
theorem ownsCode_ruleResult {e : Expr} {n : Nat} {y : Yield}
    (h : e.ruleResult rule limit n = .ok y) : e.OwnsCode y := by
  cases htop : e.topAction? with
  | none =>
    rw [ruleResult_of_no_topAction htop] at h
    have hallocates := allocates_preserved.of_result e.unnamed .empty n y h
    exact ⟨hallocates.of_unnamed.kinds_and_code,
      actionOfHelper_preserved.of_result e.unnamed .empty n y h⟩
  | some top =>
    obtain ⟨code, inner⟩ := top
    rw [ruleResult_of_topAction htop] at h
    obtain ⟨z, hz, rfl⟩ := Except.map_eq_ok_iff.1 h
    have hinner := allocates_preserved.of_result inner .empty n z hz
    -- The action has the rule's own name, and the nodes beneath it are numbered from `n` on.
    have hallocates : e.unnamed.Allocates
        (fun j => if j = 0 then Helper.ruleName rule else Helper.numberedName rule (n + (j - 1)))
        (z.underAction (Helper.ruleName rule) code .empty).helpers := by
      rw [unnamed_eq_action htop]
      exact .action hinner rfl
    exact ⟨hallocates.of_unnamed.kinds_and_code, Yield.actionOfHelper_underAction _ _ _ _⟩

/-! ## Derivations of one outline -/

/-- From the same number, the two derivations fail alike, or they leave the same number and their
yields differ at most in the code, which each has from the nodes of its own expression. -/
def SameButCode (e e' : Expr) (d d' : Derivation Yield) : Prop :=
  ∀ (n : Nat) (log log' : List Event),
    (∃ err, (d.runFrom ⟨n, log⟩).1 = .error err ∧ (d'.runFrom ⟨n, log'⟩).1 = .error err) ∨
    ∃ (y y' : Yield) (ledger ledger' : Ledger), d.runFrom ⟨n, log⟩ = (.ok y, ledger) ∧
      d'.runFrom ⟨n, log'⟩ = (.ok y', ledger') ∧ ledger.next = ledger'.next ∧
      y.SameButCode y' ∧ e.OwnsCode y ∧ e'.OwnsCode y'

/-- Derivations that compute results of one outline agree but for the code. -/
theorem sameButCode_of_computes {e e' : Expr} {d d' : Derivation Yield}
    {f f' : Nat → Except InvalidRange Yield} {k : Nat} (hd : d.Computes f k)
    (hd' : d'.Computes f' k) (houtline : ∀ n, Yield.outline <$> f n = Yield.outline <$> f' n)
    (howns : ∀ n y, f n = .ok y → e.OwnsCode y) (howns' : ∀ n y, f' n = .ok y → e'.OwnsCode y) :
    SameButCode e e' d d' := by
  intro n log log'
  obtain ⟨hout, hnext⟩ := hd ⟨n, log⟩
  obtain ⟨hout', hnext'⟩ := hd' ⟨n, log'⟩
  have hsame := houtline n
  cases hf : f n with
  | error err =>
    rw [hf] at hout hsame
    have hf' : f' n = .error err := Except.map_eq_error_iff.1 hsame.symm
    exact .inl ⟨err, hout, hout'.trans hf'⟩
  | ok y =>
    rw [hf] at hout hsame
    obtain ⟨y', hf', houtlines⟩ := Except.map_eq_ok_iff.1 hsame.symm
    rw [hf'] at hout'
    refine .inr ⟨y, y', _, _, Prod.ext hout rfl, Prod.ext hout' rfl, ?_,
      .of_outline houtlines.symm, howns n y hf, howns' n y' hf'⟩
    rw [hnext y hout, hnext' y' hout']

/-- Expressions of one outline differ at most in code, in display names and in what stands beneath
texts and lookaheads. Their derivations, in any scope and from any number, and those of rules that
they are the expressions of, fail alike, or yield the same but for the code, which is that of the
nodes of each expression. -/
theorem derive_ignores_code (cx : RuleContext) (e e' : Expr) (h : e.outline = e'.outline) :
    (∀ s : Scope, SameButCode e e' (e.derive cx s) (e'.derive cx s)) ∧
      SameButCode e e' (e.deriveRule cx) (e'.deriveRule cx) := by
  constructor
  · intro s
    have hcount : e'.helperCount = e.helperCount := by
      rw [← helperCount_outline, ← h, helperCount_outline]
    have hd' := derive_computes cx e' s
    rw [hcount] at hd'
    refine sameButCode_of_computes (derive_computes cx e s) hd' (fun n => ?_)
      (fun n y hy => ownsCode_result hy) (fun n y hy => ownsCode_result hy)
    rw [← result_outline, ← result_outline, h]
  · have hcount : e'.numberedCount = e.numberedCount := by
      rw [← numberedCount_outline, ← h, numberedCount_outline]
    have hd' := deriveRule_computes cx e'
    rw [hcount] at hd'
    refine sameButCode_of_computes (deriveRule_computes cx e) hd' (fun n => ?_)
      (fun n y hy => ownsCode_ruleResult hy) (fun n y hy => ownsCode_ruleResult hy)
    rw [← ruleResult_outline, ← ruleResult_outline, h]

/-- An action over a captured text and a condition, with the given code, display name and text. -/
def captureText (code display : String) (matched : Expr) : Expr :=
  .named display (.action code (.sequence [.labeled (some "a") (.text matched), .semanticAnd code]))

/-- The second text is a malformed range, which would fail by itself. -/
theorem derive_ignores_code_text :
    (captureText "return a;" "pair" .any).outline =
      (captureText "" "" (.charClass [.range "z" "a"] false false)).outline ∧
    (∃ y y' ledger ledger',
      ((captureText "return a;" "pair" .any).deriveRule ⟨"R", [], 256⟩).runFrom ⟨1, []⟩ =
        (.ok y, ledger) ∧
      ((captureText "" "" (.charClass [.range "z" "a"] false false)).deriveRule
        ⟨"R", [], 256⟩).runFrom ⟨1, []⟩ = (.ok y', ledger') ∧
      ledger.next = ledger'.next ∧ y.SameButCode y' ∧
      y.helpers.map Helper.identity =
        [("peg$parseR$1", .predicate, "return a;"), ("peg$parseR", .action, "return a;")] ∧
      y'.helpers.map Helper.identity =
        [("peg$parseR$1", .predicate, ""), ("peg$parseR", .action, "")]) := by
  refine ⟨rfl, ?_⟩
  have hsame := (derive_ignores_code ⟨"R", [], 256⟩ (captureText "return a;" "pair" .any)
    (captureText "" "" (.charClass [.range "z" "a"] false false)) rfl).2 1 [] []
  obtain ⟨err, herr, -⟩ | ⟨y, y', ledger, ledger', hy, hy', hnext, hcode, -, -⟩ := hsame
  · exact nomatch herr
  · refine ⟨y, y', ledger, ledger', hy, hy', hnext, hcode, ?_, ?_⟩
    · cases hy
      decide +kernel
    · cases hy'
      decide +kernel

end Expr

end GrammarTypes
