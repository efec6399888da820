import GrammarTypes.Proofs.Emission
import GrammarTypes.Proofs.Helper.Allocation

/-!
# The action that decides a value

The value of an expression is what its parts yield, unless an action decides it. `Expr.decider?`
finds that action in the expression alone: it looks through display names and captures without a
label, takes the last of a sequence, and stops at everything else. `Expr.DecidedBy` says that the
action of a yield is the decider, under the name that the helper of its node has. Every kind of
expression hands this up from its parts (`Expr.decidedBy_preserved`), so that the value of an
expression, and with it the exported type of a rule, can be told before anything is derived.
-/

namespace GrammarTypes

namespace Expr

mutual

/-- The node whose action decides the value of an expression. -/
def decider? : Expr → Option CodeNode
  | .action code _ => some ⟨[], .action, code⟩
  | .named _ e | .labeled none e => (decider? e).map (CodeNode.under 0)
  | .sequence es => lastDecider? 0 es
  | .any | .charClass .. | .choice _ | .group _ | .labeled (some _) _ | .literal .. | .oneOrMore _
  | .optional _ | .ruleRef _ | .semanticAnd _ | .semanticNot _ | .simpleAnd _ | .simpleNot _
  | .text _ | .zeroOrMore _ => none

/-- The decider of the last of some elements that has one. The first of them stands at the given
place. -/
def lastDecider? : Nat → List Expr → Option CodeNode
  | _, [] => none
  | i, e :: es => (lastDecider? (i + 1) es).or ((decider? e).map (CodeNode.under i))

end

/-! ## Deciders are nodes with code -/

/-- A node of the first of some parts is a node of the parts. -/
theorem under_mem_codePostorderAll {i : Nat} {e : Expr} {es : List Expr} {x : CodeNode}
    (hx : x ∈ e.codePostorder) : x.under i ∈ codePostorderAll i (e :: es) := by
  rw [codePostorderAll_cons]
  exact List.mem_append_left _ (List.mem_map_of_mem hx)

/-- A node of the parts of an expression is a node of the expression. -/
theorem mem_codePostorder_of_parts {e : Expr} {x : CodeNode} (hx : x ∈ codePostorderAll 0 e.parts) :
    x ∈ e.codePostorder := by
  rw [codePostorder_eq]
  exact List.mem_append_left _ hx

mutual

/-- The decider is an action among the visible nodes with code. -/
theorem decider?_mem : ∀ (e : Expr) (x : CodeNode), e.decider? = some x →
    x ∈ e.codePostorder ∧ x.kind = .action
  | .action code e, x, h => by
    obtain rfl := Option.some.inj h
    refine ⟨?_, rfl⟩
    rw [codePostorder_eq]
    exact List.mem_append_right _ (List.mem_singleton_self _)
  | .named _ e, x, h | .labeled none e, x, h => by
    obtain ⟨z, hz, rfl⟩ := Option.map_eq_some_iff.1 h
    obtain ⟨hmem, hkind⟩ := decider?_mem e z hz
    exact ⟨mem_codePostorder_of_parts (under_mem_codePostorderAll hmem), hkind⟩
  | .sequence es, x, h => by
    obtain ⟨hmem, hkind⟩ := lastDecider?_mem 0 es x h
    exact ⟨mem_codePostorder_of_parts hmem, hkind⟩
  | .any, _, h | .charClass .., _, h | .choice _, _, h | .group _, _, h
  | .labeled (some _) _, _, h | .literal .., _, h | .oneOrMore _, _, h | .optional _, _, h
  | .ruleRef _, _, h | .semanticAnd _, _, h | .semanticNot _, _, h | .simpleAnd _, _, h
  | .simpleNot _, _, h | .text _, _, h | .zeroOrMore _, _, h => nomatch h

/-- The decider of some elements is an action among their visible nodes with code. -/
theorem lastDecider?_mem : ∀ (i : Nat) (es : List Expr) (x : CodeNode),
    lastDecider? i es = some x → x ∈ codePostorderAll i es ∧ x.kind = .action
  | _, [], _, h => nomatch h
  | i, e :: es, x, h => by
    rcases Option.or_eq_some_iff.1 h with hlater | ⟨-, hfirst⟩
    · obtain ⟨hmem, hkind⟩ := lastDecider?_mem (i + 1) es x hlater
      refine ⟨?_, hkind⟩
      rw [codePostorderAll_cons]
      exact List.mem_append_right _ hmem
    · obtain ⟨z, hz, rfl⟩ := Option.map_eq_some_iff.1 hfirst
      obtain ⟨hmem, hkind⟩ := decider?_mem e z hz
      exact ⟨under_mem_codePostorderAll hmem, hkind⟩

end

/-! ## Decisions by the kinds of expression -/

/-- The action is that of the decider of the expression, when `name` gives the name of the helper of
the `j`-th node with code in pre-order. -/
def DecidedBy (e : Expr) (name : Nat → String) (found : Option Action) : Prop :=
  found = e.decider?.map fun x => ⟨name (e.codePreorder.idxOf x), x.code⟩

/-- The action is that of the decider of elements at consecutive places. -/
def DecidedByLast (i : Nat) (es : List Expr) (name : Nat → String) (found : Option Action) :
    Prop :=
  found = (lastDecider? i es).map fun x => ⟨name ((codePreorderAll i es).idxOf x), x.code⟩

variable {rule : String} {limit : Nat} {name : Nat → String} {found found' : Option Action}

/-- Without a decider there is no action. -/
theorem DecidedBy.of_no_decider {e : Expr} (h : e.decider? = none) : e.DecidedBy name none := by
  rw [DecidedBy, h]
  rfl

/-- An action decides its own value. -/
theorem DecidedBy.action (code : String) (inner : Expr) :
    (Expr.action code inner).DecidedBy name (some ⟨name 0, code⟩) := by
  have hown : Node.code? ⟨[], .action code inner⟩ = some ⟨[], .action, code⟩ := rfl
  rw [DecidedBy, decider?, Option.map_some, codePreorder_eq, hown, Option.toList_some,
    List.singleton_append, List.idxOf_cons_self]

/-- The last decider of some elements is that of the others, or else that of the first. -/
theorem DecidedByLast.cons {i : Nat} {e : Expr} {es : List Expr} (he : e.DecidedBy name found)
    (hes : DecidedByLast (i + 1) es (fun j => name (e.helperCount + j)) found') :
    DecidedByLast i (e :: es) name (found'.or found) := by
  unfold DecidedByLast
  -- As for the helpers, the places of the nodes after the first element are counted from the number
  -- of its helpers on.
  cases hlater : lastDecider? (i + 1) es with
  | some x =>
    obtain ⟨hmem, -⟩ := lastDecider?_mem (i + 1) es x hlater
    rw [DecidedByLast, hlater] at hes
    rw [hes, lastDecider?, hlater, Option.some_or, Option.map_some, Option.map_some,
      Option.some_or, idxOf_codePreorderAll_cons_right hmem]
  | none =>
    rw [DecidedByLast, hlater] at hes
    rw [hes, he, lastDecider?, hlater, Option.map_none, Option.none_or, Option.none_or,
      Option.map_map]
    refine Option.map_congr fun x hx => ?_
    obtain ⟨hmem, -⟩ := decider?_mem e x hx
    rw [Function.comp, idxOf_codePreorderAll_cons_left hmem]
    rfl

/-- An expression without code of its own that has the last decider of its parts has its action. -/
theorem DecidedBy.of_parts {e : Expr} (hcode : e.code? = none)
    (hdecider : e.decider? = lastDecider? 0 e.parts) (h : DecidedByLast 0 e.parts name found) :
    e.DecidedBy name found := by
  have hown : Node.code? ⟨[], e⟩ = none := by simp [Node.code?, hcode]
  rw [DecidedBy, hdecider, codePreorder_eq, hown, Option.toList_none, List.nil_append]
  exact h

/-- An expression that yields what its part yields has the decider of the part. -/
theorem DecidedBy.of_passes {e inner : Expr} (he : Passes e inner)
    (h : inner.DecidedBy name found) : e.DecidedBy name found := by
  have hlast : DecidedByLast 0 [inner] name (none.or found) := .cons h rfl
  rw [Option.none_or] at hlast
  cases he <;> exact .of_parts rfl rfl hlast

/-- Actions decided along a chain are decided by the last decider of its expressions. -/
theorem decidedByLast_of_chain {after : Scope → Yield → Scope} {es : List Expr} {s : Scope}
    {n : Nat} {ys : List Yield} (h : Chain (fun e _ n y =>
      e.DecidedBy (fun j => Helper.numberedName rule (n + j)) y.action) after es s n ys)
    (i : Nat) :
    DecidedByLast i es (fun j => Helper.numberedName rule (n + j))
      (ys.reverse.findSome? Yield.action) := by
  induction h generalizing i with
  | nil => rfl
  | cons hy _ ih =>
    rw [List.reverse_cons, List.findSome?_append, List.findSome?_singleton]
    refine .cons hy ?_
    have hrest := ih (i + 1)
    simp only [Nat.add_assoc] at hrest
    exact hrest

/-- The action of every result is that of the decider. -/
theorem decidedBy_preserved : Preserved rule limit fun e _ n y =>
    e.DecidedBy (fun j => Helper.numberedName rule (n + j)) y.action where
  leaf he _ := .of_no_decider (by cases he <;> rfl)
  condition he := .of_no_decider (by cases he <;> rfl)
  passes he h := .of_passes he h
  wraps he _ := .of_no_decider (by cases he <;> rfl)
  capture _ := .of_no_decider rfl
  action _ := .action _ _
  sequence h := by
    rw [Yield.action_sequence]
    exact .of_parts rfl rfl (decidedByLast_of_chain h 0)
  choice _ := by
    rw [Yield.action_choice]
    exact .of_no_decider rfl

/-- Display names at the top make no difference to what decides the value. -/
theorem DecidedBy.of_unnamed {e : Expr} (h : e.unnamed.DecidedBy name found) :
    e.DecidedBy name found := by
  fun_induction unnamed e with
  | case1 display e ih => exact .of_passes (.named display e) (ih h)
  | case2 e => exact h

/-- The action of the result of a rule is that of the decider, under the names of the rule. -/
theorem decidedBy_ruleResult {e : Expr} {y : Yield} (h : e.ruleResult rule limit 1 = .ok y) :
    e.DecidedBy (e.ruleHelperName rule) y.action := by
  refine .of_unnamed ?_
  unfold ruleHelperName
  cases htop : e.topAction? with
  | none =>
    rw [ruleResult_of_no_topAction htop] at h
    exact decidedBy_preserved.of_result e.unnamed .empty 1 y h
  | some top =>
    obtain ⟨code, inner⟩ := top
    rw [ruleResult_of_topAction htop] at h
    obtain ⟨z, -, rfl⟩ := Except.map_eq_ok_iff.1 h
    rw [unnamed_eq_action htop]
    exact .action code inner

/-! ## Values -/

/-- What the decider of an expression says of a yield. -/
structure DecidesValue (e : Expr) (name : Nat → String) (y : Yield) : Prop where
  /-- An action decides the value exactly when there is a decider, and it has the name and the code
  of that node. -/
  action : y.action = e.decider?.map fun x => ⟨name (e.codePreorder.idxOf x), x.code⟩
  /-- The helper listed at the place of that node is an action of this name and code. -/
  helper : ∀ x, e.decider? = some x →
    y.helpers[e.codePostorder.idxOf x]?.map Helper.identity =
      some (name (e.codePreorder.idxOf x), .action, x.code)
  /-- The value is what that helper returns, whatever candidates there are. -/
  decided : ∀ x, e.decider? = some x →
    y.valueTypes = [.returnOf (name (e.codePreorder.idxOf x))]
  /-- Without a decider the candidates are the value. -/
  undecided : e.decider? = none → y.valueTypes = y.types

/-- The action and the helpers of an expression decide its value. -/
theorem DecidedBy.decidesValue {e : Expr} {y : Yield} (haction : e.DecidedBy name y.action)
    (hhelpers : e.Allocates name y.helpers) : e.DecidesValue name y where
  action := haction
  helper x hx := by
    obtain ⟨hmem, hkind⟩ := decider?_mem e x hx
    rw [← List.getElem?_map, hhelpers, List.getElem?_map, List.getElem?_idxOf hmem,
      Option.map_some, hkind]
  decided x hx := by
    rw [DecidedBy, hx, Option.map_some] at haction
    exact Yield.valueTypes_of_action haction
  undecided hx := by
    rw [DecidedBy, hx, Option.map_none] at haction
    exact Yield.valueTypes_of_no_action haction

/-- Groups, repetitions and options are made of the value of their part. -/
theorem Wraps.exists_types {cx : RuleContext} {e inner : Expr} {f : List Ty → Ty} {s : Scope}
    {n : Nat} {y : Yield} (he : Wraps e inner f)
    (h : result cx.rule cx.classLimit e s n = .ok y) :
    ∃ z, inner.Yields cx s n z ∧ y.types = [f z.valueTypes] := by
  have hmap : Yield.wrap f <$> result cx.rule cx.classLimit inner s n = .ok y := by
    cases he <;> exact h
  obtain ⟨z, hz, rfl⟩ := Except.map_eq_ok_iff.1 hmap
  exact ⟨z, yields_of_result hz, rfl⟩

/-- The value of an expression is decided by the action that its decider is, under the name and with
the code of that node's helper, or by none if it has no decider; then it is what that helper
returns, and else the candidates. So the exported type of a rule is what the helper of its decider
returns, and else the union of its candidates. A group, a repetition, an option, a capture under a
label and a choice are made of the values of their parts. -/
theorem value_decided :
    (∀ (cx : RuleContext) (e : Expr) (s : Scope) (ledger ledger' : Ledger) (y : Yield),
      (e.derive cx s).runFrom ledger = (.ok y, ledger') →
        e.DecidesValue (fun j => Helper.numberedName cx.rule (ledger.next + j)) y) ∧
    (∀ (options : EmitOptions) (ruleNames : List String) (rule : Rule) (ledger ledger' : Ledger)
      (d : Declaration), (rule.declare options ruleNames).runFrom ledger = (.ok d, ledger') →
        rule.expression.DecidesValue (rule.expression.ruleHelperName rule.name) d.yield ∧
          d.exportedType =
            match rule.expression.decider? with
            | some x => .returnOf
              (rule.expression.ruleHelperName rule.name (rule.expression.codePreorder.idxOf x))
            | none => Ty.unionOf d.yield.types) ∧
    ∀ (cx : RuleContext) (e : Expr) (s : Scope) (ledger ledger' : Ledger) (y : Yield),
      (e.derive cx s).runFrom ledger = (.ok y, ledger') →
        (∀ inner f, Wraps e inner f →
          ∃ z, inner.Yields cx s ledger.next z ∧ y.types = [f z.valueTypes]) ∧
        (∀ label inner, e = .labeled (some label) inner →
          ∃ z, inner.Yields cx s ledger.next z ∧
            y.labels = Scope.empty.bind label z.valueTypes) ∧
        ∀ es, e = .choice es →
          ∃ zs, Chain (Yields cx) unbound es .empty ledger.next zs ∧
            y.types = zs.map fun z => Ty.groupOf z.valueTypes := by
  refine ⟨?_, ?_, ?_⟩
  · intro cx e s ledger ledger' y hrun
    obtain ⟨hresult, -⟩ := (derive_computes cx e s).of_runFrom hrun
    exact (decidedBy_preserved.of_result e s ledger.next y hresult).decidesValue
      (allocates_preserved.of_result e s ledger.next y hresult)
  · intro options ruleNames rule ledger ledger' d hrun
    obtain ⟨y, hresult, rfl⟩ := Rule.exists_of_runFrom_declare hrun
    have hvalue := (decidedBy_ruleResult hresult).decidesValue (allocates_ruleResult hresult)
    refine ⟨hvalue, ?_⟩
    have haction := hvalue.action
    split
    · next x hx =>
      rw [hx, Option.map_some] at haction
      exact Yield.unionType_of_action haction
    · next hx => rw [Declaration.exportedType, Yield.unionType, hvalue.undecided hx]
  · intro cx e s ledger ledger' y hrun
    obtain ⟨hresult, -⟩ := (derive_computes cx e s).of_runFrom hrun
    refine ⟨fun inner f he => he.exists_types hresult, ?_, ?_⟩
    · rintro label inner rfl
      obtain ⟨z, hz, rfl⟩ := Except.map_eq_ok_iff.1 hresult
      exact ⟨z, yields_of_result hz, rfl⟩
    · rintro es rfl
      obtain ⟨zs, hzs, rfl⟩ := exists_of_result_choice hresult
      exact ⟨zs, hzs, Yield.types_choice zs⟩

/-- A sequence with an action before the last one, which stands beneath wrappers that are looked
through. -/
def lastOfTwo : Expr :=
  .sequence [.any, .action "first" .any, .labeled none (.named "n" (.action "second" .any)),
    .literal ";" false]

/-- The second action decides the value of the sequence, of a rule that it is the expression of, and
of a group around it. -/
theorem value_decided_last :
    lastOfTwo.decider? = some ⟨[2, 0, 0], .action, "second"⟩ ∧
    (∃ y ledger', (lastOfTwo.derive ⟨"R", [], 256⟩ .empty).runFrom ⟨1, []⟩ = (.ok y, ledger') ∧
      y.action = some ⟨"peg$parseR$2", "second"⟩ ∧ y.types.length = 3 ∧
      y.valueTypes = [.returnOf "peg$parseR$2"]) ∧
    (∃ d ledger', (Rule.declare {} [] ⟨"R", lastOfTwo⟩).runFrom {} = (.ok d, ledger') ∧
      d.exportedType = .returnOf "peg$parseR$2") ∧
    ∃ y ledger', ((Expr.group lastOfTwo).derive ⟨"R", [], 256⟩ .empty).runFrom ⟨1, []⟩ =
        (.ok y, ledger') ∧
      ∃ z, lastOfTwo.Yields ⟨"R", [], 256⟩ .empty 1 z ∧ y.types = [Ty.groupOf z.valueTypes] := by
  obtain ⟨hexpr, hrule, hparent⟩ := value_decided
  have hdecider : lastOfTwo.decider? = some ⟨[2, 0, 0], .action, "second"⟩ := rfl
  have hplace : lastOfTwo.codePreorder.idxOf ⟨[2, 0, 0], .action, "second"⟩ = 1 := by
    decide +kernel
  refine ⟨hdecider, ⟨_, _, rfl, ?_⟩, ⟨_, _, rfl, ?_⟩, _, _, rfl, ?_⟩
  · have hvalue := hexpr ⟨"R", [], 256⟩ lastOfTwo .empty ⟨1, []⟩ _ _ rfl
    refine ⟨rfl, rfl, (hvalue.decided _ hdecider).trans ?_⟩
    rw [hplace]
    decide +kernel
  · refine (hrule {} [] ⟨"R", lastOfTwo⟩ {} _ _ rfl).2.trans ?_
    simp only [hdecider, hplace]
    decide +kernel
  · exact (hparent ⟨"R", [], 256⟩ (.group lastOfTwo) .empty ⟨1, []⟩ _ _ rfl).1 lastOfTwo _
      (.group lastOfTwo)

end Expr

end GrammarTypes
