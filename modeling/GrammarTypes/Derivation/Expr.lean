import GrammarTypes.CharClass
import GrammarTypes.Derivation.Basic

/-!
# The types of an expression

`Expr.derive` walks an expression bottom up and computes what it yields, with a case for each kind
(the table in section 4.1 of the specification), and `Expr.deriveRule` begins a rule. References to
rules stay symbolic, so recursive grammars need no care. Labels bound in a sequence are visible to
the code of the elements that follow; an alternative of a choice starts without labels.
-/

namespace GrammarTypes

/-- What the derivation of a rule is given. -/
structure RuleContext where
  /-- The name of the rule. -/
  rule : String
  /-- The names of all rules of the grammar. -/
  ruleNames : List String
  /-- The largest number of texts that a character class is expanded to. -/
  classLimit : Nat
  deriving Repr

namespace RuleContext

open GrammarTypes.Derivation

/-- Warns of a reference to a rule that the grammar does not have. -/
def checkReference (cx : RuleContext) (name : String) : Derivation Unit :=
  if cx.ruleNames.contains name then pure () else note [.danglingReference cx.rule name]

/-- The type of a character class, or the failure of the rule at a malformed range. -/
def classType (cx : RuleContext) (parts : List ClassPart) (inverted ignoreCase : Bool) :
    Derivation Ty :=
  match CharClass.type cx.classLimit parts inverted ignoreCase with
  | .ok t => pure t
  | .error (lower, upper) => throw ⟨cx.rule, lower, upper⟩

/-- The yield of a condition in code: a helper that sees the labels bound before it. -/
def predicate (cx : RuleContext) (code : String) (inherited : Scope) : Derivation Yield := do
  let name ← takeName cx.rule
  return .ofPredicate name code inherited

/-- The yield of an action under a name, from the yield of its expression. -/
def action (cx : RuleContext) (name code : String) (inherited : Scope) (inner : Yield) :
    Derivation Yield := do
  noteClashes inherited inner.labels
  note [.actionWrapped cx.rule name (inherited.merge inner.labels).params]
  return inner.underAction name code inherited

end RuleContext

namespace Expr

open GrammarTypes.Derivation

mutual

/-- What an expression yields when the given labels were bound before it. -/
def derive (cx : RuleContext) : Expr → Scope → Derivation Yield
  | .any, _ => pure (.of .text)
  | .text _, _ => pure (.of .text)
  | .literal value ignoreCase, _ => pure (.of (if ignoreCase then .text else .literal value))
  | .charClass parts inverted ignoreCase, _ => Yield.of <$> cx.classType parts inverted ignoreCase
  | .sequence elements, inherited =>
    Yield.sequence <$> deriveElements cx elements inherited .empty
  | .choice alternatives, _ => Yield.choice <$> deriveAlternatives cx alternatives .empty
  | .group e, inherited => Yield.wrap Ty.groupOf <$> derive cx e inherited
  | .labeled none e, inherited => derive cx e inherited
  | .labeled (some label) e, inherited => Yield.capture label <$> derive cx e inherited
  | .named _ e, inherited => derive cx e inherited
  | .zeroOrMore e, inherited =>
    Yield.wrap (fun ts => .array (Ty.itemOf ts [.marker .never])) <$> derive cx e inherited
  | .oneOrMore e, inherited =>
    Yield.wrap (fun ts => .array (Ty.itemOf ts [])) <$> derive cx e inherited
  | .optional e, inherited =>
    Yield.wrap (fun ts => Ty.unionOf [Ty.groupOf ts, .marker .null]) <$> derive cx e inherited
  | .ruleRef name, _ => do
    cx.checkReference name
    return .of (.ruleRef name)
  | .semanticAnd code, inherited => cx.predicate code inherited
  | .semanticNot code, inherited => cx.predicate code inherited
  | .simpleAnd _, _ => pure (.of (.marker .void))
  | .simpleNot _, _ => pure (.of (.marker .void))
  | .action code e, inherited => do
    let name ← takeName cx.rule
    let inner ← derive cx e inherited
    cx.action name code inherited inner

/-- What the elements of a sequence yield, each in the scope that those before it leave. The labels
collected from the elements are carried along for the log. -/
def deriveElements (cx : RuleContext) : List Expr → Scope → Scope → Derivation (List Yield)
  | [], _, _ => pure []
  | e :: es, scope, collected => do
    let y ← derive cx e scope
    noteClashes scope y.labels
    noteClashes collected y.labels
    let ys ← deriveElements cx es (scope.merge y.labels) (collected.merge y.labels)
    return y :: ys

/-- What the alternatives of a choice yield, each in the empty scope. -/
def deriveAlternatives (cx : RuleContext) : List Expr → Scope → Derivation (List Yield)
  | [], _ => pure []
  | e :: es, collected => do
    let y ← derive cx e .empty
    noteClashes collected y.labels
    let ys ← deriveAlternatives cx es (collected.merge y.labels)
    return y :: ys

end

/-- What the expression of a whole rule yields. An action at its top, display names aside, takes the
name of the rule's own helper in place of a number. -/
def deriveRule (cx : RuleContext) (e : Expr) : Derivation Yield :=
  match e.unnamed with
  | .action code inner => do
    let y ← inner.derive cx .empty
    cx.action (Helper.ruleName cx.rule) code .empty y
  | other => other.derive cx .empty

end Expr

end GrammarTypes
