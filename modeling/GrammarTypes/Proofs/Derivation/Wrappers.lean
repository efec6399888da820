import GrammarTypes.Proofs.Derivation.Induction
import GrammarTypes.Proofs.Expr.Nodes

/-!
# Transparent wrappers

A display name and a capture without a label stand around an expression and say nothing of its
types. `Expr.bare` takes them away at every depth, wherever they stand: between a sequence and the
action that decides its value, around a capture with a label, or above an alternative. The
derivation of what is left is the same derivation (`Expr.derive_bare`), step by step and with the
same log, so that no ledger tells the two apart.

The expression of a rule is looked at once more before it is derived, for an action at its top takes
the name of the rule. Display names are passed over there as well, and without them the rule is the
same (`Expr.deriveRule_nameless`). A capture without a label hides the action.
-/

namespace GrammarTypes

namespace Expr

/-! ## Expressions without wrappers -/

mutual

/-- The expression without its display names and, if `captures` says so, without its captures that
have no label. What such a node stands around takes its place, at every depth. -/
def bare (captures : Bool) : Expr → Expr
  | .action code e => .action code (bare captures e)
  | .any => .any
  | .choice es => .choice (bareAll captures es)
  | .charClass parts inverted ignoreCase => .charClass parts inverted ignoreCase
  | .group e => .group (bare captures e)
  | .labeled none e => if captures then bare captures e else .labeled none (bare captures e)
  | .labeled (some label) e => .labeled (some label) (bare captures e)
  | .literal value ignoreCase => .literal value ignoreCase
  | .named _ e => bare captures e
  | .oneOrMore e => .oneOrMore (bare captures e)
  | .optional e => .optional (bare captures e)
  | .ruleRef name => .ruleRef name
  | .semanticAnd code => .semanticAnd code
  | .semanticNot code => .semanticNot code
  | .sequence es => .sequence (bareAll captures es)
  | .simpleAnd e => .simpleAnd (bare captures e)
  | .simpleNot e => .simpleNot (bare captures e)
  | .text e => .text (bare captures e)
  | .zeroOrMore e => .zeroOrMore (bare captures e)

/-- Several expressions without their wrappers. -/
def bareAll (captures : Bool) : List Expr → List Expr
  | [] => []
  | e :: es => bare captures e :: bareAll captures es

end

/-- The expression without display names and without captures that have no label. -/
def unwrapped (e : Expr) : Expr := e.bare true

/-- The expression without display names. -/
def nameless (e : Expr) : Expr := e.bare false

/-! ## No wrapper is left -/

/-- The expressions that an expression is made of, also those that a derivation does not look
into. -/
def children : Expr → List Expr
  | .text e | .simpleAnd e | .simpleNot e => [e]
  | e => e.parts

/-- The expression is another or stands inside it, at any depth. -/
inductive Inside (x : Expr) : Expr → Prop
  | self : Inside x x
  | child {c e : Expr} : c ∈ e.children → Inside x c → Inside x e

/-- The expressions of a list without wrappers come from those of the list. -/
theorem mem_bareAll {captures : Bool} {c : Expr} {es : List Expr} (h : c ∈ bareAll captures es) :
    ∃ e, c = bare captures e := by
  induction es with
  | nil => exact nomatch h
  | cons e es ih =>
    rcases List.mem_cons.1 h with rfl | h
    · exact ⟨e, rfl⟩
    · exact ih h

/-- What an expression without wrappers is made of has none either. -/
theorem mem_children_bare (captures : Bool) (c : Expr) : ∀ e : Expr,
    c ∈ (bare captures e).children → ∃ d, c = bare captures d
  | .named _ e, h => mem_children_bare captures c e h
  | .labeled none e, h => by
    rw [bare] at h
    split at h
    · exact mem_children_bare captures c e h
    · exact ⟨e, List.mem_singleton.1 h⟩
  | .action _ e, h | .group e, h | .labeled (some _) e, h | .oneOrMore e, h | .optional e, h
  | .simpleAnd e, h | .simpleNot e, h | .text e, h | .zeroOrMore e, h =>
    ⟨e, List.mem_singleton.1 h⟩
  | .choice es, h | .sequence es, h => mem_bareAll h
  | .any, h | .charClass .., h | .literal .., h | .ruleRef _, h | .semanticAnd _, h
  | .semanticNot _, h => nomatch h

/-- An expression without wrappers has no display name at its top. -/
theorem kind_bare_ne_named (captures : Bool) : ∀ e : Expr, (bare captures e).kind ≠ .named
  | .named _ e => kind_bare_ne_named captures e
  | .labeled none e => by
    rw [bare]
    split
    · exact kind_bare_ne_named captures e
    · exact nofun
  | .action .. | .group _ | .labeled (some _) _ | .oneOrMore _ | .optional _ | .simpleAnd _
  | .simpleNot _ | .text _ | .zeroOrMore _ | .choice _ | .sequence _ | .any | .charClass ..
  | .literal .. | .ruleRef _ | .semanticAnd _ | .semanticNot _ => nofun

/-- An expression without wrappers is none. -/
theorem not_passes_unwrapped : ∀ e inner : Expr, ¬ Passes e.unwrapped inner
  | .named _ e, inner => not_passes_unwrapped e inner
  | .labeled none e, inner => not_passes_unwrapped e inner
  | .action .., _ | .group _, _ | .labeled (some _) _, _ | .oneOrMore _, _ | .optional _, _
  | .simpleAnd _, _ | .simpleNot _, _ | .text _, _ | .zeroOrMore _, _ | .choice _, _
  | .sequence _, _ | .any, _ | .charClass .., _ | .literal .., _ | .ruleRef _, _
  | .semanticAnd _, _ | .semanticNot _, _ => nofun

/-- Whatever stands inside an expression without wrappers has none. -/
theorem Inside.exists_bare {captures : Bool} {x y : Expr} (h : x.Inside y) :
    (∃ e, y = bare captures e) → ∃ d, x = bare captures d := by
  induction h with
  | self => exact id
  | child hc _ ih =>
    rintro ⟨e, rfl⟩
    exact ih (mem_children_bare captures _ e hc)

/-! ## Derivations -/

mutual

/-- An expression and what is left of it without wrappers have the same derivation. -/
theorem derive_bare (cx : RuleContext) (captures : Bool) : ∀ (e : Expr) (s : Scope),
    (bare captures e).derive cx s = e.derive cx s
  | .any, _ | .charClass .., _ | .literal .., _ | .ruleRef _, _ | .semanticAnd _, _
  | .semanticNot _, _ | .simpleAnd _, _ | .simpleNot _, _ | .text _, _ => rfl
  | .named _ e, s => derive_bare cx captures e s
  | .labeled none e, s => by
    have hpart : (bare captures e).derive cx s = e.derive cx s := derive_bare cx captures e s
    rw [bare]
    split
    · exact hpart
    · exact hpart
  | .group e, s => congrArg (_ <$> ·) (derive_bare cx captures e s)
  | .labeled (some _) e, s => congrArg (_ <$> ·) (derive_bare cx captures e s)
  | .zeroOrMore e, s => congrArg (_ <$> ·) (derive_bare cx captures e s)
  | .oneOrMore e, s => congrArg (_ <$> ·) (derive_bare cx captures e s)
  | .optional e, s => congrArg (_ <$> ·) (derive_bare cx captures e s)
  | .action code e, s => by
    rw [bare, derive, derive, derive_bare cx captures e s]
  | .sequence es, s => congrArg (_ <$> ·) (deriveElements_bareAll cx captures es s .empty)
  | .choice es, _ => congrArg (_ <$> ·) (deriveAlternatives_bareAll cx captures es .empty)

/-- The elements of a sequence have the same derivation without wrappers. -/
theorem deriveElements_bareAll (cx : RuleContext) (captures : Bool) :
    ∀ (es : List Expr) (s collected : Scope),
      deriveElements cx (bareAll captures es) s collected = deriveElements cx es s collected
  | [], _, _ => rfl
  | e :: es, s, collected => by
    have hrest := deriveElements_bareAll cx captures es
    rw [bareAll, deriveElements, deriveElements, derive_bare cx captures e s]
    -- The rest is derived in a scope that only the run of the first element knows.
    simp only [hrest]

/-- The alternatives of a choice have the same derivation without wrappers. -/
theorem deriveAlternatives_bareAll (cx : RuleContext) (captures : Bool) :
    ∀ (es : List Expr) (collected : Scope),
      deriveAlternatives cx (bareAll captures es) collected = deriveAlternatives cx es collected
  | [], _ => rfl
  | e :: es, collected => by
    have hrest := deriveAlternatives_bareAll cx captures es
    rw [bareAll, deriveAlternatives, deriveAlternatives, derive_bare cx captures e .empty]
    simp only [hrest]

end

/-! ## Rules -/

/-- A rule has the same derivation without display names. -/
theorem deriveRule_nameless (cx : RuleContext) (e : Expr) :
    e.nameless.deriveRule cx = e.deriveRule cx := by
  fun_induction unnamed e with
  | case1 display e ih => exact ih
  | case2 e hnamed =>
    cases e with
    | named display e => exact absurd rfl (hnamed display e)
    -- An action stays at the top, and its part is derived in the empty scope.
    | action code inner =>
      have hinner : inner.nameless.derive cx .empty = inner.derive cx .empty :=
        derive_bare cx false inner .empty
      exact congrArg (· >>= cx.action (Helper.ruleName cx.rule) code .empty) hinner
    | labeled label inner => cases label <;> exact derive_bare cx false (.labeled _ inner) .empty
    | _ => exact derive_bare cx false _ .empty

/-- Display names and captures without a label are transparent. Without them at any depth, an
expression runs as before in every scope and from every ledger: with the same error or yield, the
same numbers and the same log. So does the expression of a rule without display names. -/
theorem wrappers_transparent (cx : RuleContext) (e : Expr) :
    (∀ s ledger, (e.unwrapped.derive cx s).runFrom ledger = (e.derive cx s).runFrom ledger) ∧
    (∀ x inner, x.Inside e.unwrapped → ¬ Passes x inner) ∧
    (∀ ledger, (e.nameless.deriveRule cx).runFrom ledger = (e.deriveRule cx).runFrom ledger) ∧
    ∀ x : Expr, x.Inside e.nameless → x.kind ≠ .named := by
  refine ⟨fun s ledger => ?_, fun x inner hx => ?_, fun ledger => ?_, fun x hx => ?_⟩
  · rw [unwrapped, derive_bare]
  · obtain ⟨d, rfl⟩ := hx.exists_bare ⟨e, rfl⟩
    exact not_passes_unwrapped d inner
  · rw [deriveRule_nameless]
  · obtain ⟨d, rfl⟩ := hx.exists_bare ⟨e, rfl⟩
    exact kind_bare_ne_named false d

/-- A capture without a label at the top of a rule is not transparent to the rule: beneath it an
action takes a number in place of the rule's name. -/
example :
    ((Expr.labeled none (.action "code" .any)).deriveRule ⟨"R", [], 256⟩).outcome.1.toOption.map
        (fun y => y.helpers.map Helper.name) = some ["peg$parseR$1"] ∧
      ((Expr.labeled none (.action "code" .any)).unwrapped.deriveRule
        ⟨"R", [], 256⟩).outcome.1.toOption.map (fun y => y.helpers.map Helper.name) =
          some ["peg$parseR"] := by
  decide +kernel

end Expr

end GrammarTypes
