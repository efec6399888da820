import GrammarTypes.Scope

/-!
# What an expression yields

The `Yield` of an expression has its candidate types, the labels it binds, the action that decides
its value, if there is one, and the helper functions that wrap the code met on the way (the type
accumulator of section 3 of the specification). A helper is typed by the labels in scope and its
code is never read.

Every operator begins with a yield of its own and takes over what its parts have: their labels and
helpers by `Yield.absorb`, or by `Yield.absorbHelpers` their helpers alone. The types and the action
of a part stay behind unless the operator makes use of them.
-/

namespace GrammarTypes

/-! ## Helpers -/

/-- What the code of a helper is for. -/
inductive Helper.Kind where
  /-- The code computes a value. -/
  | action
  /-- The code decides whether the match goes on. -/
  | predicate
  deriving DecidableEq, Repr

/-- The word for the kind of a helper. -/
def Helper.Kind.label : Helper.Kind → String
  | .action => "action"
  | .predicate => "predicate"

/-- A function that wraps code of the grammar. -/
structure Helper where
  /-- The name of the function. -/
  name : String
  /-- What its code is for. -/
  kind : Helper.Kind
  /-- The labels that the code sees. -/
  params : Scope
  /-- The code, verbatim. -/
  code : String
  deriving Repr

namespace Helper

/-- The name of the helper of a rule whose value is computed by an action at its top. -/
def ruleName (rule : String) : String :=
  "peg$parse" ++ rule

/-- The name of the `n`-th other helper of a rule. -/
def numberedName (rule : String) (n : Nat) : String :=
  ruleName rule ++ "$" ++ toString n

/-- The declaration of a helper. -/
def render (h : Helper) : String :=
  "function " ++ h.name ++ "(" ++ h.params.params ++ ") \x7b" ++ h.code ++ "\x7d"

end Helper

/-! ## Yields -/

/-- An action that decides a value: its helper and its code. -/
structure Action where
  /-- The name of the helper. -/
  helper : String
  /-- The code, verbatim. -/
  code : String
  deriving DecidableEq, Repr

/-- What an expression yields. -/
structure Yield where
  /-- The candidate types, in grammar order. -/
  types : List Ty := []
  /-- The labels bound. -/
  labels : Scope := .empty
  /-- The action that decides the value. -/
  action : Option Action := none
  /-- The helpers of the expression, each after those beneath it. -/
  helpers : List Helper := []
  deriving Repr, Inhabited

namespace Yield

/-- The yield of an expression with a single type and nothing else. -/
def of (t : Ty) : Yield :=
  { types := [t] }

/-- The candidates that a parent sees: what the deciding action returns, or else all of them. -/
def valueTypes (y : Yield) : List Ty :=
  match y.action with
  | some action => [.returnOf action.helper]
  | none => y.types

/-- The one type that the expression stands for. -/
def unionType (y : Yield) : Ty :=
  Ty.unionOf y.valueTypes

/-- The yield with the labels and helpers of a part taken over. -/
def absorb (y part : Yield) : Yield :=
  { y with labels := y.labels.merge part.labels, helpers := y.helpers ++ part.helpers }

/-- The yield with the helpers of a part taken over and its labels left behind. -/
def absorbHelpers (y part : Yield) : Yield :=
  { y with helpers := y.helpers ++ part.helpers }

/-- The yield with one more helper, which comes after the others. -/
def addHelper (h : Helper) (y : Yield) : Yield :=
  { y with helpers := y.helpers ++ [h] }

/-- A part seen through an operator that makes one type of its candidates. -/
def wrap (f : List Ty → Ty) (y : Yield) : Yield :=
  absorb (of (f y.valueTypes)) y

/-- A part captured under a label: it has no type of its own and only the label escapes. -/
def capture (label : String) (y : Yield) : Yield :=
  absorbHelpers { labels := Scope.empty.bind label y.valueTypes } y

/-- A condition in code, whose helper sees the labels bound before it. -/
def ofPredicate (name code : String) (inherited : Scope) : Yield :=
  (of (.marker .undefined)).addHelper ⟨name, .predicate, inherited, code⟩

/-- A part whose value is computed by an action. The helper of the action sees the labels bound
before the part and those of the part. -/
def underAction (name code : String) (inherited : Scope) (y : Yield) : Yield :=
  (absorb { of (.returnOf name) with action := some ⟨name, code⟩ } y).addHelper
    ⟨name, .action, inherited.merge y.labels, code⟩

/-- The entry that the next element adds to a sequence. An element with an action has none of its
own; it turns the action that decided the value before it into an entry. -/
def entry (decided : Option Action) (y : Yield) : List Ty :=
  match y.action, decided with
  | some _, some previous => [Ty.groupOf [.returnOf previous.helper]]
  | some _, none => []
  | none, _ => if y.types.isEmpty then [] else [Ty.groupOf y.types]

/-- A sequence with one more element. The last action of a sequence decides its value. -/
def append (y next : Yield) : Yield :=
  absorb { y with types := y.types ++ entry y.action next, action := next.action <|> y.action } next

/-- The yield of a sequence of elements. -/
def sequence (elements : List Yield) : Yield :=
  elements.foldl append {}

/-- A choice with one more alternative, which adds a group of its own. -/
def orElse (y next : Yield) : Yield :=
  absorb { y with types := y.types ++ [Ty.groupOf next.valueTypes] } next

/-- The yield of a choice of alternatives. -/
def choice (alternatives : List Yield) : Yield :=
  alternatives.foldl orElse {}

end Yield

end GrammarTypes
