import GrammarTypes.Yield

/-!
# Declarations of rules

A rule is declared by an exported type and the helper functions that carry its code
(`Declaration.render`, section 4.2 of the specification). The helper whose return type is the rule's
value comes first. `Declaration.summary` is what an inspection shows of the same rule.
-/

namespace GrammarTypes

/-- What is derived for a rule, ready to be written. -/
structure Declaration where
  /-- The name of the rule. -/
  name : String
  /-- What its expression yields. -/
  yield : Yield
  deriving Repr

/-- A helper as a summary shows it. -/
structure HelperSummary where
  /-- The name of the function. -/
  name : String
  /-- What its code is for. -/
  kind : Helper.Kind
  /-- Its declaration. -/
  declaration : String
  deriving DecidableEq, Repr

/-- A view of what was derived for a rule. -/
structure Summary where
  /-- The name of the rule. -/
  name : String
  /-- The exported type. -/
  exportedType : String
  /-- The candidate types. -/
  candidates : List String
  /-- The labels with their candidates. -/
  labels : List (String × List String)
  /-- Whether an action decides the value. -/
  action : Bool
  /-- The helpers as they are written. -/
  helpers : List HelperSummary
  deriving DecidableEq, Repr

/-- The summary of a helper. -/
def Helper.summary (h : Helper) : HelperSummary :=
  ⟨h.name, h.kind, h.render⟩

namespace Declaration

/-- Whether an action decides the rule's value. -/
def hasAction (d : Declaration) : Bool :=
  d.yield.action.isSome

/-- The exported type of the rule. -/
def exportedType (d : Declaration) : Ty :=
  d.yield.unionType

/-- The helper whose return type is the rule's value. -/
def ruleHelper? (d : Declaration) : Option Helper :=
  d.yield.action.bind fun action => d.yield.helpers.find? fun h => h.name == action.helper

/-- The other helpers, in order. -/
def nestedHelpers (d : Declaration) : List Helper :=
  d.yield.helpers.filter fun h => d.yield.action.map Action.helper != some h.name

/-- The text of the declaration: the exported type, the helper that decides the value if there is
one, then the other helpers, a line each. -/
def render (d : Declaration) : String :=
  let first :=
    match d.ruleHelper? with
    | some h => h.render ++ "\n"
    | none => ""
  let others := d.nestedHelpers.map fun h => h.render ++ "\n"
  "export type " ++ d.name ++ " = " ++ d.exportedType.render ++ ";\n" ++ first ++
    String.join others

/-- The summary of the declaration. -/
def summary (d : Declaration) : Summary where
  name := d.name
  exportedType := d.exportedType.render
  candidates := d.yield.types.map Ty.render
  labels := d.yield.labels.bindings.map fun b => (b.1, b.2.map Ty.render)
  action := d.hasAction
  helpers := (d.ruleHelper?.toList ++ d.nestedHelpers).map Helper.summary

end Declaration

end GrammarTypes
