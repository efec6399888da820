import GrammarTypes.Ty.Render

/-!
# Label scopes

A `Scope` holds the labels that action code can see, in the order in which they were first bound,
each with the list of its candidate types (the label scope of section 2 of the specification).
Binding a label again adds the candidates it does not have yet, so that alternatives which reuse a
label end up with one parameter. `Scope.merge` binds the labels of one scope in another, and
`Scope.params` writes a scope as the parameters of a helper.
-/

namespace GrammarTypes

/-- Labels with their candidate types, in order of first binding. -/
structure Scope where
  /-- Each label with its candidates. -/
  bindings : List (String × List Ty) := []
  deriving Repr, Inhabited

namespace Scope

/-- The scope without labels. -/
def empty : Scope := {}

/-- The labels in order. -/
def names (s : Scope) : List String :=
  s.bindings.map Prod.fst

/-- The candidates of a label. -/
def get? (s : Scope) (name : String) : Option (List Ty) :=
  s.bindings.lookup name

/-- The candidates that a list of types stands for: `unknown` when it is empty. -/
def candidates (types : List Ty) : List Ty :=
  if types.isEmpty then [.unknown] else types

/-- A candidate list followed by the types it does not hold yet, each once. -/
def addUnseen (old new : List Ty) : List Ty :=
  old ++ (new.filter fun t => !old.contains t).eraseDups

/-- Bindings with further candidates for one label: a known label keeps its place, and a new one
comes last. -/
def bindIn (name : String) (types : List Ty) : List (String × List Ty) → List (String × List Ty)
  | [] => [(name, types)]
  | (n, old) :: rest =>
    if n = name then (n, addUnseen old types) :: rest else (n, old) :: bindIn name types rest

/-- The scope with a label bound to a list of candidates. -/
def bind (s : Scope) (name : String) (types : List Ty) : Scope :=
  ⟨bindIn name (candidates types) s.bindings⟩

/-- The scope with the bindings of another made after its own. -/
def merge (s other : Scope) : Scope :=
  other.bindings.foldl (fun s b => s.bind b.1 b.2) s

/-- The labels of the second scope that the first one has too: those that a merge binds again. -/
def clashes (s other : Scope) : List String :=
  other.names.filter fun name => s.names.contains name

/-- The type of the parameter that a label becomes: the union of its candidates. -/
def typeOf? (s : Scope) (name : String) : Option Ty :=
  (s.get? name).map Ty.unionOf

/-- The parameter list that the labels become. -/
def params (s : Scope) : String :=
  ", ".intercalate (s.bindings.map fun b => b.1 ++ ": " ++ (Ty.unionOf b.2).render)

/-- Whether two scopes have the same labels, in any order, with the same candidates in order. -/
def agrees (s other : Scope) : Bool :=
  s.bindings.length == other.bindings.length &&
    s.bindings.all fun b => other.get? b.1 == some b.2

end Scope

end GrammarTypes
