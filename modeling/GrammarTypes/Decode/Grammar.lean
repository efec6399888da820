import GrammarTypes.Decode.Decoder

/-!
# Decoding of grammars

A grammar is decoded from a JSON text (`Grammar.ofText`) or from a JSON value (`Grammar.ofValue`),
and what cannot be decoded is a `DecodeError` with the path to it (section 13 of the specification).
A text is read only as far as the end of the grammar in it.
-/

namespace GrammarTypes

open Decode

/-- A syntax tree that cannot be decoded. -/
structure DecodeError where
  /-- The path to the value at fault. -/
  path : String
  /-- What is wrong, and where in a text. -/
  detail : String
  deriving DecidableEq, Repr

/-- The text of the error. -/
def DecodeError.message (e : DecodeError) : String :=
  "invalid grammar AST at JSON path " ++ e.path ++ ": " ++ e.detail

namespace Decode

/-- The error that a failure to decode a source text is reported as. -/
def Failure.report (source : List Char) (f : Failure) : DecodeError :=
  ⟨pathText f.path, f.message source⟩

/-- Reads a thing from the beginning of a text. -/
def Decoder.runText {α : Type} (d : Decoder α) (source : String) : Except DecodeError α :=
  let cs := source.toList
  match d.ofText (Limits.ofText cs) cs with
  | .ok (x, _) => .ok x
  | .error f => .error (f.report cs)

/-- Reads a thing from a value. -/
def Decoder.runValue {α : Type} (d : Decoder α) (v : Json.Value) : Except DecodeError α :=
  (d.ofValue v).mapError (Failure.report [])

/-- A field that a record must have. -/
def needField {α : Type} (key : String) : Option α → Except Cause α
  | some x => .ok x
  | none => .error (.missingField key)

/-! ## Rules -/

/-- The fields of a rule that have been read. -/
structure RuleDraft where
  /-- The name. -/
  name : Option String := none
  /-- What the rule matches. -/
  expression : Option Expr := none

/-- The record of a rule. -/
def ruleRecord : Record RuleDraft Rule where
  name := "Rule"
  fields :=
    [{ key := "name", required := true, filled := fun d => d.name.isSome
       decode := fun d => Decoder.string.map fun x => { d with name := some x } },
     { key := "expression", required := true, filled := fun d => d.expression.isSome
       decode := fun d => Decoder.expression.map fun x => { d with expression := some x } }]
  start := {}
  build d := do
    let name ← needField "name" d.name
    let expression ← needField "expression" d.expression
    return ⟨name, expression⟩

/-! ## Grammars -/

/-- The fields of a grammar that have been read. -/
structure GrammarDraft where
  /-- The code that runs once for the parser, which can be given as absent. -/
  topLevelInitializer : Option (Option Initializer) := none
  /-- The code that runs once for each parse, which can be given as absent. -/
  initializer : Option (Option Initializer) := none
  /-- The rules. -/
  rules : Option (List Rule) := none

/-- The record of a grammar. -/
def grammarRecord : Record GrammarDraft Grammar where
  name := "Grammar"
  fields :=
    [{ key := "topLevelInitializer", required := false
       filled := fun d => d.topLevelInitializer.isSome
       decode := fun d => (Decoder.buffered initializerOf?).map fun x =>
         { d with topLevelInitializer := some x } },
     { key := "initializer", required := false, filled := fun d => d.initializer.isSome
       decode := fun d => (Decoder.buffered initializerOf?).map fun x =>
         { d with initializer := some x } },
     { key := "rules", required := true, filled := fun d => d.rules.isSome
       decode := fun d => (Decoder.list ruleRecord.decoder).map fun x =>
         { d with rules := some x } }]
  start := {}
  build d := do
    let rules ← needField "rules" d.rules
    return ⟨d.topLevelInitializer.getD none, d.initializer.getD none, rules⟩

end Decode

/-- The grammar at the beginning of a JSON text. -/
def Grammar.ofText (source : String) : Except DecodeError Grammar :=
  grammarRecord.decoder.runText source

/-- The grammar that a JSON value is. -/
def Grammar.ofValue (v : Json.Value) : Except DecodeError Grammar :=
  grammarRecord.decoder.runValue v

/-- The expression at the beginning of a JSON text. -/
def Expr.ofText (source : String) : Except DecodeError Expr :=
  Decoder.expression.runText source

/-- The expression that a JSON value is. -/
def Expr.ofValue (v : Json.Value) : Except DecodeError Expr :=
  Decoder.expression.runValue v

/-- The JSON value of a whole text, in which the last of two members with one name wins. -/
def Json.Value.ofText (source : String) : Except DecodeError Json.Value :=
  let cs := source.toList
  match readValue (cs.length + 1) cs.length cs with
  | .ok (v, rest) =>
    match skipBlanks rest with
    | [] => .ok v.distinct
    | rest => .error ((Failure.peek .trailingCharacters rest).report cs)
  | .error f => .error (f.report cs)

end GrammarTypes
