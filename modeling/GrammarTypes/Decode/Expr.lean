import GrammarTypes.Decode.Failure
import GrammarTypes.Grammar

/-!
# Expressions in memory

Decoding of expressions, class parts and initializers from JSON values, by the schema in section 11
of the specification. An expression (`exprOf`) is an object with a `type` member among its fields,
or a list of its tag and its fields in order. Inside another expression a tag can also be the number
of its kind. Members that are no fields are ignored.
-/

namespace GrammarTypes.Decode

open Json (Value)

/-! ## Fields -/

/-- The fields of expressions. -/
inductive Field where
  | code | expression | alternatives | parts | inverted | ignoreCase | label | value | name
  | elements
  deriving DecidableEq, Repr

namespace Field

/-- The name of a field in a syntax tree. -/
def key : Field → String
  | .code => "code"
  | .expression => "expression"
  | .alternatives => "alternatives"
  | .parts => "parts"
  | .inverted => "inverted"
  | .ignoreCase => "ignoreCase"
  | .label => "label"
  | .value => "value"
  | .name => "name"
  | .elements => "elements"

/-- Whether a list of fields can end before the field. -/
def hasDefault : Field → Bool
  | .inverted | .ignoreCase => true
  | _ => false

end Field

/-- The fields of a kind of expression, in order. -/
def fieldsOf : Expr.Kind → List Field
  | .action => [.code, .expression]
  | .any => []
  | .choice => [.alternatives]
  | .charClass => [.parts, .inverted, .ignoreCase]
  | .group => [.expression]
  | .labeled => [.label, .expression]
  | .literal => [.value, .ignoreCase]
  | .named => [.name, .expression]
  | .oneOrMore => [.expression]
  | .optional => [.expression]
  | .ruleRef => [.name]
  | .semanticAnd => [.code]
  | .semanticNot => [.code]
  | .sequence => [.elements]
  | .simpleAnd => [.expression]
  | .simpleNot => [.expression]
  | .text => [.expression]
  | .zeroOrMore => [.expression]

/-- The field of a kind of expression with a name. -/
def field? (kind : Expr.Kind) (key : String) : Option Field :=
  (fieldsOf kind).find? fun f => f.key == key

/-! ## Values of fields -/

/-- A text. -/
def textOf : Value → Except Cause String
  | .string s => .ok s
  | v => .error (.wrongType (.of v) .string)

/-- A truth value. -/
def flagOf : Value → Except Cause Bool
  | .bool b => .ok b
  | v => .error (.wrongType (.of v) .boolean)

/-- A label, which can be absent. -/
def labelOf : Value → Except Cause (Option String)
  | .null => .ok none
  | v => (textOf v).map some

/-- A part of a class: a text, or a list of two. -/
def partOf : Value → Except Cause ClassPart
  | .string s => .ok (.char s)
  | .array [.string lower, .string upper] => .ok (.range lower upper)
  | _ => .error (.noAlternative .classPart)

/-- The parts of a class. -/
def partsOf : Value → Except Cause (List ClassPart)
  | .array vs => vs.mapM partOf
  | v => .error (.wrongType (.of v) .sequence)

/-! ## Drafts -/

/-- The fields of an expression that have been decoded. -/
structure Draft where
  /-- The code of an action or a condition. -/
  code : Option String := none
  /-- The expression beneath. -/
  expression : Option Expr := none
  /-- The alternatives of a choice. -/
  alternatives : Option (List Expr) := none
  /-- The parts of a class. -/
  parts : Option (List ClassPart) := none
  /-- Whether a class is inverted. -/
  inverted : Option Bool := none
  /-- Whether case is ignored. -/
  ignoreCase : Option Bool := none
  /-- The label of a capture, which can be given as absent. -/
  label : Option (Option String) := none
  /-- The text of a literal. -/
  value : Option String := none
  /-- The display name, or the name of the rule referred to. -/
  name : Option String := none
  /-- The elements of a sequence. -/
  elements : Option (List Expr) := none

namespace Draft

/-- Whether a field has been decoded. -/
def has (d : Draft) : Field → Bool
  | .code => d.code.isSome
  | .expression => d.expression.isSome
  | .alternatives => d.alternatives.isSome
  | .parts => d.parts.isSome
  | .inverted => d.inverted.isSome
  | .ignoreCase => d.ignoreCase.isSome
  | .label => d.label.isSome
  | .value => d.value.isSome
  | .name => d.name.isSome
  | .elements => d.elements.isSome

/-- The draft with a field decoded from a value. What the value is as an expression or as a list of
expressions is given, for the fields that hold one. -/
def fill (d : Draft) (f : Field) (v : Value) (asExpr : Unit → Except Cause Expr)
    (asList : Unit → Except Cause (List Expr)) : Except Cause Draft :=
  match f with
  | .code => (textOf v).map fun x => { d with code := some x }
  | .expression => (asExpr ()).map fun x => { d with expression := some x }
  | .alternatives => (asList ()).map fun x => { d with alternatives := some x }
  | .parts => (partsOf v).map fun x => { d with parts := some x }
  | .inverted => (flagOf v).map fun x => { d with inverted := some x }
  | .ignoreCase => (flagOf v).map fun x => { d with ignoreCase := some x }
  | .label => (labelOf v).map fun x => { d with label := some x }
  | .value => (textOf v).map fun x => { d with value := some x }
  | .name => (textOf v).map fun x => { d with name := some x }
  | .elements => (asList ()).map fun x => { d with elements := some x }

/-- A field that an expression must have. -/
def need {α : Type} (f : Field) : Option α → Except Cause α
  | some x => .ok x
  | none => .error (.missingField f.key)

/-- The expression of a kind with the fields of a draft. -/
def build (d : Draft) : Expr.Kind → Except Cause Expr
  | .action => do
    let code ← need .code d.code
    return .action code (← need .expression d.expression)
  | .any => return .any
  | .choice => return .choice (← need .alternatives d.alternatives)
  | .charClass => do
    let parts ← need .parts d.parts
    return .charClass parts (d.inverted.getD false) (d.ignoreCase.getD false)
  | .group => return .group (← need .expression d.expression)
  | .labeled => return .labeled (d.label.getD none) (← need .expression d.expression)
  | .literal => return .literal (← need .value d.value) (d.ignoreCase.getD false)
  | .named => do
    let name ← need .name d.name
    return .named name (← need .expression d.expression)
  | .oneOrMore => return .oneOrMore (← need .expression d.expression)
  | .optional => return .optional (← need .expression d.expression)
  | .ruleRef => return .ruleRef (← need .name d.name)
  | .semanticAnd => return .semanticAnd (← need .code d.code)
  | .semanticNot => return .semanticNot (← need .code d.code)
  | .sequence => return .sequence (← need .elements d.elements)
  | .simpleAnd => return .simpleAnd (← need .expression d.expression)
  | .simpleNot => return .simpleNot (← need .expression d.expression)
  | .text => return .text (← need .expression d.expression)
  | .zeroOrMore => return .zeroOrMore (← need .expression d.expression)

end Draft

/-- Checks that a list of fields can end before the given ones, the first of them at an index. -/
def checkShort (kind : Expr.Kind) : Nat → List Field → Except Cause Unit
  | _, [] => .ok ()
  | index, f :: fs =>
    if f.hasDefault then checkShort kind (index + 1) fs
    else .error (.shortExpression index kind (fieldsOf kind).length)

/-! ## Tags -/

/-- The kind with a tag. -/
def kindOfText (tag : String) : Except Cause Expr.Kind :=
  match Expr.Kind.ofTag? tag with
  | some kind => .ok kind
  | none => .error (.unknownKind tag)

/-- The kind that a value names directly under a rule. -/
def kindOf : Value → Except Cause Expr.Kind
  | .string tag => kindOfText tag
  | v => .error (.wrongType (.of v) .kindTag)

/-- The kind that a value names inside another expression, where its number will do. -/
def innerKindOf : Value → Except Cause Expr.Kind
  | .number (.nat n) =>
    match Expr.Kind.ofNumber? n with
    | some kind => .ok kind
    | none => .error (.unknownNumber n)
  | v => kindOf v

/-- The name of the member that holds the tag. -/
def tagKey : String := "type"

/-- The kind that the members of an object name, with `seen` the kind named before them. -/
def kindOfMembers (seen : Option Expr.Kind) :
    List (String × Value) → Except Cause Expr.Kind
  | [] =>
    match seen with
    | some kind => .ok kind
    | none => .error (.missingField tagKey)
  | (key, v) :: ms =>
    if key = tagKey then
      match seen with
      | some _ => .error (.duplicateField tagKey)
      | none => do
        let kind ← innerKindOf v
        kindOfMembers (some kind) ms
    else kindOfMembers seen ms

/-! ## Expressions -/

mutual

/-- An expression inside another one. -/
def exprOf : Value → Except Cause Expr
  | .object ms => do
    let kind ← kindOfMembers none ms
    let d ← fillMembers kind ms {}
    d.build kind
  | .array [] => .error (.missingField tagKey)
  | .array (tag :: vs) => do
    let kind ← innerKindOf tag
    let d ← fillItems kind vs.length vs 0 (fieldsOf kind) {}
    d.build kind
  | v => .error (.wrongType (.of v) .expression)

/-- A list of expressions. -/
def exprsOf : Value → Except Cause (List Expr)
  | .array vs => exprList vs
  | v => .error (.wrongType (.of v) .sequence)

/-- The expressions of a list of values. -/
def exprList : List Value → Except Cause (List Expr)
  | [] => .ok []
  | v :: vs => do
    let e ← exprOf v
    let es ← exprList vs
    return e :: es

/-- A draft filled from the members of an object, in order. -/
def fillMembers (kind : Expr.Kind) : List (String × Value) → Draft → Except Cause Draft
  | [], d => .ok d
  | (key, v) :: ms, d =>
    match field? kind key with
    | none => fillMembers kind ms d
    | some f =>
      if d.has f then .error (.duplicateField f.key)
      else do
        let d ← d.fill f v (fun _ => exprOf v) (fun _ => exprsOf v)
        fillMembers kind ms d

/-- A draft filled from the items of a list, in order: `given` items in all, of which those from an
index on and their fields are left. -/
def fillItems (kind : Expr.Kind) (given : Nat) :
    List Value → Nat → List Field → Draft → Except Cause Draft
  | [], index, fs, d => do
    checkShort kind index fs
    return d
  | _ :: _, _, [], _ => .error (.longExpression given (fieldsOf kind).length)
  | v :: vs, index, f :: fs, d => do
    let d ← d.fill f v (fun _ => exprOf v) (fun _ => exprsOf v)
    fillItems kind given vs (index + 1) fs d

end

/-- What an expression has besides its tag. -/
inductive Body where
  /-- The members of an object. -/
  | members (ms : List (String × Value))
  /-- The items of a list after the tag. -/
  | items (vs : List Value)

/-- The expression of a kind with a body. -/
def exprOfBody (kind : Expr.Kind) : Body → Except Cause Expr
  | .members ms => do
    let d ← fillMembers kind ms {}
    d.build kind
  | .items vs => do
    let d ← fillItems kind vs.length vs 0 (fieldsOf kind) {}
    d.build kind

/-! ## Initializers -/

/-- The code of a block: the only `code` member of an object, or the only item of a list. -/
def blockOf? : Value → Option String
  | .object ms =>
    match ms.filter fun m => m.1 == "code" with
    | [(_, .string code)] => some code
    | _ => none
  | .array [.string code] => some code
  | _ => none

/-- An initializer: a block, or else a list of blocks. -/
def initializerOf (v : Value) : Except Cause Initializer :=
  match blockOf? v with
  | some code => .ok (.one code)
  | none =>
    match v with
    | .array vs =>
      match vs.mapM blockOf? with
      | some codes => .ok (.many codes)
      | none => .error (.noAlternative .initializer)
    | _ => .error (.noAlternative .initializer)

/-- An initializer, which can be absent. -/
def initializerOf? : Value → Except Cause (Option Initializer)
  | .null => .ok none
  | v => (initializerOf v).map some

end GrammarTypes.Decode
