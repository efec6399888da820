import GrammarTypes.Decimal.Notation
import GrammarTypes.Expr
import GrammarTypes.Json.Value
import GrammarTypes.Text.Quoted

/-!
# Failures of decoding

Why a syntax tree cannot be decoded (`Cause`), where in the document the culprit is, and where in
the text the reader stood (`Place`). A reader of a text knows its place only once the container
around it is left, so a place can be open; the nearest container settles it. `Failure.message` is
the text of a failure.
-/

namespace GrammarTypes.Decode

/-! ## Causes -/

/-- What is wrong with a text that is not JSON. -/
inductive SyntaxError where
  | endInValue | endInString | endInList | endInObject
  | expectedValue | expectedWord | expectedColon | expectedItemEnd | expectedMemberEnd
  | keyNotString | trailingComma | trailingCharacters
  | invalidNumber | numberOutOfRange | invalidEscape | controlCharacter
  | loneSurrogate | missingSurrogate | tooDeep
  deriving DecidableEq, Repr

/-- The text of a syntax error. -/
def SyntaxError.message : SyntaxError → String
  | .endInValue => "EOF while parsing a value"
  | .endInString => "EOF while parsing a string"
  | .endInList => "EOF while parsing a list"
  | .endInObject => "EOF while parsing an object"
  | .expectedValue => "expected value"
  | .expectedWord => "expected ident"
  | .expectedColon => "expected `:`"
  | .expectedItemEnd => "expected `,` or `]`"
  | .expectedMemberEnd => "expected `,` or `\x7d`"
  | .keyNotString => "key must be a string"
  | .trailingComma => "trailing comma"
  | .trailingCharacters => "trailing characters"
  | .invalidNumber => "invalid number"
  | .numberOutOfRange => "number out of range"
  | .invalidEscape => "invalid escape"
  | .controlCharacter => "control character (\\u0000-\\u001F) found while parsing a string"
  | .loneSurrogate => "lone leading surrogate in hex escape"
  | .missingSurrogate => "unexpected end of hex escape"
  | .tooDeep => "recursion limit exceeded"

/-- What was found in place of something else. -/
inductive Found where
  | null
  | bool (b : Bool)
  | number (n : Json.Number)
  | string (s : String)
  | sequence
  | map
  deriving DecidableEq, Repr

namespace Found

/-- What a value is, seen as a culprit. -/
def of : Json.Value → Found
  | .null => .null
  | .bool b => .bool b
  | .number n => .number n
  | .string s => .string s
  | .array _ => .sequence
  | .object _ => .map

/-- The name of what was found. -/
def message : Found → String
  | .null => "null"
  | .bool true => "boolean `true`"
  | .bool false => "boolean `false`"
  | .number (.nat n) => "integer `" ++ toString n ++ "`"
  | .number (.negative n) => "integer `-" ++ toString n ++ "`"
  | .number (.float x) => "floating point `" ++ x.render ++ "`"
  | .string s => "string " ++ Text.quoted s
  | .sequence => "sequence"
  | .map => "map"

end Found

/-- What was expected. -/
inductive Expected where
  /-- A text. -/
  | string
  /-- A list. -/
  | sequence
  /-- A truth value. -/
  | boolean
  /-- The tag of a kind of expression. -/
  | kindTag
  /-- An expression. -/
  | expression
  /-- A record. -/
  | record (name : String)
  deriving DecidableEq, Repr

/-- The name of what was expected. -/
def Expected.message : Expected → String
  | .string => "a string"
  | .sequence => "a sequence"
  | .boolean => "a boolean"
  | .kindTag => "variant identifier"
  | .expression => "internally tagged enum Expression"
  | .record name => "struct " ++ name

/-- The values that can be written in more than one form. -/
inductive Alternatives where
  | initializer | classPart
  deriving DecidableEq, Repr

/-- The name of such a value. -/
def Alternatives.label : Alternatives → String
  | .initializer => "Initializers"
  | .classPart => "ClassPart"

/-- The name that a message has for a kind of expression. -/
def variantName : Expr.Kind → String
  | .action => "Action"
  | .any => "Any"
  | .choice => "Choice"
  | .charClass => "Class"
  | .group => "Group"
  | .labeled => "Labeled"
  | .literal => "Literal"
  | .named => "Named"
  | .oneOrMore => "OneOrMore"
  | .optional => "Optional"
  | .ruleRef => "RuleRef"
  | .semanticAnd => "SemanticAnd"
  | .semanticNot => "SemanticNot"
  | .sequence => "Sequence"
  | .simpleAnd => "SimpleAnd"
  | .simpleNot => "SimpleNot"
  | .text => "Text"
  | .zeroOrMore => "ZeroOrMore"

/-- A number of elements. -/
def elementsText (n : Nat) : String :=
  toString n ++ if n = 1 then " element" else " elements"

/-- Why decoding failed. -/
inductive Cause where
  /-- The text is not JSON. -/
  | malformed (e : SyntaxError)
  /-- A value is of the wrong type. -/
  | wrongType (found : Found) (expected : Expected)
  /-- A record lacks a field. -/
  | missingField (name : String)
  /-- A record has a field twice. -/
  | duplicateField (name : String)
  /-- A record written as a list lacks the element at an index. -/
  | shortRecord (index : Nat) (name : String) (size : Nat)
  /-- A record written as a list has too many elements. -/
  | longRecord (length : Nat)
  /-- An expression written as a list lacks the element at an index. -/
  | shortExpression (index : Nat) (kind : Expr.Kind) (size : Nat)
  /-- An expression written as a list has too many elements. -/
  | longExpression (length size : Nat)
  /-- No kind of expression has the tag. -/
  | unknownKind (tag : String)
  /-- No kind of expression has the number. -/
  | unknownNumber (n : Nat)
  /-- A value fits none of its forms. -/
  | noAlternative (of : Alternatives)
  deriving DecidableEq, Repr

/-- The text of a cause. -/
def Cause.message : Cause → String
  | .malformed e => e.message
  | .wrongType found expected =>
    "invalid type: " ++ found.message ++ ", expected " ++ expected.message
  | .missingField name => "missing field `" ++ name ++ "`"
  | .duplicateField name => "duplicate field `" ++ name ++ "`"
  | .shortRecord index name size =>
    "invalid length " ++ toString index ++ ", expected struct " ++ name ++ " with " ++
      elementsText size
  | .longRecord length =>
    "invalid length " ++ toString length ++ ", expected fewer elements in array"
  | .shortExpression index kind size =>
    "invalid length " ++ toString index ++ ", expected struct variant Expression::" ++
      variantName kind ++ " with " ++ elementsText size
  | .longExpression length size =>
    "invalid length " ++ toString length ++ ", expected " ++ elementsText size ++ " in sequence"
  | .unknownKind tag =>
    "unknown variant `" ++ tag ++ "`, expected one of " ++
      ", ".intercalate (Expr.Kind.all.map fun k => "`" ++ k.tag ++ "`")
  | .unknownNumber n =>
    "invalid value: integer `" ++ toString n ++ "`, expected variant index 0 <= i < 18"
  | .noAlternative kind =>
    "data did not match any variant of untagged enum " ++ kind.label

/-! ## Paths -/

/-- A step from a value to one inside it. -/
inductive Segment where
  /-- To a member of an object. -/
  | key (name : String)
  /-- To an item of an array. -/
  | index (i : Nat)
  /-- To a member whose name cannot be read. -/
  | unreadable
  deriving DecidableEq, Repr

/-- The text of a path from the point where something precedes it or not. -/
def pathTail (first : Bool) : List Segment → String
  | [] => ""
  | .key name :: rest => (if first then "" else ".") ++ name ++ pathTail false rest
  | .index i :: rest => "[" ++ toString i ++ "]" ++ pathTail false rest
  | .unreadable :: rest => (if first then "" else ".") ++ "?" ++ pathTail false rest

/-- The text of a path. -/
def pathText (path : List Segment) : String :=
  if path.isEmpty then "." else pathTail true path

/-! ## Places -/

/-- Where in a text a failure was noticed. -/
inductive Place where
  /-- Not in a text. -/
  | nowhere
  /-- Before the given rest of the text, or where the container around it ends if that is next. -/
  | before (rest : List Char)
  /-- A number of bytes past the beginning of the given rest of the text. -/
  | at (rest : List Char) (ahead : Nat)
  deriving DecidableEq, Repr

/-- The number of bytes of a text. -/
def byteCount (cs : List Char) : Nat :=
  cs.foldr (fun c n => c.utf8Size + n) 0

/-- The line of a byte of a text and its column in it, counted from a line and the bytes left to it.
A newline before it begins a line whose first byte has column one. -/
def lineColumn (line column : Nat) : Nat → List Char → Nat × Nat
  | _, [] => (line, column)
  | left, c :: cs =>
    if left = 0 then (line, column)
    else if c = '\n' then lineColumn (line + 1) 0 (left - 1) cs
    else
      let taken := min left c.utf8Size
      lineColumn line (column + taken) (left - taken) cs

/-- The end of a message that says where in a text a failure was noticed. -/
def Place.message (source : List Char) : Place → String
  | .nowhere | .before _ => ""
  | .at rest ahead =>
    let total := byteCount source
    let (line, column) := lineColumn 1 0 (min total (total - byteCount rest + ahead)) source
    " at line " ++ toString line ++ " column " ++ toString column

/-! ## Failures -/

/-- A failure of decoding. -/
structure Failure where
  /-- Why. -/
  cause : Cause
  /-- The path to the value at fault. -/
  path : List Segment := []
  /-- The place in the text. -/
  place : Place := .nowhere
  deriving DecidableEq, Repr

namespace Failure

/-- The failure seen from one step further out. -/
def inside (step : Segment) (f : Failure) : Failure :=
  { f with path := step :: f.path }

/-- A syntax error before the given rest of a text. -/
def here (e : SyntaxError) (rest : List Char) : Failure :=
  { cause := .malformed e, place := .at rest 0 }

/-- A syntax error at the next byte of a text. -/
def peek (e : SyntaxError) (rest : List Char) : Failure :=
  { cause := .malformed e, place := .at rest 1 }

/-- The text of a failure to decode a source text. -/
def message (source : List Char) (f : Failure) : String :=
  f.cause.message ++ f.place.message source

end Failure

/-- A result with the path of a failure extended by a step. -/
def within {α : Type} (step : Segment) : Except Failure α → Except Failure α :=
  Except.mapError (Failure.inside step)

/-- A result of decoding in memory, as a result without a path and with the given place. -/
def raise {α : Type} (place : Place) : Except Cause α → Except Failure α :=
  Except.mapError fun cause => { cause := cause, place := place }

end GrammarTypes.Decode
