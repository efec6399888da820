import GrammarTypes.Decimal.Notation
import GrammarTypes.Json.Value
import GrammarTypes.Text.Literal

/-!
# The text of a JSON value

Values are written over several lines, each level of nesting indented by two spaces; an array or an
object without content is written as its two brackets. A string escapes only quotes, backslashes and
controls.
-/

namespace GrammarTypes.Json

/-- A character as it stands in a string. -/
def escape (c : Char) : List Char :=
  match c with
  | '"' => ['\\', '"']
  | '\\' => ['\\', '\\']
  | '\x08' => ['\\', 'b']
  | '\t' => ['\\', 't']
  | '\n' => ['\\', 'n']
  | '\x0c' => ['\\', 'f']
  | '\r' => ['\\', 'r']
  | c => if c.toNat < 0x20 then '\\' :: 'u' :: Text.hexDigits c.toNat else [c]

/-- A string with its quotes. -/
def stringText (s : String) : String :=
  String.ofList ('"' :: (s.toList.flatMap escape ++ ['"']))

/-- The text of a number. -/
def Number.render : Number → String
  | .nat n => toString n
  | .negative n => "-" ++ toString n
  | .float x => x.render

/-- The start of a line at a level of nesting. -/
def newline (level : Nat) : String :=
  "\n" ++ String.ofList (List.replicate (2 * level) ' ')

/-- Lines between two brackets. -/
def bracketed (level : Nat) (opening closing : String) (lines : List String) : String :=
  if lines.isEmpty then opening ++ closing
  else
    opening ++ ",".intercalate (lines.map (newline (level + 1) ++ ·)) ++ newline level ++ closing

namespace Value

mutual

/-- The text of a value at a level of nesting. -/
def pretty (level : Nat) : Value → String
  | .null => "null"
  | .bool true => "true"
  | .bool false => "false"
  | .number n => n.render
  | .string s => stringText s
  | .array items => bracketed level "[" "]" (prettyItems (level + 1) items)
  | .object members => bracketed level "\x7b" "\x7d" (prettyMembers (level + 1) members)

/-- The texts of the items of an array. -/
def prettyItems (level : Nat) : List Value → List String
  | [] => []
  | v :: vs => pretty level v :: prettyItems level vs

/-- The texts of the members of an object. -/
def prettyMembers (level : Nat) : List (String × Value) → List String
  | [] => []
  | (name, v) :: rest => (stringText name ++ ": " ++ pretty level v) :: prettyMembers level rest

end

end Value

end GrammarTypes.Json
