/-!
# String literals

A text is written between double quotes in printable ASCII: quotes, backslashes and the common
controls have two-character escapes, and every other character outside `U+0020` to `U+007E` is
written as its UTF-16 units, four hexadecimal digits each. The result is a string literal both of
the emitted declarations and of JSON.
-/

namespace GrammarTypes.Text

/-- The four lower-case hexadecimal digits of a UTF-16 unit. -/
def hexDigits (unit : Nat) : List Char :=
  [unit / 4096 % 16, unit / 256 % 16, unit / 16 % 16, unit % 16].map Nat.digitChar

/-- The UTF-16 units of a character: one up to `U+FFFF`, a surrogate pair above. -/
def units (c : Char) : List Nat :=
  if c.toNat < 0x10000 then [c.toNat]
  else [0xD800 + (c.toNat - 0x10000) / 0x400, 0xDC00 + (c.toNat - 0x10000) % 0x400]

/-- A character as it stands inside a string literal. -/
def escape (c : Char) : List Char :=
  match c with
  | '"' => ['\\', '"']
  | '\\' => ['\\', '\\']
  | '\n' => ['\\', 'n']
  | '\r' => ['\\', 'r']
  | '\t' => ['\\', 't']
  | '\x08' => ['\\', 'b']
  | '\x0c' => ['\\', 'f']
  | c =>
    if c.toNat < 0x20 ∨ 0x7f ≤ c.toNat then
      (units c).flatMap fun unit => '\\' :: 'u' :: hexDigits unit
    else [c]

/-- The string literal of a text. -/
def literal (value : String) : String :=
  String.ofList ('"' :: (value.toList.flatMap escape ++ ['"']))

end GrammarTypes.Text
