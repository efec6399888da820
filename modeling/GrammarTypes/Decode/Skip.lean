import GrammarTypes.Decode.Container

/-!
# Skipped values

A member that nobody asks for is passed over by `skipValue` without being read: only its brackets,
words, numbers and strings are followed. Nesting has no limit here, numbers have no range, and the
surrogates of a string need not be paired.
-/

namespace GrammarTypes.Decode

/-! ## Numbers and strings -/

/-- Passes over digits, of which there must be one. -/
def skipDigits (s : List Char) : Except Failure (List Char) :=
  match s with
  | [] => .error (.here .invalidNumber [])
  | c :: r => if c.isDigit then .ok (r.dropWhile Char.isDigit) else .error (.peek .invalidNumber s)

/-- Passes over an exponent after its letter. -/
def skipExponent (s : List Char) : Except Failure (List Char) :=
  match s with
  | '+' :: r | '-' :: r => skipDigits r
  | r => skipDigits r

/-- Passes over an exponent, if there is one. -/
def skipPower (s : List Char) : Except Failure (List Char) :=
  match s with
  | 'e' :: r | 'E' :: r => skipExponent r
  | r => .ok r

/-- Passes over a number after its sign. -/
def skipNumber (s : List Char) : Except Failure (List Char) := do
  let rest ← skipDigits s
  match s with
  | '0' :: c :: r => if c.isDigit then throw (.peek .invalidNumber (c :: r))
  | _ => pure ()
  match rest with
  | '.' :: r =>
    match r with
    | c :: _ =>
      if c.isDigit then skipPower (r.dropWhile Char.isDigit) else throw (.peek .invalidNumber r)
    | [] => throw (.peek .invalidNumber [])
  | r => skipPower r

/-- The number of characters of an escape after its backslash. -/
def escapeLength (s : List Char) : Except Failure Nat :=
  match s with
  | [] => .error (.here .endInString [])
  | c :: r =>
    if ['"', '\\', '/', 'b', 'f', 'n', 'r', 't'].contains c then .ok 1
    else if c = 'u' then (hexUnit r).map fun _ => 5
    else .error (.peek .invalidEscape s)

/-- Passes over the characters of a string and its closing quote. The first `skip` characters belong
to an escape that has been passed already. -/
def skipChars : (skip : Nat) → List Char → Except Failure (List Char)
  | _, [] => .error (.here .endInString [])
  | skip + 1, _ :: s => skipChars skip s
  | 0, '"' :: s => .ok s
  | 0, '\\' :: s =>
    match escapeLength s with
    | .ok taken => skipChars taken s
    | .error f => .error f
  | 0, c :: s =>
    if c.toNat < 0x20 then .error (.here .controlCharacter (c :: s)) else skipChars 0 s

/-! ## Nesting -/

/-- An open bracket. -/
inductive Bracket where
  | square | curly
  deriving DecidableEq, Repr

namespace Bracket

/-- The character that closes a bracket. -/
def closing : Bracket → Char
  | .square => ']'
  | .curly => '\x7d'

/-- The error of a text that ends inside a bracket. -/
def atEnd : Bracket → SyntaxError
  | .square => .endInList
  | .curly => .endInObject

/-- The error of something else than a comma or the end inside a bracket. -/
def atOther : Bracket → SyntaxError
  | .square => .expectedItemEnd
  | .curly => .expectedMemberEnd

end Bracket

/-- Passes over the name and the colon of a member. -/
def skipKey (s : List Char) : Except Failure (List Char) :=
  match skipBlanks s with
  | [] => .error (.peek .endInObject [])
  | '"' :: r => do
    let r ← skipChars 0 r
    readColon r
  | r => .error (.peek .keyNotString r)

/-- Passes over what precedes the next value inside a bracket. -/
def skipToValue (b : Bracket) (s : List Char) : Except Failure (List Char) :=
  match b with
  | .square => .ok s
  | .curly => skipKey s

/-- What comes next when values are skipped. -/
inductive SkipPhase where
  /-- A value. -/
  | value
  /-- The first value inside a bracket, or its end. -/
  | opened
  /-- A comma inside a bracket, or its end. -/
  | between

/-- Passes over a scalar or an opening bracket: the rest, and the bracket. -/
def skipBeginning (s : List Char) : Except Failure (Option Bracket × List Char) :=
  match skipBlanks s with
  | [] => .error (.peek .endInValue [])
  | 'n' :: r => (readWord ['u', 'l', 'l'] r).map (none, ·)
  | 't' :: r => (readWord ['r', 'u', 'e'] r).map (none, ·)
  | 'f' :: r => (readWord ['a', 'l', 's', 'e'] r).map (none, ·)
  | '-' :: r => (skipNumber r).map (none, ·)
  | '"' :: r => (skipChars 0 r).map (none, ·)
  | '[' :: r => .ok (some .square, r)
  | '\x7b' :: r => .ok (some .curly, r)
  | c :: r =>
    if c.isDigit then (skipNumber (c :: r)).map (none, ·)
    else .error (.peek .expectedValue (c :: r))

/-- Passes over values until no bracket is open. The open brackets are given innermost first, and
every two steps take a character. -/
def skipNested : (fuel : Nat) → SkipPhase → List Bracket → List Char → Except Failure (List Char)
  | 0, _, _, s => .error (.peek .endInValue s)
  | fuel + 1, .value, outer, s => do
    match ← skipBeginning s with
    | (some b, s) => skipNested fuel .opened (b :: outer) s
    | (none, s) => skipNested fuel .between outer s
  | _, .opened, [], s => .ok s
  | _, .between, [], s => .ok s
  | fuel + 1, .opened, b :: outer, s =>
    match skipBlanks s with
    | [] => .error (.peek b.atEnd [])
    | c :: r =>
      if c = b.closing then skipNested fuel .between outer r
      else do
        let s ← skipToValue b (c :: r)
        skipNested fuel .value (b :: outer) s
  | fuel + 1, .between, b :: outer, s =>
    match skipBlanks s with
    | [] => .error (.peek b.atEnd [])
    | c :: r =>
      if c = b.closing then skipNested fuel .between outer r
      else if c = ',' then do
        let s ← skipToValue b r
        skipNested fuel .value (b :: outer) s
      else .error (.peek b.atOther (c :: r))

/-- Passes over a value. -/
def skipValue (s : List Char) : Except Failure (Unit × List Char) := do
  let s ← skipNested (2 * s.length + 2) .value [] s
  return ((), s)

end GrammarTypes.Decode
