import GrammarTypes.Decode.Failure

/-!
# Lexemes of JSON

Readers of blanks, words, numbers (`readNumber`) and strings (`readString`). A reader takes the rest
of a text and returns what it read with the rest after it, or a failure. Positions in failures are
exact to the byte, so a reader that refuses a byte says whether it stands before or after it.
-/

namespace GrammarTypes.Decode

/-- A reader of the rest of a text. -/
abbrev Reader (α : Type) := List Char → Except Failure (α × List Char)

/-! ## Blanks and words -/

/-- Whether a character can stand between lexemes. -/
def isBlank (c : Char) : Bool :=
  c == ' ' || c == '\n' || c == '\t' || c == '\r'

/-- The rest of a text without the blanks at its beginning. -/
def skipBlanks (s : List Char) : List Char :=
  s.dropWhile isBlank

/-- Reads the given characters. -/
def readWord : List Char → List Char → Except Failure (List Char)
  | [], s => .ok s
  | _ :: _, [] => .error (.here .endInValue [])
  | e :: es, c :: s => if c = e then readWord es s else .error (.peek .expectedWord (c :: s))

/-! ## Numbers -/

/-- The value of a decimal digit. -/
def digitValue (c : Char) : Nat :=
  c.toNat - 48

/-- The largest significand that is kept exactly. -/
def maxSignificand : Nat := Nat.pow 2 64 - 1

/-- A significand extended by digits while it stays exact, with the digits that are left. -/
def extendSignificand (significand : Nat) : List Char → Nat × List Char
  | [] => (significand, [])
  | d :: ds =>
    let next := significand * 10 + digitValue d
    if maxSignificand < next then (significand, d :: ds) else extendSignificand next ds

/-- The largest exponent that a text can give. -/
def maxExponent : Nat := Nat.pow 2 31 - 1

/-- The value of the digits of an exponent. A value that is too large is given up with the text that
follows the digit where it became so. -/
def exponentValue (value : Nat) : List Char → List Char → Except (List Char) Nat
  | [], _ => .ok value
  | d :: ds, rest =>
    let next := value * 10 + digitValue d
    if maxExponent < next then .error (ds ++ rest) else exponentValue next ds rest

/-- A number from its sign, its significand and its power of ten. -/
def scaledNumber (negative : Bool) (significand : Nat) (power : Int) (rest : List Char) :
    Except Failure (Json.Number × List Char) :=
  match Decimal.scale? significand power with
  | some units => .ok (.float ⟨negative, units⟩, rest)
  | none => .error (.here .numberOutOfRange rest)

/-- Reads an exponent after its letter. -/
def readExponent (negative : Bool) (significand : Nat) (power : Int) (s : List Char) :
    Except Failure (Json.Number × List Char) :=
  let (down, s) :=
    match s with
    | '+' :: r => (false, r)
    | '-' :: r => (true, r)
    | r => (false, r)
  match s with
  | [] => .error (.here .endInValue [])
  | c :: _ =>
    if !c.isDigit then .error (.peek .invalidNumber s)
    else
      let digits := s.takeWhile Char.isDigit
      let rest := s.dropWhile Char.isDigit
      match exponentValue 0 digits rest with
      | .ok value =>
        scaledNumber negative significand (if down then power - value else power + value) rest
      | .error after =>
        if significand ≠ 0 && !down then .error (.here .numberOutOfRange after)
        else .ok (.float ⟨negative, 0⟩, rest)

/-- Reads what follows the digits before and after the point: an exponent or nothing. -/
def readPower (negative : Bool) (significand : Nat) (power : Int) (s : List Char) :
    Except Failure (Json.Number × List Char) :=
  match s with
  | 'e' :: r | 'E' :: r => readExponent negative significand power r
  | r => scaledNumber negative significand power r

/-- Reads the digits after a point. Digits beyond an exact significand are dropped. -/
def readFraction (negative : Bool) (significand : Nat) (power : Int) (s : List Char) :
    Except Failure (Json.Number × List Char) :=
  let digits := s.takeWhile Char.isDigit
  let rest := s.dropWhile Char.isDigit
  if digits.isEmpty then
    .error (.peek (if rest.isEmpty then .endInValue else .invalidNumber) rest)
  else
    let (significand, dropped) := extendSignificand significand digits
    readPower negative significand (power - (digits.length - dropped.length : Nat)) rest

/-- The number of a run of digits without point and exponent. The negative of zero and of a number
beyond 64 bits is not exact. -/
def wholeNumber (negative : Bool) (significand : Nat) : Json.Number :=
  if !negative then .nat significand
  else if significand = 0 || Nat.pow 2 63 < significand then
    .float ⟨true, Decimal.unitsOfNat significand⟩
  else .negative significand

/-- Reads a number after its sign. -/
def readUnsigned (negative : Bool) (s : List Char) : Except Failure (Json.Number × List Char) :=
  match s with
  | [] => .error (.here .endInValue [])
  | c :: r =>
    if !c.isDigit then .error (.peek .invalidNumber s)
    else
      let digits := s.takeWhile Char.isDigit
      let rest := s.dropWhile Char.isDigit
      if c = '0' && digits.length ≠ 1 then .error (.peek .invalidNumber r)
      else
        let (significand, left) := extendSignificand 0 digits
        match rest with
        | '.' :: rest => readFraction negative significand left.length rest
        | 'e' :: rest | 'E' :: rest => readExponent negative significand left.length rest
        | rest =>
          if left.isEmpty then .ok (wholeNumber negative significand, rest)
          else scaledNumber negative significand left.length rest

/-- Reads a number. -/
def readNumber (s : List Char) : Except Failure (Json.Number × List Char) :=
  match s with
  | '-' :: r => readUnsigned true r
  | r => readUnsigned false r

/-! ## Strings -/

/-- The value of a hexadecimal digit. -/
def hexValue? (c : Char) : Option Nat :=
  if c.isDigit then some (c.toNat - 48)
  else if 'a' ≤ c && c ≤ 'f' then some (c.toNat - 87)
  else if 'A' ≤ c && c ≤ 'F' then some (c.toNat - 55)
  else none

/-- The value of the four hexadecimal digits at the beginning of a text. -/
def hexUnit (s : List Char) : Except Failure Nat :=
  if byteCount (s.take 4) < 4 then .error (.here .endInString [])
  else
    match (s.take 4).mapM hexValue? with
    | some [a, b, c, d] => .ok (((a * 16 + b) * 16 + c) * 16 + d)
    | _ => .error { cause := .malformed .invalidEscape, place := .at s 4 }

/-- Whether a UTF-16 unit begins a surrogate pair. -/
def isLeading (unit : Nat) : Bool :=
  0xD800 ≤ unit && unit ≤ 0xDBFF

/-- Whether a UTF-16 unit ends a surrogate pair. -/
def isTrailing (unit : Nat) : Bool :=
  0xDC00 ≤ unit && unit ≤ 0xDFFF

/-- The character that follows a leading surrogate as a second escape. -/
def pairedChar (leading : Nat) (s : List Char) : Except Failure Char :=
  match s with
  | [] => .error (.here .endInString [])
  | '\\' :: [] => .error (.here .endInString [])
  | '\\' :: 'u' :: r => do
    let unit ← hexUnit r
    if isTrailing unit then
      return Char.ofNat (0x10000 + (leading - 0xD800) * 0x400 + (unit - 0xDC00))
    else throw (.here .loneSurrogate (r.drop 4))
  | '\\' :: r => .error (.peek .missingSurrogate r)
  | r => .error (.peek .missingSurrogate r)

/-- The character of an escape after its backslash, and the number of characters it takes. -/
def unescape (s : List Char) : Except Failure (Char × Nat) :=
  match s with
  | [] => .error (.here .endInString [])
  | '"' :: _ => .ok ('"', 1)
  | '\\' :: _ => .ok ('\\', 1)
  | '/' :: _ => .ok ('/', 1)
  | 'b' :: _ => .ok ('\x08', 1)
  | 'f' :: _ => .ok ('\x0c', 1)
  | 'n' :: _ => .ok ('\n', 1)
  | 'r' :: _ => .ok ('\r', 1)
  | 't' :: _ => .ok ('\t', 1)
  | 'u' :: r => do
    let unit ← hexUnit r
    if isTrailing unit then throw (.here .loneSurrogate (r.drop 4))
    else if isLeading unit then
      let c ← pairedChar unit (r.drop 4)
      return (c, 11)
    else return (Char.ofNat unit, 5)
  | r => .error (.peek .invalidEscape r)

/-- Reads the characters of a string up to its closing quote. The first `skip` characters belong to
an escape that has been read already. -/
def readChars (read : List Char) : (skip : Nat) → List Char → Except Failure (String × List Char)
  | _, [] => .error (.here .endInString [])
  | skip + 1, _ :: s => readChars read skip s
  | 0, '"' :: s => .ok (String.ofList read.reverse, s)
  | 0, '\\' :: s =>
    match unescape s with
    | .ok (c, taken) => readChars (c :: read) taken s
    | .error f => .error f
  | 0, c :: s =>
    if c.toNat < 0x20 then .error (.peek .controlCharacter (c :: s)) else readChars (c :: read) 0 s

/-- Reads a string after its opening quote. -/
def readString (s : List Char) : Except Failure (String × List Char) :=
  readChars [] 0 s

end GrammarTypes.Decode
