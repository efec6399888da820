import GrammarTypes.Decode.Lexeme
import GrammarTypes.Json.Value

/-!
# JSON documents

The concrete syntax of JSON as data. A `Document` is a value as it is written: with its blanks, with
the escapes of its strings and with the digits of its numbers. Whatever can be built is well formed.

A document has its text, and a value unless a number in it is out of range or a surrogate in it has
no partner. A text denotes a value if it is the text of a document with that value, with nothing but
blanks around it (`Denotes`).
-/

namespace GrammarTypes.Json

open Decode

/-- Blanks. -/
structure Blanks where
  /-- The characters. -/
  chars : List Char
  /-- They are blank. -/
  blank : ∀ c ∈ chars, isBlank c

/-- No blanks. -/
def Blanks.none : Blanks := ⟨[], by simp⟩

@[simp] theorem Blanks.chars_none : Blanks.none.chars = [] := rfl

/-! ## Strings -/

/-- The characters that have an escape of one letter: the letter, and the character. -/
def shortEscapes : List (Char × Char) :=
  [('"', '"'), ('\\', '\\'), ('/', '/'), ('b', '\x08'), ('f', '\x0c'), ('n', '\n'), ('r', '\r'),
    ('t', '\t')]

/-- A hexadecimal digit. -/
structure HexDigit where
  /-- The character. -/
  char : Char
  /-- Its value. -/
  value : Nat
  /-- The character has that value. -/
  reads : hexValue? char = some value

/-- Four hexadecimal digits, which give a UTF-16 unit. -/
structure HexUnit where
  (first second third fourth : HexDigit)

namespace HexUnit

/-- The text of a unit. -/
def text (u : HexUnit) : List Char :=
  [u.first.char, u.second.char, u.third.char, u.fourth.char]

/-- The number of a unit. -/
def value (u : HexUnit) : Nat :=
  ((u.first.value * 16 + u.second.value) * 16 + u.third.value) * 16 + u.fourth.value

end HexUnit

/-- A piece of a string. -/
inductive Piece where
  /-- A character that stands for itself. -/
  | plain (c : Char) (h : c ≠ '"' ∧ c ≠ '\\' ∧ 0x20 ≤ c.toNat)
  /-- The escape of a character by a letter. -/
  | short (letter c : Char) (h : (letter, c) ∈ shortEscapes)
  /-- The escape of a UTF-16 unit. -/
  | unit (u : HexUnit)

/-- The text of a piece. -/
def Piece.text : Piece → List Char
  | .plain c _ => [c]
  | .short letter _ _ => ['\\', letter]
  | .unit u => '\\' :: 'u' :: u.text

/-- A string as it is written, between its quotes. -/
structure Quoted where
  /-- The pieces. -/
  pieces : List Piece

namespace Quoted

/-- The text after the opening quote. -/
def inner (q : Quoted) : List Char :=
  q.pieces.flatMap Piece.text ++ ['"']

/-- The text of a string. -/
def text (q : Quoted) : List Char :=
  '"' :: q.inner

/-- The character of two surrogates. -/
def pair (leading trailing : Nat) : Char :=
  Char.ofNat (0x10000 + (leading - 0xD800) * 0x400 + (trailing - 0xDC00))

/-- The characters of pieces. Two surrogates give a character together, and there is none for one
without the other. -/
def charsOf? : List Piece → Option (List Char)
  | [] => some []
  | .plain c _ :: ps => (charsOf? ps).map (c :: ·)
  | .short _ c _ :: ps => (charsOf? ps).map (c :: ·)
  | .unit u :: ps =>
    if isTrailing u.value then none
    else if isLeading u.value then
      match ps with
      | .unit w :: ps =>
        if isTrailing w.value then (charsOf? ps).map (pair u.value w.value :: ·) else none
      | _ => none
    else (charsOf? ps).map (Char.ofNat u.value :: ·)

/-- The text that a string is. -/
def value? (q : Quoted) : Option String :=
  (charsOf? q.pieces).map String.ofList

/-- A text without escapes. Characters that need one are left out. -/
def plain (s : String) : Quoted :=
  ⟨s.toList.filterMap fun c =>
    if h : c ≠ '"' ∧ c ≠ '\\' ∧ 0x20 ≤ c.toNat then some (.plain c h) else none⟩

end Quoted

/-! ## Numbers -/

/-- Decimal digits, of which there is one at least. -/
structure Digits where
  /-- The characters. -/
  chars : List Char
  /-- There is a digit. -/
  ne_nil : chars ≠ []
  /-- All are digits. -/
  digit : ∀ c ∈ chars, c.isDigit

/-- A number extended by digits. -/
def extended (n : Nat) (ds : List Char) : Nat :=
  ds.foldl (fun n d => n * 10 + digitValue d) n

/-- The number of decimal digits. -/
def Digits.value (ds : Digits) : Nat :=
  extended 0 ds.chars

/-- The exponent of a number. -/
structure Exponent where
  /-- Whether its letter is a capital. -/
  capital : Bool
  /-- Its sign, if it has one: whether that is a minus. -/
  sign : Option Bool
  /-- Its digits. -/
  digits : Digits

namespace Exponent

/-- The sign and the digits of an exponent. -/
def signed (e : Exponent) : List Char :=
  match e.sign with
  | none => e.digits.chars
  | some false => '+' :: e.digits.chars
  | some true => '-' :: e.digits.chars

/-- The text of an exponent. -/
def text (e : Exponent) : List Char :=
  (if e.capital then 'E' else 'e') :: e.signed

/-- Whether an exponent is negative. -/
def down (e : Exponent) : Bool :=
  e.sign.getD false

/-- The magnitude of a whole number times a power of ten, which the exponent changes. An exponent
that is too large makes it zero or puts it out of range. -/
def scale? (e : Exponent) (significand : Nat) (power : Int) : Option Nat :=
  if e.digits.value ≤ maxExponent then
    Decimal.scale? significand (if e.down then power - e.digits.value else power + e.digits.value)
  else if significand ≠ 0 && !e.down then none
  else some 0

end Exponent

/-- A number as it is written. -/
structure Numeral where
  /-- Whether it has a minus. -/
  negative : Bool
  /-- The digits before the point. -/
  whole : Digits
  /-- They do not begin with a zero if there are more. -/
  short : whole.chars.head? = some '0' → whole.chars.length = 1
  /-- The digits after the point, if there is one. -/
  fraction : Option Digits
  /-- The exponent, if there is one. -/
  exponent : Option Exponent

namespace Numeral

/-- The point and the digits after it, if there are any. -/
def fractionText : Option Digits → List Char
  | none => []
  | some ds => '.' :: ds.chars

/-- The exponent, if there is one. -/
def exponentText : Option Exponent → List Char
  | none => []
  | some e => e.text

/-- A number without its sign. -/
def unsigned (n : Numeral) : List Char :=
  n.whole.chars ++ (fractionText n.fraction ++ exponentText n.exponent)

/-- The text of a number. -/
def text (n : Numeral) : List Char :=
  if n.negative then '-' :: n.unsigned else n.unsigned

/-- The digits that are kept of a number, and the power of ten that they are multiplied with but for
the exponent. -/
def kept (n : Numeral) : Nat × Int :=
  let (significand, left) := extendSignificand 0 n.whole.chars
  match n.fraction with
  | none => (significand, left.length)
  | some ds =>
    let (significand, dropped) := extendSignificand significand ds.chars
    (significand, left.length - (ds.chars.length - dropped.length : Nat))

/-- The magnitude of a number that is not exact. -/
def units? (n : Numeral) : Option Nat :=
  match n.exponent with
  | none => Decimal.scale? n.kept.1 n.kept.2
  | some e => e.scale? n.kept.1 n.kept.2

/-- Whether a number is written without point and exponent and fits in 64 bits. -/
def exact (n : Numeral) : Bool :=
  n.fraction.isNone && n.exponent.isNone && n.whole.value ≤ maxSignificand

/-- The number that a numeral is. -/
def value? (n : Numeral) : Option Number :=
  if n.exact then some (wholeNumber n.negative n.whole.value)
  else n.units?.map fun units => .float ⟨n.negative, units⟩

end Numeral

/-! ## Documents -/

/-- The blanks before an item, on either side of the comma between the item and the one before. -/
structure Lead where
  (outer inner : Blanks)

/-- No blanks before an item. -/
def Lead.none : Lead := ⟨.none, .none⟩

/-- The text before an item. There is no comma before the first one. -/
def Lead.text (first : Bool) (l : Lead) : List Char :=
  l.outer.chars ++ ((if first then [] else [',']) ++ l.inner.chars)

/-- The name of a member, with the blanks before and after the colon. -/
structure Name where
  /-- The name. -/
  quoted : Quoted
  (outer inner : Blanks)

/-- A name without escapes and blanks. -/
def Name.plain (s : String) : Name := ⟨.plain s, .none, .none⟩

/-- The text of a name and of what is between it and the value. -/
def Name.text (n : Name) : List Char :=
  n.quoted.text ++ (n.outer.chars ++ ':' :: n.inner.chars)

/-- A value as it is written. -/
inductive Document where
  /-- No value. -/
  | null
  /-- A truth value. -/
  | bool (b : Bool)
  /-- A number. -/
  | number (n : Numeral)
  /-- A text. -/
  | string (q : Quoted)
  /-- A list of values, and the blanks before its end. -/
  | array (items : List (Lead × Document)) (gap : Blanks)
  /-- Named values, and the blanks before their end. -/
  | object (members : List (Lead × Name × Document)) (gap : Blanks)

namespace Document

mutual

/-- The text of a document. -/
def text : Document → List Char
  | .null => ['n', 'u', 'l', 'l']
  | .bool true => ['t', 'r', 'u', 'e']
  | .bool false => ['f', 'a', 'l', 's', 'e']
  | .number n => n.text
  | .string q => q.text
  | .array items gap => '[' :: (itemsText true items ++ (gap.chars ++ [']']))
  | .object members gap => '\x7b' :: (membersText true members ++ (gap.chars ++ ['\x7d']))

/-- The text of the items of an array, the first of which can be the first of all. -/
def itemsText (first : Bool) : List (Lead × Document) → List Char
  | [] => []
  | (lead, doc) :: items => lead.text first ++ (doc.text ++ itemsText false items)

/-- The text of the members of an object, the first of which can be the first of all. -/
def membersText (first : Bool) : List (Lead × Name × Document) → List Char
  | [] => []
  | (lead, name, doc) :: members =>
    lead.text first ++ (name.text ++ (doc.text ++ membersText false members))

end

mutual

/-- The value of a document. -/
def value? : Document → Option Value
  | .null => some .null
  | .bool b => some (.bool b)
  | .number n => n.value?.map .number
  | .string q => q.value?.map .string
  | .array items _ => (itemsValue? items).map .array
  | .object members _ => (membersValue? members).map .object

/-- The values of the items of an array. -/
def itemsValue? : List (Lead × Document) → Option (List Value)
  | [] => some []
  | (_, doc) :: items => do
    let v ← doc.value?
    let vs ← itemsValue? items
    return v :: vs

/-- The values of the members of an object. -/
def membersValue? : List (Lead × Name × Document) → Option (List (String × Value))
  | [] => some []
  | (_, name, doc) :: members => do
    let key ← name.quoted.value?
    let v ← doc.value?
    let ms ← membersValue? members
    return (key, v) :: ms

end

end Document

/-- The text that follows is empty or begins with what can follow a number. -/
def Delimited (rest : List Char) : Prop :=
  ∀ c ∈ rest.head?, isBlank c ∨ c = ',' ∨ c = ']' ∨ c = '\x7d'

/-- A text is a document, with nothing but blanks around it. -/
def IsDocument (source : String) : Prop :=
  ∃ (before : Blanks) (doc : Document) (after : Blanks),
    source.toList = before.chars ++ (doc.text ++ after.chars)

/-- A text denotes a value: it is a document with the value, with nothing but blanks around it. -/
def Denotes (source : String) (v : Value) : Prop :=
  ∃ (before : Blanks) (doc : Document) (after : Blanks),
    source.toList = before.chars ++ (doc.text ++ after.chars) ∧ doc.value? = some v

end GrammarTypes.Json
