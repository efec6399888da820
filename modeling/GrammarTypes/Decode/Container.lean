import GrammarTypes.Decode.Lexeme

/-!
# Containers of JSON

What stands between the items of an array and the members of an object (`nextItem`, `nextKey`), how
a container is entered and left (`enter`), and how it settles the places of the failures inside it
(`Failure.settle`). `readValue` reads any value.
-/

namespace GrammarTypes.Decode

/-! ## Between items and members -/

/-- Goes to the next item of an array, or to its closing bracket when there is none. -/
def nextItem (first : Bool) (s : List Char) : Except Failure (Bool × List Char) :=
  match skipBlanks s with
  | [] => .error (.peek .endInList [])
  | ']' :: r => .ok (false, ']' :: r)
  | c :: r =>
    if first then .ok (true, c :: r)
    else if c = ',' then
      match skipBlanks r with
      | [] => .error (.peek .endInValue [])
      | ']' :: r => .error (.peek .trailingComma (']' :: r))
      | r => .ok (true, r)
    else .error (.peek .expectedItemEnd (c :: r))

/-- Goes to the next member of an object and reads its name: the name and the text after it, or
`none` before the closing brace. -/
def nextKey (first : Bool) (s : List Char) : Except Failure (Option String × List Char) :=
  match skipBlanks s with
  | [] => .error (.peek .endInObject [])
  | '\x7d' :: r => .ok (none, '\x7d' :: r)
  | c :: r =>
    if first then
      if c = '"' then (readString r).map fun (key, r) => (some key, r)
      else .error (.peek .keyNotString (c :: r))
    else if c = ',' then
      match skipBlanks r with
      | [] => .error (.peek .endInValue [])
      | '"' :: r => (readString r).map fun (key, r) => (some key, r)
      | '\x7d' :: r => .error (.peek .trailingComma ('\x7d' :: r))
      | r => .error (.peek .keyNotString r)
    else .error (.peek .expectedMemberEnd (c :: r))

/-- Reads the colon between a name and its value. -/
def readColon (s : List Char) : Except Failure (List Char) :=
  match skipBlanks s with
  | [] => .error (.peek .endInObject [])
  | ':' :: r => .ok r
  | r => .error (.peek .expectedColon r)

/-- Reads the end of an array that has no room for further items. -/
def endArray (s : List Char) : Except Failure (List Char) :=
  match skipBlanks s with
  | [] => .error (.peek .endInList [])
  | ']' :: r => .ok r
  | ',' :: r =>
    match skipBlanks r with
    | ']' :: r => .error (.peek .trailingComma (']' :: r))
    | r => .error (.peek .trailingCharacters r)
  | r => .error (.peek .trailingCharacters r)

/-! ## Places settled by a container -/

/-- The text after the end of an object, if that is next. -/
def pastObject (s : List Char) : List Char :=
  match skipBlanks s with
  | '\x7d' :: r => r
  | r => r

/-- The text after the end of an array or after a comma in it, if that is next. -/
def pastArray (s : List Char) : List Char :=
  match skipBlanks s with
  | ']' :: r => r
  | ',' :: r => skipBlanks r
  | r => r

/-- A failure whose place, if it is open, is settled by the container around it. -/
def Failure.settle (past : List Char → List Char) (f : Failure) : Failure :=
  match f.place with
  | .before rest => { f with place := .at (past rest) 0 }
  | _ => f

/-! ## Limits -/

/-- How far a text may go: how deep its brackets nest, and a number that no container's items
exceed. -/
structure Limits where
  /-- The number of brackets that may still be opened inside one another. -/
  depth : Nat
  /-- A bound on the items of a container. -/
  items : Nat

/-- The limits for a text. Each item takes a character at least. -/
def Limits.ofText (s : List Char) : Limits :=
  ⟨127, s.length + 1⟩

/-- Opens the bracket at the beginning of a text, one level deeper, and settles the failures of what
is inside. -/
def enter {α : Type} (past : List Char → List Char) (limits : Limits)
    (body : Limits → Reader α) (s : List Char) : Except Failure (α × List Char) :=
  match limits.depth with
  | 0 => .error (.peek .tooDeep s)
  | depth + 1 => (body { limits with depth := depth } s.tail).mapError (Failure.settle past)

/-! ## The beginning of a value -/

/-- How a value begins: as a scalar, which is read whole, or with a bracket, which is not. -/
inductive Beginning where
  /-- A scalar. -/
  | scalar (v : Json.Value)
  /-- The bracket of an array. -/
  | array
  /-- The brace of an object. -/
  | object

/-- What a beginning is, seen as a culprit. -/
def Beginning.found : Beginning → Found
  | .scalar v => .of v
  | .array => .sequence
  | .object => .map

/-- Reads the beginning of a value. -/
def readBeginning (s : List Char) : Except Failure (Beginning × List Char) :=
  match skipBlanks s with
  | [] => .error (.peek .endInValue [])
  | 'n' :: r => do
    let r ← readWord ['u', 'l', 'l'] r
    return (.scalar .null, r)
  | 't' :: r => do
    let r ← readWord ['r', 'u', 'e'] r
    return (.scalar (.bool true), r)
  | 'f' :: r => do
    let r ← readWord ['a', 'l', 's', 'e'] r
    return (.scalar (.bool false), r)
  | '"' :: r => do
    let (text, r) ← readString r
    return (.scalar (.string text), r)
  | '[' :: r => .ok (.array, '[' :: r)
  | '\x7b' :: r => .ok (.object, '\x7b' :: r)
  | c :: r =>
    if c = '-' || c.isDigit then do
      let (n, r) ← readNumber (c :: r)
      return (.scalar (.number n), r)
    else .error (.peek .expectedValue (c :: r))

/-- The failure to find what was expected at a value that begins as given. -/
def unexpected (found : Found) (expected : Expected) (rest : List Char) : Failure :=
  { cause := .wrongType found expected, place := .at rest 0 }

/-! ## Loops over items and members -/

/-- Reads the items of an array from the given index to its closing bracket. -/
def readItems {α : Type} (item : Reader α) : (bound index : Nat) → Reader (List α)
  | 0, _, s => .error (.peek .endInList s)
  | bound + 1, index, s => do
    let (more, s) ← nextItem (index == 0) s
    if more then
      let (x, s) ← within (.index index) (item s)
      let (xs, s) ← readItems item bound (index + 1) s
      return (x :: xs, s)
    else return ([], s.tail)

/-- Reads the value of a member after its name. -/
def readMember {α : Type} (name : String) (value : Reader α) (s : List Char) :
    Except Failure (α × List Char) := do
  let s ← readColon s
  within (.key name) (value s)

/-! ## Whole values -/

/-- Reads the members of an object up to its closing brace. -/
def readMembers {α : Type} (value : Reader α) : (bound : Nat) → (first : Bool) →
    Reader (List (String × α))
  | 0, _, s => .error (.peek .endInObject s)
  | bound + 1, first, s => do
    match ← within .unreadable (nextKey first s) with
    | (none, s) => return ([], s.tail)
    | (some name, s) =>
      let (v, s) ← readMember name value s
      let (ms, s) ← readMembers value bound false s
      return ((name, v) :: ms, s)

/-- Reads a value whole into memory. -/
def readValue (items : Nat) : (depth : Nat) → Reader Json.Value
  | depth, s => do
    match ← readBeginning s with
    | (.scalar v, s) => return (v, s)
    | (.array, s) =>
      match depth with
      | 0 => throw (.peek .tooDeep s)
      | depth + 1 =>
        let (vs, s) ← readItems (readValue items depth) items 0 s.tail
        return (.array vs, s)
    | (.object, s) =>
      match depth with
      | 0 => throw (.peek .tooDeep s)
      | depth + 1 =>
        let (ms, s) ← readMembers (readValue items depth) items true s.tail
        return (.object ms, s)

end GrammarTypes.Decode
