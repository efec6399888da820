import GrammarTypes.FileTree.Path

/-!
# Patterns of file names

A pattern of a component of a file name: ordinary characters, `?` for one character, `*` for any
run of characters and classes in square brackets. Two stars that make a whole component stand for
any directories on the way.
-/

namespace GrammarTypes.Glob

/-- An item of a character class. -/
inductive ClassItem where
  /-- One character. -/
  | single (c : Char)
  /-- The characters from one to another. -/
  | range (lower upper : Char)
  deriving DecidableEq, Repr

/-- An element of a pattern. -/
inductive Token where
  /-- The character itself. -/
  | char (c : Char)
  /-- One character of any kind. -/
  | anyChar
  /-- Any run of characters. -/
  | anySequence
  /-- Any directories on the way. -/
  | anyDirectories
  /-- One character of a class. -/
  | oneOf (items : List ClassItem)
  /-- One character outside a class. -/
  | noneOf (items : List ClassItem)
  deriving DecidableEq, Repr

/-- What is wrong with a pattern. -/
inductive PatternProblem where
  | openClass | longStars | partialComponent
  deriving DecidableEq, Repr

/-- A pattern that is not one, with the index of the character at fault. -/
structure PatternError where
  /-- The index. -/
  position : Nat
  /-- What is wrong there. -/
  problem : PatternProblem
  deriving DecidableEq, Repr

/-- The text of a pattern error. -/
def PatternError.message (e : PatternError) : String :=
  "Pattern syntax error near position " ++ toString e.position ++ ": " ++
    match e.problem with
    | .openClass => "invalid range pattern"
    | .longStars => "wildcards are either regular `*` or recursive `**`"
    | .partialComponent => "recursive wildcards must form a single path component"

/-! ## Reading -/

/-- The items of a class from the characters between its brackets. -/
def classItems : List Char → List ClassItem
  | a :: '-' :: b :: rest => .range a b :: classItems rest
  | a :: rest => .single a :: classItems rest
  | [] => []

/-- The characters of a class after its first one, which is never its end, if it ends at all. -/
def classBody? (cs : List Char) : Option (List Char) :=
  match cs with
  | first :: rest =>
    if rest.contains ']' then some (first :: rest.takeWhile (· ≠ ']')) else none
  | [] => none

/-- The class after an opening bracket, with the number of characters it takes after it. -/
def class? (cs : List Char) : Option (Token × Nat) :=
  match cs with
  | '!' :: rest => (classBody? rest).map fun body => (.noneOf (classItems body), body.length + 2)
  | cs => (classBody? cs).map fun body => (.oneOf (classItems body), body.length + 1)

/-- The tokens of a pattern from a position on. The first `skip` characters belong to a token that
has been read already, and `before` is the character before the position. -/
def tokensFrom (before : Option Char) :
    (skip position : Nat) → List Char → Except PatternError (List Token)
  | _, _, [] => .ok []
  | skip + 1, position, c :: cs => tokensFrom (some c) skip (position + 1) cs
  | 0, position, c :: cs =>
    if c = '?' then (tokensFrom (some c) 0 (position + 1) cs).map (Token.anyChar :: ·)
    else if c = '*' then
      match (cs.takeWhile (· = '*')).length with
      | 0 => (tokensFrom (some c) 0 (position + 1) cs).map (Token.anySequence :: ·)
      | 1 =>
        if before.getD '/' ≠ '/' then .error ⟨position - 1, .partialComponent⟩
        else
          match cs.drop 1 with
          | [] => (tokensFrom (some c) 1 (position + 1) cs).map (Token.anyDirectories :: ·)
          | next :: _ =>
            if next = '/' then
              (tokensFrom (some c) 2 (position + 1) cs).map (Token.anyDirectories :: ·)
            else .error ⟨position + 2, .partialComponent⟩
      | _ => .error ⟨position + 2, .longStars⟩
    else if c = '[' then
      match class? cs with
      | some (token, taken) => (tokensFrom (some c) taken (position + 1) cs).map (token :: ·)
      | none => .error ⟨position, .openClass⟩
    else (tokensFrom (some c) 0 (position + 1) cs).map (Token.char c :: ·)

/-- The tokens of a pattern. -/
def tokens (pattern : String) : Except PatternError (List Token) :=
  tokensFrom none 0 0 pattern.toList

/-! ## Matching -/

/-- Whether a class item has a character. -/
def ClassItem.has (c : Char) : ClassItem → Bool
  | .single d => c = d
  | .range lower upper => lower ≤ c && c ≤ upper

/-- Whether a token stands for a run of characters and not for one. -/
def Token.isRun : Token → Bool
  | .anySequence | .anyDirectories => true
  | _ => false

/-- Whether a token can stand for a character. -/
def Token.has (c : Char) : Token → Bool
  | .char d => c = d
  | .oneOf items => items.any (·.has c)
  | .noneOf items => !items.any (·.has c)
  | .anyChar | .anySequence | .anyDirectories => true

/-- Which suffixes of a name, longest first, a token and the tokens after it match, from which ones
the tokens after it match. A run matches a suffix if what is after it matches that suffix or a
shorter one. -/
def Token.extend (t : Token) : List Char → List Bool → List Bool
  | c :: cs, after :: shorter =>
    let rest := t.extend cs shorter
    (if t.isRun then after || rest.headD false else t.has c && shorter.headD false) :: rest
  | _, row => row.map (t.isRun && ·)

/-- Which suffixes of a name, longest first, tokens match. Without tokens it is the empty one. -/
def matchedSuffixes : List Token → List Char → List Bool
  | [], cs => cs.map (fun _ => false) ++ [true]
  | t :: ts, cs => t.extend cs (matchedSuffixes ts cs)

/-- Whether tokens match a whole name. The work is the product of the two lengths. -/
def tokensMatch (ts : List Token) (cs : List Char) : Bool :=
  (matchedSuffixes ts cs).headD false

/-- The suffixes of a name without its first character are matched as before. -/
theorem matchedSuffixes_cons (ts : List Token) (c : Char) (cs : List Char) :
    matchedSuffixes ts (c :: cs) = tokensMatch ts (c :: cs) :: matchedSuffixes ts cs := by
  induction ts with
  | nil => simp [tokensMatch, matchedSuffixes]
  | cons t ts ih =>
    simp only [tokensMatch, matchedSuffixes]
    rw [ih]
    simp [Token.extend]

/-- A token of one character matches the first one, and those after it match the rest. -/
theorem tokensMatch_one (t : Token) (ts : List Token) (c : Char) (cs : List Char)
    (h : t.isRun = false) :
    tokensMatch (t :: ts) (c :: cs) = (t.has c && tokensMatch ts cs) := by
  rw [tokensMatch, matchedSuffixes, matchedSuffixes_cons]
  simp [Token.extend, h, tokensMatch]

/-- A run matches nothing, or the first character and more. -/
theorem tokensMatch_run (t : Token) (ts : List Token) (c : Char) (cs : List Char)
    (h : t.isRun = true) :
    tokensMatch (t :: ts) (c :: cs) =
      (tokensMatch ts (c :: cs) || tokensMatch (t :: ts) cs) := by
  rw [tokensMatch, matchedSuffixes, matchedSuffixes_cons]
  simp [Token.extend, h, tokensMatch, matchedSuffixes]

/-! ## Components -/

/-- A component of a pattern of file names. -/
inductive Component where
  /-- One name. -/
  | name (text : String)
  /-- Any directories on the way. -/
  | directories
  /-- The names that tokens match. -/
  | wild (ts : List Token)
  deriving DecidableEq, Repr

namespace Component

/-- The character of a token that stands for one. -/
def plain? : Token → Option Char
  | .char c => some c
  | _ => none

/-- The component of tokens. -/
def ofTokens (ts : List Token) : Component :=
  match ts.mapM plain? with
  | some cs => .name (String.ofList cs)
  | none => if ts.contains .anyDirectories then .directories else .wild ts

/-- Whether a component matches a name. -/
def matchesName (name : String) : Component → Bool
  | .name text => text == name
  | .directories => true
  | .wild ts => tokensMatch ts name.toList

end Component

/-- The components with runs of `directories` cut to one. -/
def collapse : List Component → List Component
  | .directories :: ps =>
    match collapse ps with
    | .directories :: qs => .directories :: qs
    | qs => .directories :: qs
  | p :: ps => p :: collapse ps
  | [] => []

/-- A pattern of file names. -/
structure Pattern where
  /-- The directory at which it begins. -/
  base : String
  /-- The components. -/
  components : List Component
  /-- Whether only directories match. -/
  directoriesOnly : Bool
  deriving DecidableEq, Repr

/-- The parts of a text between slashes, without an empty one at the end. -/
def patternParts (text : String) : List String :=
  let parts := Path.parts text
  if parts.getLast? = some "" then parts.dropLast else parts

/-- The pattern that a text is. The text as a whole must be well formed, and so must each of its
components. -/
def Pattern.ofText (text : String) : Except PatternError Pattern := do
  let _ ← tokens text
  let absolute := Path.isAbsolute text
  let relative := if absolute then String.ofList (text.toList.drop 1) else text
  let components ← (patternParts relative).mapM fun part =>
    (tokens part).map Component.ofTokens
  return ⟨if absolute then "/" else ".", collapse components, Path.asksDirectory text⟩

/-- Whether a text is a pattern and not a plain name. -/
def isPattern (text : String) : Bool :=
  text.toList.any fun c => c = '*' || c = '?' || c = '[' || c = '\x7b'

end GrammarTypes.Glob
