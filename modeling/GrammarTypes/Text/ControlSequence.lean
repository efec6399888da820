/-!
# Control sequences of a terminal

A text for a terminal can hold sequences that the terminal obeys and does not show. They begin with
an escape and go on up to a final character, or, for those that carry a string, up to a terminator.
`Text.shown` is what remains of a text without them and without controls other than white space.
-/

namespace GrammarTypes.Text

/-- Where a terminal is in its reading. -/
inductive Phase where
  /-- Outside a sequence. -/
  | ground
  /-- After an escape. -/
  | escape
  /-- In a short sequence that goes on. -/
  | escapeIntermediate
  /-- In a sequence with parameters. -/
  | control
  /-- In a command of the operating system, which a bell ends. -/
  | command
  /-- At the beginning of a string for the device. -/
  | deviceEntry
  /-- In the parameters of a string for the device. -/
  | deviceParameter
  /-- After the parameters of a string for the device. -/
  | deviceIntermediate
  /-- In a string of any other kind. -/
  | string
  deriving DecidableEq, Repr

/-- Whether a control is white space. -/
def isSpacing (c : Char) : Bool :=
  c = '\t' || c = '\n' || c = '\x0c' || c = '\r'

/-- Whether a character is between two others, both included. -/
def isWithin (lower upper : Char) (c : Char) : Bool :=
  lower ≤ c && c ≤ upper

/-- Whether the encoding of a character holds the byte that terminates a string. -/
def holdsTerminator (c : Char) : Bool :=
  (String.utf8EncodeChar c).contains 0x9c

namespace Phase

/-- Whether a character is shown. White space is shown also inside a sequence that has no string. -/
def shows (c : Char) : Phase → Bool
  | .ground => isSpacing c || (' ' ≤ c && c ≠ '\x7f')
  | .escape | .escapeIntermediate | .control => isSpacing c
  | .command | .deviceEntry | .deviceParameter | .deviceIntermediate | .string => false

/-- Where a character after an escape leads to. -/
def afterEscape (c : Char) : Phase :=
  if isWithin ' ' '/' c then .escapeIntermediate
  else if c = '[' then .control
  else if c = ']' then .command
  else if c = 'P' then .deviceEntry
  else if c = 'X' || c = '^' || c = '_' then .string
  else if isWithin '0' '~' c then .ground
  else .escape

/-- Where a character of the head of a string for the device leads to, from a given phase in which
the characters of `closing` are out of place. -/
def afterDevice (closing : Char → Bool) (c : Char) (phase : Phase) : Phase :=
  if closing c then .string
  else if isWithin ' ' '/' c then .deviceIntermediate
  else if isWithin '0' '?' c then .deviceParameter
  else if isWithin '@' '~' c then .string
  else phase

/-- Where a character that is not shown leads to. -/
def next (c : Char) (phase : Phase) : Phase :=
  if c = '\x18' || c = '\x1a' then .ground
  else if c = '\x1b' then .escape
  else
    match phase with
    | .ground => .ground
    | .escape => afterEscape c
    | .escapeIntermediate => if isWithin '0' '~' c then .ground else .escapeIntermediate
    | .control => if isWithin '@' '~' c then .ground else .control
    | .command => if c = '\x07' then .ground else .command
    | .deviceEntry => afterDevice (fun _ => false) c .deviceEntry
    | .deviceParameter => afterDevice (isWithin '<' '?') c .deviceParameter
    | .deviceIntermediate => afterDevice (isWithin '0' '?') c .deviceIntermediate
    | .string => if holdsTerminator c then .ground else .string

end Phase

/-- What is shown of a text from a phase on. In a run of characters that are shown the phase waits:
the run goes on as outside a sequence, and the first character that is not shown takes the phase up
again. A character beyond ASCII ends the sequence that waits. -/
def shownFrom (inRun : Bool) (phase : Phase) : List Char → List Char
  | [] => []
  | c :: cs =>
    if (if inRun then Phase.ground else phase).shows c then
      c :: shownFrom true (if c ≤ '\x7f' then phase else .ground) cs
    else shownFrom false (phase.next c) cs

/-- What is shown of a text. -/
def shown (cs : List Char) : List Char :=
  shownFrom false .ground cs

end GrammarTypes.Text
