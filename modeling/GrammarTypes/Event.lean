import GrammarTypes.Expr
import GrammarTypes.Text.ControlSequence

/-!
# The log

Reading a grammar and deriving its types leave a log of events. An event says what happened; its
level, the part of the program it belongs to and its text follow from that.
-/

namespace GrammarTypes

/-- The levels of the log, most severe first. -/
inductive Level where
  | error | warn | info | debug | trace
  deriving DecidableEq, Repr

namespace Level

/-- The rank of a level, lower for the more severe. -/
def rank : Level → Nat
  | .error => 1
  | .warn => 2
  | .info => 3
  | .debug => 4
  | .trace => 5

/-- The word for a level. -/
def label : Level → String
  | .error => "ERROR"
  | .warn => "WARN"
  | .info => "INFO"
  | .debug => "DEBUG"
  | .trace => "TRACE"

/-- The word for a level in a column of five characters. -/
def column (l : Level) : String :=
  l.label ++ String.ofList (List.replicate (5 - l.label.length) ' ')

end Level

/-- What the log records. -/
inductive Event where
  /-- A grammar was read. -/
  | loaded (source : String) (rules : Nat)
  /-- The derivation of a rule begins. -/
  | ruleBegun (rule : String) (kind : Expr.Kind)
  /-- A label that has candidates already was bound again. -/
  | labelRebound (label : String)
  /-- A rule refers to a rule that the grammar does not have. -/
  | danglingReference (rule name : String)
  /-- An action became a helper with the given parameter list. -/
  | actionWrapped (rule helper params : String)
  deriving DecidableEq, Repr

namespace Event

/-- The level of an event. -/
def level : Event → Level
  | .loaded .. | .ruleBegun .. | .labelRebound .. => .debug
  | .danglingReference .. => .warn
  | .actionWrapped .. => .trace

/-- The part of the program that an event belongs to. -/
def origin : Event → String
  | .loaded .. => "peggy_typegen::cli"
  | .ruleBegun .. => "peggy_typegen::emit"
  | .labelRebound .. => "peggy_typegen::synth::scope"
  | .danglingReference .. | .actionWrapped .. => "peggy_typegen::synth"

/-- The text of an event. -/
def message : Event → String
  | .loaded source rules => "loaded " ++ source ++ ": " ++ toString rules ++ " rules"
  | .ruleBegun rule kind => "synthesizing rule `" ++ rule ++ "` (" ++ kind.tag ++ ")"
  | .labelRebound label => "label `" ++ label ++ "` bound more than once, unioning its candidates"
  | .danglingReference rule name =>
    "rule `" ++ rule ++ "` references undefined rule `" ++ name ++ "`"
  | .actionWrapped rule helper params =>
    "rule `" ++ rule ++ "`: helper " ++ helper ++ "(" ++ params ++ ")"

/-- A character of a message as the log shows it: what follows a line break is indented. -/
def indent (c : Char) : List Char :=
  if c = '\n' then c :: List.replicate 4 ' ' else [c]

/-- The line of the log that shows an event. Only what a terminal would show of it is written, so a
sequence that the message leaves open takes the end of the line with it. -/
def line (e : Event) : String :=
  let header := "[" ++ e.level.column ++ " " ++ e.origin ++ "] "
  String.ofList (Text.shown (header.toList ++ e.message.toList.flatMap indent ++ ['\n']))

/-- The lines of a log up to a level, and none of it without a level. -/
def lines (limit : Option Level) (log : List Event) : String :=
  match limit with
  | none => ""
  | some limit =>
    String.join ((log.filter fun e => e.level.rank ≤ limit.rank).map line)

end Event

end GrammarTypes
