import GrammarTypes.Event
import GrammarTypes.Scope
import GrammarTypes.Text.Quoted
import GrammarTypes.Yield

/-!
# Derivations

A derivation computes the types of a rule. It numbers the helpers it makes and keeps a log, and it
can fail at a malformed character range. The numbers taken and the events noted before a failure
stay in the ledger.
-/

namespace GrammarTypes

/-- A range of a character class whose endpoints are not single characters in order. -/
structure InvalidRange where
  /-- The rule that has the class. -/
  rule : String
  /-- The lower endpoint. -/
  lower : String
  /-- The upper endpoint. -/
  upper : String
  deriving DecidableEq, Repr

/-- The text of the error. -/
def InvalidRange.message (e : InvalidRange) : String :=
  "rule `" ++ e.rule ++ "`: character class range endpoints must be single characters, got " ++
    Text.quoted e.lower ++ "-" ++ Text.quoted e.upper

/-- What a derivation keeps: the number of the next helper and the log. -/
structure Ledger where
  /-- The number of the next helper. -/
  next : Nat := 1
  /-- The events so far, oldest first. -/
  log : List Event := []
  deriving Repr

/-- A computation that keeps a ledger and can fail at a malformed range. -/
abbrev Derivation (α : Type) := ExceptT InvalidRange (StateM Ledger) α

namespace Derivation

/-- Notes events in the log. -/
def note (events : List Event) : Derivation Unit :=
  modify fun ledger => { ledger with log := ledger.log ++ events }

/-- Notes the labels that merging the second scope into the first binds again. -/
def noteClashes (s other : Scope) : Derivation Unit :=
  note ((s.clashes other).map Event.labelRebound)

/-- Takes the next number for a helper of a rule and returns the helper's name. -/
def takeName (rule : String) : Derivation String := do
  let ledger ← get
  set { ledger with next := ledger.next + 1 }
  return Helper.numberedName rule ledger.next

/-- Begins the numbers again. -/
def restart : Derivation Unit :=
  modify fun ledger => { ledger with next := 1 }

/-- Runs a derivation from a ledger: its outcome and the ledger it leaves. -/
def runFrom {α : Type} (d : Derivation α) (ledger : Ledger) : Except InvalidRange α × Ledger :=
  StateT.run (ExceptT.run d) ledger

/-- Runs a derivation from the beginning: its outcome and its log. -/
def outcome {α : Type} (d : Derivation α) : Except InvalidRange α × List Event :=
  let (result, ledger) := d.runFrom {}
  (result, ledger.log)

end Derivation

end GrammarTypes
