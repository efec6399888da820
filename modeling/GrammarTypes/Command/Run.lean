import GrammarTypes.Command.Args
import GrammarTypes.Decode.Grammar
import GrammarTypes.Glob.Search
import GrammarTypes.Json.Printer

/-!
# Running a command

`run` is what the command line does, as a function of the files, the standard input and the
arguments. All inputs are found, then read and decoded in order, then derived in order, and only
when all of that has succeeded is anything written (`Args.session`).
-/

namespace GrammarTypes.Command

/-! ## Sessions -/

/-- Why a run fails. -/
inductive RunError where
  /-- An input is no pattern. -/
  | badPattern (e : Glob.PatternError)
  /-- No file matches a pattern. -/
  | noMatch (pattern : String)
  /-- The standard input cannot be read. -/
  | unreadableStdin (e : FileError)
  /-- A file cannot be read. -/
  | unreadable (source : String) (e : FileError)
  /-- A source is not the syntax tree of a grammar. -/
  | undecodable (source : String) (e : DecodeError)
  /-- No types can be derived for a grammar. -/
  | underivable (source : String) (e : InvalidRange)
  /-- The directory of the output cannot be made. -/
  | uncreatable (path : String) (e : FileError)
  /-- The output cannot be written. -/
  | unwritable (path : String) (e : FileError)
  deriving DecidableEq, Repr

/-- The text of a run error. -/
def RunError.message : RunError → String
  | .badPattern e => "failed to resolve input file paths: " ++ e.message
  | .noMatch pattern =>
    "failed to resolve input file paths: glob pattern matched no files: " ++ pattern
  | .unreadableStdin e => "failed to read grammar AST from stdin: " ++ e.message
  | .unreadable source e => "failed to read source file (" ++ source ++ "): " ++ e.message
  | .undecodable source e => "failed to decode grammar AST (" ++ source ++ "): " ++ e.message
  | .underivable source e => "failed to derive types (" ++ source ++ "): " ++ e.message
  | .uncreatable path e => "failed to create " ++ path ++ ": " ++ e.message
  | .unwritable path e => "failed to write " ++ path ++ ": " ++ e.message

/-- What a run works on, and what it has done so far. -/
structure World where
  /-- The files. -/
  files : FileTree
  /-- What is left of the standard input. -/
  stdin : Content
  /-- What has been written to the standard output. -/
  stdout : String := ""
  /-- The events so far, oldest first. -/
  log : List Event := []

/-- A computation in a world that can fail. What was done before a failure stays done. -/
abbrev Session (α : Type) := ExceptT RunError (StateM World) α

namespace Session

variable {α : Type}

/-- Runs a session in a world: its outcome and the world it leaves. -/
def runFrom (s : Session α) (w : World) : Except RunError α × World :=
  StateT.run (ExceptT.run s) w

/-- A result as a session. -/
def ofResult : Except RunError α → Session α
  | .ok x => pure x
  | .error e => throw e

/-- Notes events in the log. -/
def note (events : List Event) : Session Unit :=
  modify fun w => { w with log := w.log ++ events }

/-- The files as they are. -/
def files : Session FileTree :=
  return (← get).files

/-- Takes what is left of the standard input, after which nothing is left. -/
def takeStdin : Session Content := do
  let w ← get
  set { w with stdin := .text "" }
  return w.stdin

/-- Writes a text to the standard output. -/
def print (text : String) : Session Unit :=
  modify fun w => { w with stdout := w.stdout ++ text }

/-- Makes an attempt to change the files, with the given reason for a failure. -/
def change (attempt : FileTree → FileTree.Attempt) (reason : FileError → RunError) :
    Session Unit := do
  let w ← get
  let made := attempt w.files
  set { w with files := made.files }
  ofResult (made.result.mapError reason)

end Session

open Session

/-! ## Inputs -/

/-- The files that an input stands for. -/
def resolveInput (t : FileTree) (input : String) : Except RunError (List String) :=
  if Glob.isPattern input then
    match Glob.Pattern.ofText input with
    | .error e => .error (.badPattern e)
    | .ok pattern =>
      match pattern.files t with
      | [] => .error (.noMatch input)
      | files => .ok files
  else .ok [input]

/-- The files that inputs stand for, in order. -/
def resolveInputs (t : FileTree) (inputs : List String) : Except RunError (List String) :=
  (inputs.mapM (resolveInput t)).map List.flatten

/-- The name of the standard input in messages. -/
def stdinLabel : String := "<stdin>"

/-- The label and the text of a source. -/
def readSource (path : String) : Session (String × String) := do
  if Path.isStdin path then
    let content ← takeStdin
    let text ← ofResult (content.readText.mapError .unreadableStdin)
    return (stdinLabel, text)
  else
    let t ← files
    let text ← ofResult ((t.readText path).mapError (.unreadable path))
    return (path, text)

/-- The grammar of a source, with its label. -/
def loadSource (path : String) : Session (String × Grammar) := do
  let (label, text) ← readSource path
  let g ← ofResult ((Grammar.ofText text).mapError (.undecodable label))
  note [.loaded label g.rules.length]
  return (label, g)

/-- The grammars of inputs, in order. All inputs are found before any is read. -/
def loadInputs (inputs : List String) : Session (List (String × Grammar)) := do
  let t ← files
  let paths ← ofResult (resolveInputs t inputs)
  paths.mapM loadSource

/-! ## Output -/

/-- What is derived for a source. -/
def deriveSource {α : Type} (label : String) (d : Derivation α) : Session α := do
  note d.outcome.2
  ofResult (d.outcome.1.mapError (.underivable label))

/-- The JSON value of a summary. -/
def summaryValue (s : Summary) : Json.Value :=
  let texts (ss : List String) : Json.Value := .array (ss.map .string)
  .object [
    ("name", .string s.name),
    ("exported_type", .string s.exportedType),
    ("candidates", texts s.candidates),
    ("labels", .object (s.labels.map fun (name, types) => (name, texts types))),
    ("action", .bool s.action),
    ("helpers", .array (s.helpers.map fun h => .object [
      ("name", .string h.name),
      ("kind", .string h.kind.label),
      ("declaration", .string h.declaration)]))]

/-- The JSON value of the report on a source. -/
def reportValue (label : String) (rules : List Summary) : Json.Value :=
  .object [("source", .string label), ("rules", .array (rules.map summaryValue))]

/-- The declarations of a source. -/
def sourceDeclarations (options : EmitOptions) (source : String × Grammar) : Session String :=
  deriveSource source.1 (source.2.emit options)

/-- The report on a source. -/
def sourceReport (options : EmitOptions) (source : String × Grammar) : Session Json.Value :=
  reportValue source.1 <$> deriveSource source.1 (source.2.summaries options)

/-- What is made of each input of a command, in order. All inputs are read before anything is made
of the first. -/
def eachInput {α : Type} (a : Args) (make : String × Grammar → Session α) : Session (List α) := do
  let sources ← loadInputs a.inputs
  sources.mapM make

/-- The declarations of the inputs of a command. -/
def declarations (a : Args) : Session (List String) :=
  eachInput a (sourceDeclarations a.options)

/-- The reports on the inputs of a command. -/
def reports (a : Args) : Session (List Json.Value) :=
  eachInput a (sourceReport a.options)

/-- The text of a list of reports. -/
def reportText (reports : List Json.Value) : String :=
  (Json.Value.array reports).pretty 0 ++ "\n"

/-- The text that a command writes. -/
def outputText (a : Args) : Session String :=
  match a.task with
  | .declarations _ => String.join <$> declarations a
  | .inspect => reportText <$> reports a

/-- Makes the directory that a file is to be in. -/
def makeParent (path : String) : Session Unit :=
  match Path.parent? path with
  | none => pure ()
  | some directory => change (·.makeDirectories directory) (.uncreatable directory)

/-- Writes a text to a file, in a directory that is made when it is not there. -/
def writeFile (path text : String) : Session Unit := do
  makeParent path
  change (fun t => t.attempt (t.write path (.text text))) (.unwritable path)

/-- Writes a text to the file that is given, or to the standard output. -/
def deliver (out : Option String) (text : String) : Session Unit :=
  match out with
  | none => print text
  | some path => writeFile path text

/-- Does what a command asks for. Nothing is written before the whole text is there. -/
def Args.session (a : Args) : Session Unit := do
  let text ← outputText a
  deliver a.out text

/-! ## Outcomes -/

/-- What a run leaves behind. -/
structure Outcome where
  /-- The exit code. -/
  exitCode : Nat
  /-- The text on the standard output. -/
  stdout : String
  /-- The text on the standard error. -/
  stderr : String
  /-- The files. -/
  files : FileTree

/-- What is shown for a run error. -/
def errorText (e : RunError) : String :=
  "error: " ++ e.message ++ "\n"

/-- Runs a command. -/
def Args.run (a : Args) (level : Option Level) (t : FileTree) (stdin : Content) : Outcome :=
  if a.noOp then ⟨0, "", a.show, t⟩
  else
    let (result, w) := a.session.runFrom ⟨t, stdin, "", []⟩
    let lines := Event.lines level w.log
    match result with
    | .ok () => ⟨0, w.stdout, lines, w.files⟩
    | .error e => ⟨1, w.stdout, lines ++ errorText e, w.files⟩

/-- The exit code of a usage error. -/
def usageCode : Nat := 2

/-- Runs the command that arguments are. -/
def run (level : Option Level) (t : FileTree) (stdin : Content) (args : List String) : Outcome :=
  match Args.parse? args with
  | none => ⟨usageCode, "", "", t⟩
  | some a => a.run level t stdin

end GrammarTypes.Command
