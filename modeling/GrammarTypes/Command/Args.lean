import GrammarTypes.Text.Quoted
import GrammarTypes.Emission

/-!
# Arguments of the command line

A command names a task and its inputs, and sets options in any order (section 15 of the
specification). An option that takes a value has it in the same argument or in the next; the inputs
go on up to the next argument that begins with a dash. Anything else is a usage error. `Args.parse?`
reads the command that arguments are, and `Args.show` writes a command out with all its settings.
Only a command for declarations can be asked to show itself in place of being done.
-/

namespace GrammarTypes.Command

/-- What a command is to do. -/
inductive Task where
  /-- Write the declarations of the inputs, or only show the command itself. -/
  | declarations (noOp : Bool)
  /-- Write a report of what was derived. -/
  | inspect
  deriving DecidableEq, Repr

/-- A command. -/
structure Args where
  /-- What to do. -/
  task : Task
  /-- The names and patterns of the inputs. -/
  inputs : List String
  /-- Whether the preamble is left out. -/
  noPreamble : Bool
  /-- Whether the code of the initializers is left out. -/
  noInitializers : Bool
  /-- The largest number of texts that a character class is expanded to. -/
  classLimit : Nat
  /-- The file to write. -/
  out : Option String
  deriving DecidableEq, Repr

/-- Whether only the command itself is shown. -/
def Args.noOp (a : Args) : Bool :=
  match a.task with
  | .declarations noOp => noOp
  | .inspect => false

/-- What a command asks to be written. -/
def Args.options (a : Args) : EmitOptions :=
  ⟨!a.noPreamble, !a.noInitializers, a.classLimit⟩

/-! ## Reading -/

/-- The settings that have been read. -/
structure Settings where
  /-- What to do. -/
  task : Task
  /-- The inputs so far. -/
  inputs : List String := []
  /-- Whether the preamble is left out. -/
  noPreamble : Bool := false
  /-- Whether the code of the initializers is left out. -/
  noInitializers : Bool := false
  /-- The limit of character classes, if it has been given. -/
  classLimit : Option Nat := none
  /-- The file to write, if it has been given. -/
  out : Option String := none
  deriving Repr

/-- What the next argument can be. -/
inductive Awaited where
  /-- An option. -/
  | option
  /-- The first input of an option. -/
  | input
  /-- Another input, or an option. -/
  | moreInputs
  /-- The file to write. -/
  | outFile
  /-- The limit of character classes. -/
  | limit
  /-- Nothing. -/
  | nothing
  deriving DecidableEq, Repr

/-- Whether an argument can be a value: it has no dash before it, or it is a dash. -/
def isValue (arg : String) : Bool :=
  arg.toList.head? ≠ some '-' || arg = "-"

/-- A whole number of 64 bits: digits, with a plus sign before them or not. -/
def limit? (text : String) : Option Nat :=
  let digits :=
    match text.toList with
    | '+' :: ds => ds
    | ds => ds
  if digits.isEmpty || !digits.all Char.isDigit then none
  else
    let n := digits.foldl (fun n d => n * 10 + (d.toNat - 48)) 0
    if n < Nat.pow 2 64 then some n else none

/-- What follows a beginning of an argument. -/
def after? (beginning : String) (arg : List Char) : Option (List Char) :=
  if beginning.toList.isPrefixOf arg then some (arg.drop beginning.length) else none

/-- The value that follows a long option in one argument. -/
def longValue? (option : String) (arg : List Char) : Option String :=
  (after? (option ++ "=") arg).map String.ofList

/-- The value that follows a short option in one argument, after an equals sign or not. -/
def shortValue? (option : String) (arg : List Char) : Option String :=
  (after? option arg).map fun
    | '=' :: value => String.ofList value
    | value => String.ofList value

namespace Settings

/-- The settings with another input. -/
def addInput (s : Settings) (name : String) : Settings :=
  { s with inputs := s.inputs ++ [name] }

/-- The settings with a file to write, which must have a name and can be given once. -/
def setOut? (s : Settings) (name : String) : Option Settings :=
  if name = "" || s.out.isSome then none else some { s with out := some name }

/-- The settings with a limit of character classes, which can be given once. -/
def setLimit? (s : Settings) (text : String) : Option Settings :=
  if s.classLimit.isSome then none
  else (limit? text).map fun n => { s with classLimit := some n }

/-- The settings of a command that only shows itself, which can be asked for once and of declarations
only. -/
def setNoOp? (s : Settings) : Option Settings :=
  match s.task with
  | .declarations false => some { s with task := .declarations true }
  | .declarations true | .inspect => none

/-- The settings after an option without a value in the same argument. -/
def flag? (s : Settings) : String → Option (Awaited × Settings)
  | "-i" | "--input" => some (.input, s)
  | "-o" | "--out" => if s.out.isSome then none else some (.outFile, s)
  | "--class-limit" => if s.classLimit.isSome then none else some (.limit, s)
  | "--no-preamble" =>
    if s.noPreamble then none else some (.option, { s with noPreamble := true })
  | "--no-initializers" =>
    if s.noInitializers then none else some (.option, { s with noInitializers := true })
  | "--no-op" => s.setNoOp?.map fun s => (.option, s)
  | "--" => some (.nothing, s)
  | _ => none

/-- The settings after an option with a value in the same argument. -/
def attached? (s : Settings) (arg : List Char) : Option Settings :=
  match longValue? "--input" arg <|> shortValue? "-i" arg with
  | some value => some (s.addInput value)
  | none =>
    match longValue? "--out" arg <|> shortValue? "-o" arg with
    | some value => s.setOut? value
    | none => (longValue? "--class-limit" arg).bind s.setLimit?

/-- The settings after an option. -/
def option? (s : Settings) (arg : String) : Option (Awaited × Settings) :=
  match s.flag? arg with
  | some next => some next
  | none => (s.attached? arg.toList).map fun s => (.option, s)

/-- The settings after the arguments that follow the task. -/
def read? : Awaited → Settings → List String → Option Settings
  | .option, s, [] | .moreInputs, s, [] | .nothing, s, [] => some s
  | .input, _, [] | .outFile, _, [] | .limit, _, [] => none
  | .nothing, _, _ :: _ => none
  | .input, s, arg :: args =>
    if isValue arg then read? .moreInputs (s.addInput arg) args else none
  | .outFile, s, arg :: args =>
    if isValue arg then (s.setOut? arg).bind fun s => read? .option s args else none
  | .limit, s, arg :: args =>
    if isValue arg then (s.setLimit? arg).bind fun s => read? .option s args else none
  | .moreInputs, s, arg :: args =>
    if isValue arg then read? .moreInputs (s.addInput arg) args
    else (s.option? arg).bind fun (awaited, s) => read? awaited s args
  | .option, s, arg :: args =>
    if isValue arg then none
    else (s.option? arg).bind fun (awaited, s) => read? awaited s args

end Settings

/-- The task with a name. -/
def Task.ofName? : String → Option Task
  | "declarations" => some (.declarations false)
  | "inspect" => some .inspect
  | _ => none

/-- The command that arguments are, or none at a usage error. -/
def Args.parse? : List String → Option Args
  | [] => none
  | name :: args => do
    let task ← Task.ofName? name
    let s ← Settings.read? .option { task } args
    if s.inputs.isEmpty then none
    else some ⟨s.task, s.inputs, s.noPreamble, s.noInitializers, s.classLimit.getD 256, s.out⟩

/-! ## Showing -/

/-- A line at a level of indentation. -/
def indented (level : Nat) (text : String) : String :=
  String.ofList (List.replicate (4 * level) ' ') ++ text ++ "\n"

/-- The word for a truth value. -/
def flagText (b : Bool) : String :=
  if b then "true" else "false"

/-- The text that shows a command under the given names, with the lines of its own settings after
those that all commands have. -/
def Args.showAs (a : Args) (variant settings : String) (own : List String) : String :=
  String.join (
    [indented 0 "CommandLineInterface \x7b",
      indented 1 ("cmd: " ++ variant ++ "("),
      indented 2 (settings ++ " \x7b"),
      indented 3 "input_settings: InputSettings \x7b",
      indented 4 "input: ["] ++
    a.inputs.map (fun name => indented 5 (Text.quoted name ++ ",")) ++
    [indented 4 "],",
      indented 3 "\x7d,",
      indented 3 "emit_settings: EmitSettings \x7b",
      indented 4 ("no_preamble: " ++ flagText a.noPreamble ++ ","),
      indented 4 ("no_initializers: " ++ flagText a.noInitializers ++ ","),
      indented 4 ("class_limit: " ++ toString a.classLimit ++ ","),
      indented 3 "\x7d,"] ++
    (match a.out with
      | none => [indented 3 "out: None,"]
      | some name =>
        [indented 3 "out: Some(", indented 4 (Text.quoted name ++ ","), indented 3 "),"]) ++
    own ++
    [indented 2 "\x7d,",
      indented 1 "),",
      indented 0 "\x7d"])

/-- The text that shows a command. -/
def Args.show (a : Args) : String :=
  match a.task with
  | .declarations noOp =>
    a.showAs "Declarations" "DeclarationsOut" [indented 3 ("no_op: " ++ flagText noOp ++ ",")]
  | .inspect => a.showAs "Inspect" "InspectOut" []

end GrammarTypes.Command
