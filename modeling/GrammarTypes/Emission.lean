import GrammarTypes.Declaration
import GrammarTypes.Derivation.Expr
import GrammarTypes.Grammar

/-!
# Declarations of a grammar

`Grammar.emit` is the text for a whole grammar: a preamble, the code of its initializers, and the
declarations of its rules in order, as section 6 of the specification lays it out.
`Grammar.summaries` describes the rules instead. There is no partial output: the first rule that
fails, fails the grammar.
-/

namespace GrammarTypes

/-- The functions that code of a grammar can call. -/
def preamble : String :=
  "declare function text(): string;\n" ++
  "declare function offset(): number;\n" ++
  "declare function range(): \x7b source: any; start: number; end: number \x7d;\n" ++
  "declare function location(): \x7b source: any; " ++
    "start: \x7b offset: number; line: number; column: number \x7d; " ++
    "end: \x7b offset: number; line: number; column: number \x7d \x7d;\n" ++
  "declare function expected(description: string, " ++
    "location?: ReturnType<typeof location>): never;\n" ++
  "declare function error(message: string, location?: ReturnType<typeof location>): never;\n"

/-- What to write, and how far character classes are expanded. -/
structure EmitOptions where
  /-- Whether the preamble is written. -/
  preamble : Bool := true
  /-- Whether the code of the initializers is written. -/
  initializers : Bool := true
  /-- The largest number of texts that a character class is expanded to. -/
  classLimit : Nat := 256
  deriving DecidableEq, Repr

/-- The declaration of a rule of a grammar with the given rule names. -/
def Rule.declare (options : EmitOptions) (ruleNames : List String) (rule : Rule) :
    Derivation Declaration := do
  Derivation.note [.ruleBegun rule.name rule.expression.kind]
  Derivation.restart
  let y ← rule.expression.deriveRule ⟨rule.name, ruleNames, options.classLimit⟩
  return ⟨rule.name, y⟩

/-- The text of a rule on its own. -/
def Rule.emit (options : EmitOptions) (ruleNames : List String) (rule : Rule) :
    Derivation String :=
  Declaration.render <$> rule.declare options ruleNames

namespace Grammar

/-- The declarations of the rules in order. -/
def declarations (options : EmitOptions) (g : Grammar) : Derivation (List Declaration) :=
  g.rules.mapM (Rule.declare options g.ruleNames)

/-- What is written before the rules. -/
def header (options : EmitOptions) (g : Grammar) : String :=
  (if options.preamble then GrammarTypes.preamble else "") ++
    (if options.initializers then String.join (g.codeBlocks.map (· ++ "\n")) else "")

/-- The text of the whole grammar. -/
def emit (options : EmitOptions) (g : Grammar) : Derivation String := do
  let ds ← g.declarations options
  return g.header options ++ String.join (ds.map Declaration.render)

/-- The summaries of the rules in order. -/
def summaries (options : EmitOptions) (g : Grammar) : Derivation (List Summary) := do
  let ds ← g.declarations options
  return ds.map Declaration.summary

end Grammar

end GrammarTypes
