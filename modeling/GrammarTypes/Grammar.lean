import GrammarTypes.Expr

/-!
# Grammars

A grammar has rules, in order, and code that runs before them: once for the whole parser and once
for each parse.
-/

namespace GrammarTypes

/-- A rule: an expression with a name. -/
structure Rule where
  /-- The name. -/
  name : String
  /-- What the rule matches. -/
  expression : Expr
  deriving Repr

/-- The code that runs before the rules, as the syntax tree gives it. -/
inductive Initializer where
  /-- A single block. -/
  | one (code : String)
  /-- A list of blocks. -/
  | many (codes : List String)
  deriving DecidableEq, Repr

/-- The code blocks of an initializer. -/
def Initializer.blocks : Initializer → List String
  | .one code => [code]
  | .many codes => codes

/-- A grammar. -/
structure Grammar where
  /-- The code that runs once for the parser. -/
  topLevelInitializer : Option Initializer
  /-- The code that runs once for each parse. -/
  initializer : Option Initializer
  /-- The rules in order. -/
  rules : List Rule
  deriving Repr

namespace Grammar

/-- The names of the rules, each once, in order of first occurrence. -/
def ruleNames (g : Grammar) : List String :=
  (g.rules.map Rule.name).eraseDups

/-- The code blocks that run before the rules: those of the parser, then those of each parse. -/
def codeBlocks (g : Grammar) : List String :=
  [g.topLevelInitializer, g.initializer].flatMap fun i => (i.map Initializer.blocks).getD []

end Grammar

end GrammarTypes
