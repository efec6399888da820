/-!
# Expressions of a grammar

The expressions of a parsing expression grammar, as a grammar's syntax tree has them. The set of
kinds is closed, and each kind has a tag by which the tree names it.
-/

namespace GrammarTypes

/-- A part of a character class. -/
inductive ClassPart where
  /-- One text that the class lists. -/
  | char (value : String)
  /-- All characters from one to another. The endpoints are texts as the grammar writes them, and
  only single characters in order make a range. -/
  | range (lower upper : String)
  deriving DecidableEq, Repr

/-- An expression of a grammar. -/
inductive Expr where
  /-- A match whose value is computed by code. -/
  | action (code : String) (expression : Expr)
  /-- Any character. -/
  | any
  /-- The first alternative that matches. -/
  | choice (alternatives : List Expr)
  /-- One character of a class. -/
  | charClass (parts : List ClassPart) (inverted ignoreCase : Bool)
  /-- An expression in parentheses. -/
  | group (expression : Expr)
  /-- A captured expression, with or without a label. -/
  | labeled (label : Option String) (expression : Expr)
  /-- An exact text. -/
  | literal (value : String) (ignoreCase : Bool)
  /-- An expression with a display name. -/
  | named (name : String) (expression : Expr)
  /-- One or more matches. -/
  | oneOrMore (expression : Expr)
  /-- A match or nothing. -/
  | optional (expression : Expr)
  /-- A reference to a rule. -/
  | ruleRef (name : String)
  /-- A condition in code that must hold. -/
  | semanticAnd (code : String)
  /-- A condition in code that must fail. -/
  | semanticNot (code : String)
  /-- Several expressions one after another. -/
  | sequence (elements : List Expr)
  /-- A lookahead that must match. -/
  | simpleAnd (expression : Expr)
  /-- A lookahead that must fail. -/
  | simpleNot (expression : Expr)
  /-- A match of which only the text counts. -/
  | text (expression : Expr)
  /-- Any number of matches. -/
  | zeroOrMore (expression : Expr)
  deriving Repr, Inhabited

/-- The kinds of expression. -/
inductive Expr.Kind where
  | action | any | choice | charClass | group | labeled | literal | named | oneOrMore | optional
  | ruleRef | semanticAnd | semanticNot | sequence | simpleAnd | simpleNot | text | zeroOrMore
  deriving DecidableEq, Repr

namespace Expr

namespace Kind

/-- All kinds, in the order of their numbers. -/
def all : List Kind :=
  [.action, .any, .choice, .charClass, .group, .labeled, .literal, .named, .oneOrMore, .optional,
    .ruleRef, .semanticAnd, .semanticNot, .sequence, .simpleAnd, .simpleNot, .text, .zeroOrMore]

/-- The tag of a kind in a syntax tree. -/
def tag : Kind → String
  | .action => "action"
  | .any => "any"
  | .choice => "choice"
  | .charClass => "class"
  | .group => "group"
  | .labeled => "labeled"
  | .literal => "literal"
  | .named => "named"
  | .oneOrMore => "one_or_more"
  | .optional => "optional"
  | .ruleRef => "rule_ref"
  | .semanticAnd => "semantic_and"
  | .semanticNot => "semantic_not"
  | .sequence => "sequence"
  | .simpleAnd => "simple_and"
  | .simpleNot => "simple_not"
  | .text => "text"
  | .zeroOrMore => "zero_or_more"

/-- The kind with a tag. -/
def ofTag? (tag : String) : Option Kind :=
  all.find? fun k => k.tag == tag

/-- The kind with a number. -/
def ofNumber? (n : Nat) : Option Kind :=
  all[n]?

end Kind

/-- The kind of an expression. -/
def kind : Expr → Kind
  | .action .. => .action
  | .any => .any
  | .choice .. => .choice
  | .charClass .. => .charClass
  | .group .. => .group
  | .labeled .. => .labeled
  | .literal .. => .literal
  | .named .. => .named
  | .oneOrMore .. => .oneOrMore
  | .optional .. => .optional
  | .ruleRef .. => .ruleRef
  | .semanticAnd .. => .semanticAnd
  | .semanticNot .. => .semanticNot
  | .sequence .. => .sequence
  | .simpleAnd .. => .simpleAnd
  | .simpleNot .. => .simpleNot
  | .text .. => .text
  | .zeroOrMore .. => .zeroOrMore

/-- The expression beneath the display names at its top. -/
def unnamed : Expr → Expr
  | .named _ e => unnamed e
  | e => e

end Expr

end GrammarTypes
