import ModularGrammar.Table

/-!
# Grammars and lexicons

The two documents a module consists of.  A grammar has rules, each a list of alternatives; a lexicon
has lexer rules, pattern macros and start conditions.  Both carry lines with directives, and code
that is passed through to the generated parser.
-/

namespace ModularGrammar

/-! ## Grammar -/

/-- One way to derive a rule. -/
structure Alternative where
  /-- The symbols, separated by single spaces; empty for the empty derivation. -/
  symbols : String
  /-- The code to run for this alternative. -/
  action : Option String := none
  /-- The token whose precedence the alternative takes. -/
  precedence : Option String := none
deriving DecidableEq, Repr, Inhabited

/-- The rules of a grammar with their alternatives, in order of declaration. -/
abbrev RuleTable := Table (List Alternative)

/-- The lexer rules of one kind of text: a pattern and what to do when it matches. -/
structure LexicalRule where
  /-- The start conditions under which the rule is active; a rule without a list of conditions is
  told apart from one with an empty list. -/
  conditions : Option (List String)
  pattern : String
  action : String
deriving DecidableEq, Repr, Inhabited

/-- The lexer specification of a module. -/
structure Lexicon where
  rules : List LexicalRule := []
  /-- Pattern fragments, referred to by their name in braces. -/
  macros : Table String := .empty
  /-- Start conditions, each with a flag that tells whether it is exclusive. -/
  startConditions : Table UInt8 := .empty
  /-- Code that the actions need. -/
  actionCode : Option String := none
  /-- The lines that begin with a percent sign. -/
  directives : List String := []
deriving DecidableEq, Inhabited

structure Grammar where
  rules : RuleTable := .empty
  /-- The rule to start from, if the grammar names one. -/
  start : Option String := none
  /-- Code that follows the generated parser. -/
  code : Option String := none
  /-- The lines that begin with a percent sign. -/
  directives : List String := []
  /-- A table of operators in the old style, which modules must not use. -/
  operators : Option (List (List String)) := none
  /-- A lexicon that stands in the grammar itself. -/
  lexicon : Option Lexicon := none
deriving DecidableEq, Inhabited

/-- Whether the grammar has operators in the old style. -/
def Grammar.hasOperators (g : Grammar) : Bool :=
  match g.operators with
  | some (_ :: _) => true
  | _ => false

end ModularGrammar
