import ModularGrammar.Grammar.Basic
import ModularGrammar.Precedence

/-!
# Composite grammars

What linking produces: one grammar with one lexicon, in which all modules stand side by side.
Unlike in a module's documents, every part is present.
-/

namespace ModularGrammar

/-- The lexer specification of all modules together. -/
structure CompositeLexicon where
  rules : List LexicalRule
  macros : Table String
  startConditions : Table UInt8
  /-- Code that the actions need, beginning with the definition of their helper. -/
  actionCode : String
deriving DecidableEq, Inhabited

/-- The grammar of all modules together. -/
structure CompositeGrammar where
  rules : RuleTable
  /-- The rule to start from. -/
  start : String
  /-- The precedence table, lowest priority first. -/
  precedence : List PrecedenceRow
  /-- Code that follows the generated parser. -/
  code : String
  lexicon : CompositeLexicon
deriving DecidableEq, Inhabited

end ModularGrammar
