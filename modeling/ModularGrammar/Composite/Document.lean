import ModularGrammar.Composite.Basic
import ModularGrammar.Grammar.Document
import ModularGrammar.Json.Bytes

/-!
# Documents of composite grammars

A composite grammar is written with all its parts, and all of them must be there when it is read.
-/

namespace ModularGrammar

open Json

/-! ## Precedence tables -/

def PrecedenceRow.ofJson? (value : Json) : Option PrecedenceRow :=
  (list? text? value).bind ofWords?

def PrecedenceRow.toJson (row : PrecedenceRow) : Json := texts row.words

/-! ## Lexicons -/

namespace CompositeLexicon

def fieldNames : List String := ["rules", "macros", "startConditions", "actionInclude"]

def ofJson? (levels : Nat) (value : Json) : Option CompositeLexicon := do
  match ← fields? fieldNames value with
  | [rules, macros, startConditions, actionCode] =>
    return {
      rules := ← required (list? (LexicalRule.ofJson? (levels - 2))) rules
      macros := ← required (table? text?) macros
      startConditions := ← required (table? byte?) startConditions
      actionCode := ← required text? actionCode }
  | _ => none

def toJson (l : CompositeLexicon) : Json :=
  .object [
    ("rules", ofList LexicalRule.toJson l.rules),
    ("macros", ofTable .string l.macros),
    ("startConditions", ofTable Lexicon.flagJson l.startConditions),
    ("actionInclude", .string l.actionCode)]

end CompositeLexicon

/-! ## Grammars -/

namespace CompositeGrammar

def fieldNames : List String := ["bnf", "start", "operators", "moduleInclude", "lex"]

def ofJson? (levels : Nat) (value : Json) : Option CompositeGrammar := do
  match ← fields? fieldNames value with
  | [rules, start, precedence, code, lexicon] =>
    return {
      rules := ← required (RuleTable.ofJson? (levels - 1)) rules
      start := ← required text? start
      precedence := ← required (list? PrecedenceRow.ofJson?) precedence
      code := ← required text? code
      lexicon := ← required (CompositeLexicon.ofJson? (levels - 1)) lexicon }
  | _ => none

def toJson (g : CompositeGrammar) : Json :=
  .object [
    ("bnf", g.rules.toJson),
    ("start", .string g.start),
    ("operators", ofList PrecedenceRow.toJson g.precedence),
    ("moduleInclude", .string g.code),
    ("lex", g.lexicon.toJson)]

def read? (s : String) : Option CompositeGrammar := (Json.read? s).bind (ofJson? maxDepth)

/-- The composite grammar that the text with the given bytes stands for. -/
def readBytes? (bytes : ByteArray) : Option CompositeGrammar :=
  (Json.readBytes? bytes).bind (ofJson? maxDepth)

/-- The text of a file that holds the composite grammar. -/
def fileText (g : CompositeGrammar) : String := g.toJson.pretty ++ "\n"

end CompositeGrammar

end ModularGrammar
