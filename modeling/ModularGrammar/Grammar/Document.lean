import ModularGrammar.Grammar.Basic
import ModularGrammar.Json.Reader
import ModularGrammar.Json.Record
import ModularGrammar.Json.Writer

/-!
# Documents of grammars and lexicons

How grammars and lexicons are written as JSON.  Parts that are absent or empty are left out, and may
be left out by the author.

Alternatives and lexer rules have several shapes, which are told apart by looking at the whole
value.  So the whole value has to be readable, and must not nest deeper than `Json.maxDepth` levels
together with the containers around it; `levels` counts the levels that are left.
-/

namespace ModularGrammar

open Json

/-! ## Alternatives -/

namespace Alternative

/-- The token of a precedence override. -/
def overrideToken? (value : Json) : Option String := do
  match ← fields? ["prec"] value with
  | [token] => required text? token
  | _ => none

/-- The alternative a value stands for, by its shape: the symbols alone, bare or in an array, or an
array of the symbols with an action, a precedence override, or both in this order. -/
def ofShape? : Json → Option Alternative
  | .string symbols => some { symbols }
  | .array [.string symbols] => some { symbols }
  | .array [.string symbols, .string action] => some { symbols, action := some action }
  | .array [.string symbols, override] =>
    (overrideToken? override).map fun token => { symbols, precedence := some token }
  | .array [.string symbols, .string action, override] =>
    (overrideToken? override).map fun token =>
      { symbols, action := some action, precedence := some token }
  | _ => none

def ofJson? (levels : Nat) (value : Json) : Option Alternative :=
  if value.fits levels then ofShape? value else none

/-- A precedence override. -/
def override (token : String) : Json := .object [("prec", .string token)]

/-- The shortest shape of an alternative. -/
def toJson (a : Alternative) : Json :=
  match a.action, a.precedence with
  | none, none => .string a.symbols
  | some action, none => .array [.string a.symbols, .string action]
  | none, some token => .array [.string a.symbols, override token]
  | some action, some token => .array [.string a.symbols, .string action, override token]

end Alternative

/-- The rules of a document. -/
def RuleTable.ofJson? (levels : Nat) (value : Json) : Option RuleTable :=
  table? (list? (Alternative.ofJson? (levels - 2))) value

/-- The rules in a document. -/
def RuleTable.toJson (rules : RuleTable) : Json :=
  ofTable (ofList Alternative.toJson) rules

/-! ## Lexer rules -/

namespace LexicalRule

/-- The lexer rule a value stands for, by its shape: an array of the pattern and the action, with
the list of conditions before them, if any. -/
def ofShape? : Json → Option LexicalRule
  | .array [.string pattern, .string action] => some ⟨none, pattern, action⟩
  | .array [conditions, .string pattern, .string action] =>
    (list? text? conditions).map fun conditions => ⟨some conditions, pattern, action⟩
  | _ => none

def ofJson? (levels : Nat) (value : Json) : Option LexicalRule :=
  if value.fits levels then ofShape? value else none

/-- The shape of a lexer rule. -/
def toJson (rule : LexicalRule) : Json :=
  match rule.conditions with
  | none => .array [.string rule.pattern, .string rule.action]
  | some conditions => .array [texts conditions, .string rule.pattern, .string rule.action]

end LexicalRule

/-! ## Lexicons -/

namespace Lexicon

def fieldNames : List String :=
  ["rules", "macros", "startConditions", "actionInclude", "unknownDecls"]

def ofJson? (levels : Nat) (value : Json) : Option Lexicon := do
  match ← fields? fieldNames value with
  | [rules, macros, startConditions, actionCode, directives] =>
    return {
      rules := ← withDefault [] (list? (LexicalRule.ofJson? (levels - 2))) rules
      macros := ← withDefault .empty (table? text?) macros
      startConditions := ← withDefault .empty (table? byte?) startConditions
      actionCode := ← optional text? actionCode
      directives := ← withDefault [] (list? text?) directives }
  | _ => none

def flagJson (flag : UInt8) : Json := natural flag.toNat

def toJson (l : Lexicon) : Json :=
  .object
    ([("rules", ofList LexicalRule.toJson l.rules)] ++
      (if l.macros.isEmpty then [] else [("macros", ofTable .string l.macros)]) ++
      (if l.startConditions.isEmpty then []
        else [("startConditions", ofTable flagJson l.startConditions)]) ++
      optionalMember "actionInclude" .string l.actionCode ++
      (if l.directives.isEmpty then [] else [("unknownDecls", texts l.directives)]))

def read? (s : String) : Option Lexicon := (Json.read? s).bind (ofJson? maxDepth)

end Lexicon

/-! ## Grammars -/

namespace Grammar

def fieldNames : List String :=
  ["bnf", "start", "moduleInclude", "unknownDecls", "operators", "lex"]

def ofJson? (levels : Nat) (value : Json) : Option Grammar := do
  match ← fields? fieldNames value with
  | [rules, start, code, directives, operators, lexicon] =>
    return {
      rules := ← withDefault .empty (RuleTable.ofJson? (levels - 1)) rules
      start := ← optional text? start
      code := ← optional text? code
      directives := ← withDefault [] (list? text?) directives
      operators := ← optional (list? (list? text?)) operators
      lexicon := ← optional (Lexicon.ofJson? (levels - 1)) lexicon }
  | _ => none

def toJson (g : Grammar) : Json :=
  .object
    ([("bnf", g.rules.toJson)] ++
      optionalMember "start" .string g.start ++
      optionalMember "moduleInclude" .string g.code ++
      (if g.directives.isEmpty then [] else [("unknownDecls", texts g.directives)]) ++
      optionalMember "operators" (ofList texts) g.operators ++
      optionalMember "lex" Lexicon.toJson g.lexicon)

def read? (s : String) : Option Grammar := (Json.read? s).bind (ofJson? maxDepth)

end Grammar

end ModularGrammar
