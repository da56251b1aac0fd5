import ModularGrammar.ActionHelper
import ModularGrammar.Composite.Basic
import ModularGrammar.Error

/-!
# Composition

Putting modules with global names together.  Modules stand in the order of their priorities, those
of equal priority in the order given; the start rule is that of the entry, wherever it stands.  No
name may be defined twice.

Of several reasons to fail the first of these counts: a rule defined twice; an entry that is missing
or has no rule to start from; a macro or start condition defined twice, the modules taken one after
the other and the macros of each before its start conditions.
-/

namespace ModularGrammar

/-! ## Definitions with their owners -/

/-- Definitions, each with the module it comes from. -/
abbrev OwnedTable (α : Type) := Table (String × α)

namespace OwnedTable

variable {α : Type}

/-- One definition more; the name must be new. -/
def add (kind : NameKind) (owner : String) (t : OwnedTable α) (entry : String × α) :
    Except LinkError (OwnedTable α) :=
  match t.get? entry.1 with
  | some (first, _) => .error (.identifierCollision kind entry.1 first owner)
  | none => .ok (t.insert entry.1 (owner, entry.2))

def addAll (kind : NameKind) (owner : String) (t : OwnedTable α) (entries : Table α) :
    Except LinkError (OwnedTable α) :=
  entries.entries.foldlM (add kind owner) t

/-- The definitions without their owners. -/
def definitions (t : OwnedTable α) : Table α := t.mapValues Prod.snd

end OwnedTable

namespace Composition

/-! ## Order -/

/-- The modules in the order of their priorities. -/
def byPriority (modules : List Module) : List Module :=
  modules.mergeSort fun a b => decide (a.priority ≤ b.priority)

/-! ## Grammars -/

/-- The rules of all modules. -/
def mergeRules (modules : List Module) : Except LinkError RuleTable := do
  let rules ← modules.foldlM (fun t m => OwnedTable.addAll .rule m.name t m.grammar.rules) .empty
  return OwnedTable.definitions rules

/-- The rule to start from: the one the entry names, or else the first one it defines. -/
def startRule (entry : String) (modules : List Module) : Except LinkError String :=
  match modules.find? fun m => m.name == entry with
  | none => .error (.internal (.entryNotLoaded entry))
  | some m =>
    match m.grammar.start <|> m.grammar.rules.keys.head? with
    | some rule => .ok rule
    | none => .error (.missingStartRule m.name)

/-- The pieces of code that there are, one below the other. -/
def joinCode (pieces : List (Option String)) : String :=
  Text.join "\n" ((pieces.filterMap id).filter fun piece => piece ≠ "")

/-! ## Lexicons -/

/-- The macros and start conditions of some lexicons. -/
structure LexicalNames where
  macros : OwnedTable String := .empty
  startConditions : OwnedTable UInt8 := .empty

def LexicalNames.add (names : LexicalNames) (m : Module) : Except LinkError LexicalNames :=
  match m.lexicon with
  | none => .ok names
  | some l => do
    let macros ← names.macros.addAll .lexerMacro m.name l.macros
    let startConditions ← names.startConditions.addAll .startCondition m.name l.startConditions
    return { macros, startConditions }

/-- The lexicons of all modules. -/
def mergeLexicons (helper : String) (modules : List Module) :
    Except LinkError CompositeLexicon := do
  let names ← modules.foldlM LexicalNames.add {}
  let lexicons := modules.filterMap Module.lexicon
  return {
    rules := lexicons.flatMap Lexicon.rules
    macros := names.macros.definitions
    startConditions := names.startConditions.definitions
    actionCode :=
      joinCode (some (ActionHelper.definition helper) :: lexicons.map Lexicon.actionCode) }

/-! ## The composite grammar -/

/-- The composite grammar of some modules. -/
def compose (helper entry : String) (modules : List Module) :
    Except LinkError CompositeGrammar := do
  let ordered := byPriority modules
  let rules ← mergeRules ordered
  let start ← startRule entry modules
  let lexicon ← mergeLexicons helper ordered
  return {
    rules, start, lexicon
    precedence := Precedence.mergeRows (ordered.flatMap Module.precedence)
    code := joinCode (ordered.map fun m => m.grammar.code) }

end Composition

end ModularGrammar
