import ModularGrammar.ActionHelper
import ModularGrammar.ExportIndex
import ModularGrammar.MacroReference
import ModularGrammar.Naming

/-!
# Renaming

Before modules are put together, the names in each of them are made global.  A name that is imported
becomes what it means in the module it is taken from; any other name gets the module's own
qualifier.

## Architecture

1. `Renaming`: what becomes of single names
2. `Grammar.rename`, `Lexicon.rename`: what becomes of documents
3. `Renaming.ofModule`: the renaming of a module
4. `Module.rename`, `Module.renameAll`: what becomes of modules

Two things can be in the way: an import without an export, and macros to which no references can be
found.  The imports are looked at first.
-/

namespace ModularGrammar

/-! ## Names -/

/-- How the names in a module are made global. -/
structure Renaming where
  /-- The qualifier of the module. -/
  qualifier : String
  /-- The global names of what is imported, under the names the module uses. -/
  imported : Table String := .empty
deriving DecidableEq, Inhabited

namespace Renaming

/-- The global name of something the module defines. -/
def definition (r : Renaming) (name : String) : String := r.qualifier ++ name

/-- The global name of something the module uses. -/
def symbol (r : Renaming) (name : String) : String :=
  (r.imported.get? name).getD (r.definition name)

/-- The symbols of an alternative with their global names.  Between any two spaces stands a symbol,
unless there is nothing. -/
def symbols (r : Renaming) (text : String) : String :=
  Text.join " " ((Text.split ' ' text).map fun name => if name = "" then "" else r.symbol name)

/-- The global name of a start condition. -/
def condition (r : Renaming) (name : String) : String :=
  if name ∈ builtinConditions then name else r.definition name

end Renaming

/-! ## Documents -/

def Alternative.rename (r : Renaming) (a : Alternative) : Alternative :=
  { a with symbols := r.symbols a.symbols, precedence := a.precedence.map r.symbol }

/-- The rules with global names.  A rule is defined by the module even if its name is also
imported. -/
def RuleTable.rename (r : Renaming) (rules : RuleTable) : RuleTable :=
  rules.qualify r.qualifier (List.map (Alternative.rename r))

def Grammar.rename (r : Renaming) (g : Grammar) : Grammar :=
  { g with rules := g.rules.rename r, start := g.start.map r.symbol }

/-- The lexer rule with global names; `macros` are the names of the lexicon's macros. -/
def LexicalRule.rename (r : Renaming) (helper : String) (macros : List String)
    (rule : LexicalRule) : LexicalRule where
  conditions := rule.conditions.map (List.map r.condition)
  pattern := MacroReference.qualify macros r.qualifier rule.pattern
  action := ActionHelper.call helper r.qualifier rule.action

/-- The lexicon with global names, once references to its macros can be found. -/
def Lexicon.renamed (r : Renaming) (helper : String) (l : Lexicon) : Lexicon :=
  { l with
    rules := l.rules.map (LexicalRule.rename r helper l.macros.keys)
    macros := l.macros.qualify r.qualifier (MacroReference.qualify l.macros.keys r.qualifier)
    startConditions := l.startConditions.qualify r.qualifier id }

/-- Why references to the macros of a lexicon cannot be found, if they cannot.  Without macros
nothing has to be found. -/
def Lexicon.refused? (refusal : MacroReference.Refusal) (l : Lexicon) : Option LinkError :=
  if l.macros.keys = [] then none
  else (refusal l.macros.keys).map fun reason => .internal (.refusedPattern reason)

/-- The lexicon with global names. -/
def Lexicon.rename (refusal : MacroReference.Refusal) (r : Renaming) (helper : String)
    (l : Lexicon) : Except LinkError Lexicon :=
  match l.refused? refusal with
  | some e => .error e
  | none => .ok (l.renamed r helper)

def Precedence.rename (r : Renaming) (p : Precedence) : Precedence :=
  { p with tokens := p.tokens.map r.symbol }

/-! ## The renaming of a module -/

namespace Renaming

/-- The global names of what some imports bind.  Imports are looked up one after the other, and one
without an export ends this; the qualifiers given before remain given. -/
def importedNames (index : ExportIndex) (importer : String) :
    List Import → Naming → Except LinkError (List (String × String)) × Naming
  | [], naming => (.ok [], naming)
  | i :: rest, naming =>
    match index.find? i with
    | none => (.error (.internal (.unvalidatedImport i importer)), naming)
    | some e =>
      let (qualifier, naming) := naming.qualifierFor i.origin
      let (names, naming) := importedNames index importer rest naming
      (names.map fun names => (i.localName, qualifier ++ e.localName) :: names, naming)

/-- The renaming of a module.  If a name is imported several times, the last import counts. -/
def ofModule (index : ExportIndex) (m : Module) (naming : Naming) :
    Except LinkError Renaming × Naming :=
  let (qualifier, naming) := naming.qualifierFor m.name
  let (names, naming) := importedNames index m.name m.boundImports naming
  (names.map fun names => ⟨qualifier, .ofList names⟩, naming)

end Renaming

/-! ## Modules -/

namespace Module

/-- The module with the names a renaming gives. -/
def renameBy (refusal : MacroReference.Refusal) (r : Renaming) (helper : String) (m : Module) :
    Except LinkError Module := do
  let lexicon ← m.lexicon.mapM (Lexicon.rename refusal r helper)
  return { m with
    grammar := m.grammar.rename r
    lexicon
    precedence := m.precedence.map (Precedence.rename r) }

/-- The module with global names. -/
def rename (helper : String) (index : ExportIndex) (m : Module) (naming : Naming)
    (refusal : MacroReference.Refusal := MacroReference.Refusal.never) :
    Except LinkError Module × Naming :=
  let (r, naming) := Renaming.ofModule index m naming
  (r.bind fun r => m.renameBy refusal r helper, naming)

/-- All modules with global names, one after the other; the first error counts. -/
def renameAll (helper : String) (index : ExportIndex) (refusal : MacroReference.Refusal) :
    List Module → Naming → Except LinkError (List Module) × Naming
  | [], naming => (.ok [], naming)
  | m :: rest, naming =>
    match m.rename helper index naming refusal with
    | (.error e, naming) => (.error e, naming)
    | (.ok first, naming) =>
      let (more, naming) := renameAll helper index refusal rest naming
      (more.map (first :: ·), naming)

end Module

end ModularGrammar
