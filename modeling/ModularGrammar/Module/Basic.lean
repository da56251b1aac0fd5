import ModularGrammar.Grammar.Document
import ModularGrammar.Precedence

/-!
# Modules

A module is a grammar with a lexicon, as far as it has one, together with what its directives say:
its priority, what it takes from other modules and what it offers to them, and the precedence of its
operators.
-/

namespace ModularGrammar

/-! ## Imports and exports -/

/-- A name taken from another module. -/
structure Import where
  /-- The module it is taken from; as written, or resolved to the name of a module. -/
  origin : String
  /-- The public name asked for. -/
  publicName : String
  /-- The name the importing module uses; empty if the module is only to be linked in. -/
  localName : String
  /-- Whether a token is meant, not a rule. -/
  lexical : Bool
deriving DecidableEq, Repr, Inhabited

def Import.binds (i : Import) : Bool := i.localName ≠ ""

/-- A rule or token offered to other modules. -/
structure Export where
  /-- The name within the exporting module. -/
  localName : String
  /-- The name importing modules ask for. -/
  publicName : String
  /-- Whether a token is offered, not a rule. -/
  lexical : Bool
deriving DecidableEq, Repr, Inhabited

/-! ## Sources -/

/-- The documents of a module. -/
structure Source where
  grammar : Grammar
  /-- The lexicon that stands beside the grammar. -/
  lexicon : Option Lexicon := none
deriving DecidableEq, Inhabited

/-- The two documents of a module. -/
inductive DocumentKind where
  | grammar
  | lexicon
deriving DecidableEq, Repr, Inhabited

def DocumentKind.name : DocumentKind → String
  | .grammar => "grammar"
  | .lexicon => "lexicon"

/-- The documents in two texts, or the first of them that cannot be read. -/
def Source.read (grammar : String) (lexicon : Option String) : Except DocumentKind Source :=
  match Grammar.read? grammar with
  | none => .error .grammar
  | some grammar =>
    match lexicon with
    | none => .ok { grammar }
    | some text =>
      match Lexicon.read? text with
      | none => .error .lexicon
      | some lexicon => .ok { grammar, lexicon := some lexicon }

/-! ## Modules -/

/-- The priority of a module that does not declare one. -/
def defaultPriority : Int64 := 50

/-- A grammar with a lexicon, and what its directives say. -/
structure Module where
  /-- The path that identifies the module. -/
  name : String
  grammar : Grammar
  lexicon : Option Lexicon := none
  /-- The place of the module in the composite grammar: lower priority comes first. -/
  priority : Int64 := defaultPriority
  imports : List Import := []
  exports : List Export := []
  precedence : List Precedence := []
  /-- The grammar's lines that do not speak about linking. -/
  grammarLines : List String := []
  /-- The lexicon's lines that do not speak about linking. -/
  lexiconLines : List String := []
deriving DecidableEq, Inhabited

/-- The imports that bind a name. -/
def Module.boundImports (m : Module) : List Import := m.imports.filter Import.binds

end ModularGrammar
