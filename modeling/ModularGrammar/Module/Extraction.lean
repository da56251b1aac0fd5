import ModularGrammar.Directive.Reader
import ModularGrammar.Error

/-!
# Modules from their sources

Building a module from its documents: its directives are read and taken out of the grammar, lines
with other keywords are kept aside.

A source is refused for the first of these reasons that holds: operators in the old style; two
lexicons; several priorities; a priority that is no 64-bit integer; a directive that cannot be read,
the grammar's before the lexicon's.  Bindings among a lexicon's directives always mean tokens, so a
default binding, which means a rule, is refused there.
-/

namespace ModularGrammar

/-- The document a directive stands in. -/
inductive Side where
  | grammar
  | lexicon
deriving DecidableEq, Repr, Inhabited

namespace Module

open Directive

/-! ## Priority -/

/-- A text without all occurrences of `start` at its beginning; `start` must not be empty. -/
def dropRepeated (start : List Char) (cs : List Char) : List Char :=
  match _h : Text.dropStart? start cs with
  | none => cs
  | some rest => if start = [] then cs else dropRepeated start rest
termination_by cs.length
decreasing_by
  have h := Text.dropStart?_eq_some_iff.1 _h
  have : 0 < start.length := List.length_pos_iff.2 (by assumption)
  rw [h, List.length_append]
  omega

/-- What is reported of a line whose priority cannot be read: the line without its keywords. -/
def reportedPriority (line : String) : String :=
  String.ofList (Text.trimBoth
    (dropRepeated ('%' :: Kind.priority.keyword.toList) (Text.trimBoth line.toList)))

/-- The priority of a module, given its lines with a priority. -/
def readModulePriority (name : String) (fallback : Int64) : List String → Except LinkError Int64
  | [] => .ok fallback
  | [line] =>
    match readPriority line with
    | .ok n => .ok n
    | .error _ => .error (.invalidPriority name (reportedPriority line))
  | _ => .error (.multiplePriorities name)

/-! ## Bindings -/

def lineError (name line : String) (error : DirectiveError) : LinkError :=
  .declarationSyntax name (Text.trim line) error

/-- Whether a binding means a token.  `marker` is the part of it that says `default` in a default
binding. -/
def bindingLexical (name line : String) (side : Side) (marker : String) (b : Binding) :
    Except LinkError Bool :=
  match side with
  | .grammar => .ok b.lexical
  | .lexicon =>
    if marker = defaultName then .error (lineError name line .lexicalDefaultBinding) else .ok true

/-- The imports of a directive.  Without bindings it gives one import that binds nothing. -/
def importsOf (name line : String) (side : Side) (d : ImportDirective) :
    Except LinkError (List Import) :=
  if d.bindings.isEmpty then .ok [⟨d.path, "", "", decide (side = .lexicon)⟩]
  else d.bindings.mapM fun b => do
    return ⟨d.path, b.name, b.knownAs, ← bindingLexical name line side b.name b⟩

def exportsOf (name line : String) (side : Side) (d : ExportDirective) :
    Except LinkError (List Export) :=
  d.bindings.mapM fun b => do
    return ⟨b.name, b.knownAs, ← bindingLexical name line side b.knownAs b⟩

/-! ## Directives -/

/-- What some directives say, apart from the priority. -/
structure Statements where
  imports : List Import := []
  exports : List Export := []
  precedence : List Precedence := []
deriving DecidableEq, Inhabited

/-- All that two groups of directives say. -/
def Statements.append (a b : Statements) : Statements :=
  ⟨a.imports ++ b.imports, a.exports ++ b.exports, a.precedence ++ b.precedence⟩

/-- What one line says. -/
def readStatement (name : String) (side : Side) (kind : Kind) (line : String) :
    Except LinkError Statements :=
  if kind = .priority then .ok {}
  else
    match Directive.read kind line with
    | .error e => .error (lineError name line e)
    | .ok (.priority _) => .ok {}
    | .ok (.importing d) => (importsOf name line side d).map fun imports => { imports }
    | .ok (.exporting d) => (exportsOf name line side d).map fun exports => { exports }
    | .ok (.precedence p) => .ok { precedence := [p] }

/-- What the lines of a document say. -/
def readStatements (name : String) (side : Side) :
    List (Kind × String) → Except LinkError Statements
  | [] => .ok {}
  | (kind, line) :: rest => do
    let first ← readStatement name side kind line
    let more ← readStatements name side rest
    return first.append more

/-! ## Modules -/

/-- The one lexicon of a source. -/
def chooseLexicon (name : String) (source : Source) : Except LinkError (Option Lexicon) :=
  match source.grammar.lexicon, source.lexicon with
  | some _, some _ => .error (.duplicateLexicon name)
  | some embedded, none => .ok (some embedded)
  | none, external => .ok external

/-- The module with the given name and documents; `fallback` is its priority if it declares none. -/
def ofSource (name : String) (source : Source) (fallback : Int64) : Except LinkError Module := do
  if source.grammar.hasOperators then throw (.legacyOperators name)
  let lexicon ← chooseLexicon name source
  let grammarLines := Directive.sort Kind.all source.grammar.directives
  let lexiconLines := Directive.sort Kind.all (lexicon.elim [] Lexicon.directives)
  let priority ← readModulePriority name fallback
    (grammarLines.group .priority ++ lexiconLines.group .priority)
  let inGrammar ← readStatements name .grammar grammarLines.recognized
  let inLexicon ← readStatements name .lexicon lexiconLines.recognized
  let said := inGrammar.append inLexicon
  return {
    name, lexicon, priority
    grammar := { source.grammar with lexicon := none, directives := [] }
    imports := said.imports
    exports := said.exports
    precedence := said.precedence
    grammarLines := grammarLines.unknown
    lexiconLines := lexiconLines.unknown }

/-- A module has the name it was built with. -/
theorem name_of_ofSource {name : String} {source : Source} {fallback : Int64} {m : Module}
    (h : ofSource name source fallback = .ok m) : m.name = name := by
  simp only [ofSource, bind, Except.bind, pure, Except.pure, throw, throwThe,
    MonadExceptOf.throw] at h
  repeat' split at h
  all_goals cases h
  rfl

end Module

end ModularGrammar
