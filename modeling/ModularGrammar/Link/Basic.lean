import ModularGrammar.Composition
import ModularGrammar.ImportGraph
import ModularGrammar.Link.Report
import ModularGrammar.Renaming

/-!
# Linking

From modules to one composite grammar: the modules are validated, every module gets a qualifier in
the order in which the modules are given, names are made global, and the modules are put together.
-/

namespace ModularGrammar

/-- What linking produces. -/
structure LinkOutput where
  grammar : CompositeGrammar
  report : LinkReport
  /-- The imports among the modules. -/
  graph : ImportGraph
deriving DecidableEq, Inhabited

/-- The report on some modules, given the qualifiers. -/
def LinkReport.ofModules (modules : List Module) (naming : Naming) : LinkReport where
  modules := .ofList (modules.map fun m => (m.name, {
    qualifier := (naming.qualifierFor m.name).1
    exports := m.exports
    grammarLines := m.grammarLines
    lexiconLines := m.lexiconLines }))

/-- Links modules under the given name of the action helper. -/
def linkModules (helper entry : String) (modules : List Module)
    (refusal : MacroReference.Refusal := MacroReference.Refusal.never) :
    Except LinkError LinkOutput := do
  let index ← ExportIndex.validate modules
  let naming := Naming.empty.register (modules.map Module.name)
  let (renamed, naming) := Module.renameAll helper index refusal modules naming
  let renamed ← renamed
  let grammar ← Composition.compose helper entry renamed
  return {
    grammar
    report := .ofModules renamed naming
    graph := .ofModules modules }

end ModularGrammar
