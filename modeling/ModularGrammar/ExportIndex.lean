import ModularGrammar.Error

/-!
# Export indexes

An export index lists, for every module, what it offers under which public name.  Validation builds
the index of all modules and checks that imports and exports meet; it reports every problem, module
by module, those of imports before those of exports.
-/

namespace ModularGrammar

/-- The exports of modules, by the name of the module and the public name of the export. -/
abbrev ExportIndex := Table (Table Export)

namespace ExportIndex

/-! ## Building and consulting -/

/-- Exports by their public names.  Of several exports under one public name the last one counts. -/
def byPublicName (exports : List Export) : Table Export :=
  .ofList (exports.map fun e => (e.publicName, e))

/-- The index of some modules.  Of several modules with one name the last one counts. -/
def ofModules (modules : List Module) : ExportIndex :=
  .ofList (modules.map fun m => (m.name, byPublicName m.exports))

/-- The export an import means: under the public name asked for, and a token exactly if the import
asks for a token. -/
def find? (index : ExportIndex) (i : Import) : Option Export := do
  let exports ← index.get? i.origin
  let e ← exports.get? i.publicName
  if e.lexical = i.lexical then some e else none

/-! ## Validation -/

/-- The problem of an import that has no export. -/
def importProblem (importer : String) (i : Import) : Problem :=
  if i.publicName = defaultName then .missingDefaultExport i.origin importer
  else if i.lexical then .missingTokenExport i.origin importer i.publicName
  else .missingRuleExport i.origin importer i.publicName

/-- The problems of a module's imports.  An import that binds nothing needs no export. -/
def importProblems (index : ExportIndex) (m : Module) : List Problem :=
  (m.boundImports.filter fun i => (index.find? i).isNone).map (importProblem m.name)

/-- The problems of a module's exports: a rule that is offered must be there.  A token needs no
definition. -/
def exportProblems (m : Module) : List Problem :=
  (m.exports.filter fun e => !e.lexical && !m.grammar.rules.contains e.localName).map
    fun e => .missingExportedRule m.name e.localName

def problems (index : ExportIndex) (modules : List Module) : List Problem :=
  modules.flatMap fun m => importProblems index m ++ exportProblems m

/-- The index of some modules, whose imports and exports all meet their counterpart. -/
def validate (modules : List Module) : Except LinkError ExportIndex :=
  match problems (ofModules modules) modules with
  | [] => .ok (ofModules modules)
  | found => .error (.unresolved found)

end ExportIndex

end ModularGrammar
