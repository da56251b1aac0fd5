import ModularGrammar.Module.Basic

/-!
# Edits of modules

Changes to a list of modules that have been loaded, as they can be made before linking.
-/

namespace ModularGrammar

inductive ModuleEdit where
  | setPriority (priority : Int64)
  | setName (name : String)
  | setStart (start : Option String)
  | setCode (code : Option String)
  | setImports (imports : List Import)
  | setExports (exports : List Export)
  | setPrecedence (precedence : List Precedence)
  /-- Sets the alternatives of a rule, which may be new. -/
  | insertRule (name : String) (alternatives : List Alternative)
  | removeRule (name : String)
  | dropLexicon
deriving DecidableEq, Inhabited

namespace ModuleEdit

def apply (m : Module) : ModuleEdit → Module
  | .setPriority priority => { m with priority }
  | .setName name => { m with name }
  | .setStart start => { m with grammar := { m.grammar with start } }
  | .setCode code => { m with grammar := { m.grammar with code } }
  | .setImports imports => { m with imports }
  | .setExports exports => { m with exports }
  | .setPrecedence precedence => { m with precedence }
  | .insertRule name alternatives =>
    { m with grammar := { m.grammar with rules := m.grammar.rules.insert name alternatives } }
  | .removeRule name =>
    { m with grammar := { m.grammar with rules := m.grammar.rules.erase name } }
  | .dropLexicon => { m with lexicon := none }

end ModuleEdit

inductive Edit where
  /-- A change to the module at a place; nothing, if there is no such place. -/
  | change (place : Nat) (edit : ModuleEdit)
  | reverse
deriving DecidableEq, Inhabited

namespace Edit

def apply (modules : List Module) : Edit → List Module
  | .change place edit => modules.modify place (ModuleEdit.apply · edit)
  | .reverse => modules.reverse

/-- The modules after several changes, made one after the other. -/
def applyAll (edits : List Edit) (modules : List Module) : List Module :=
  edits.foldl apply modules

end Edit

end ModularGrammar
