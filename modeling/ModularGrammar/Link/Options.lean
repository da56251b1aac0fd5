import ModularGrammar.Decimal
import ModularGrammar.Module.Basic
import ModularGrammar.Text.Printable

/-!
# Options of linking

What can be chosen when a library is linked, and how the choice is shown.
-/

namespace ModularGrammar

/-- The choices for one link. -/
structure Options where
  /-- The priority of modules that declare none, if it is not the usual one. -/
  priority : Option Int64 := none
  /-- A change to the modules after they have been found. -/
  preprocess : Option (List Module → List Module) := none
  /-- The name under which lexer actions find their helper. -/
  actionHelper : String := "gramlink_prefix"

namespace Options

/-- The priority of modules that declare none. -/
def fallbackPriority (o : Options) : Int64 := o.priority.getD defaultPriority

/-- The modules after the change, if one was chosen. -/
def applyPreprocess (o : Options) (modules : List Module) : List Module :=
  match o.preprocess with
  | none => modules
  | some change => change modules

/-- A choice that may be open. -/
def showOptional (choice : Option String) : String :=
  match choice with
  | none => "None"
  | some text => "Some(" ++ text ++ ")"

/-- The choices on one line. -/
def describe (o : Options) : String :=
  "LoadOptions \x7b default_priority: " ++ showOptional (o.priority.map Decimal.int64) ++
    ", preprocess: " ++ showOptional (o.preprocess.map fun _ => Text.visibly "<fn>") ++
    ", action_helper: " ++ Text.visibly o.actionHelper ++ " \x7d"

end Options

end ModularGrammar
