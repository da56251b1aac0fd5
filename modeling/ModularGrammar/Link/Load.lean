import ModularGrammar.Link.Basic
import ModularGrammar.Link.Options
import ModularGrammar.Survey

/-!
# Linking from an entry

Finding the modules an entry needs, in a library or in files, and linking them.
-/

namespace ModularGrammar

/-- Links modules that have been found. -/
def Options.link (o : Options) (entry : String) (modules : List Module)
    (refusal : MacroReference.Refusal := MacroReference.Refusal.never) :
    Except LinkError LinkOutput :=
  linkModules o.actionHelper entry (o.applyPreprocess modules) refusal

/-! ## Libraries -/

namespace Library

/-- All modules the entry needs, after the change that was chosen. -/
def load (library : Library) (entry : String) (o : Options) : Except LinkError (List Module) :=
  (library.survey entry o.fallbackPriority).map o.applyPreprocess

/-- Links all modules the entry needs. -/
def link (library : Library) (entry : String) (o : Options)
    (refusal : MacroReference.Refusal := MacroReference.Refusal.never) :
    Except LinkError LinkOutput :=
  (library.survey entry o.fallbackPriority).bind fun modules =>
    o.link (library.pathRule none entry) modules refusal

end Library

/-! ## Files -/

namespace FileLayout

/-- Modules are found in files. -/
def method (layout : FileLayout) (readFile : String → Except FileError String) (o : Options) :
    Survey.Method :=
  ⟨layout.resolve, layout.fetch readFile, o.fallbackPriority⟩

/-- More levels than there can be: every level has new modules, and no file has a path of 4096 bytes
or more. -/
def levelBound : Nat := Nat.pow 256 4096

/-- All modules the entry needs. -/
def survey (layout : FileLayout) (readFile : String → Except FileError String) (entry : String)
    (o : Options) : Except LinkError (List Module) :=
  Survey.within (layout.method readFile o) levelBound (.start (layout.resolve none entry))

/-- Links all modules the entry needs. -/
def link (layout : FileLayout) (readFile : String → Except FileError String) (entry : String)
    (o : Options) (refusal : MacroReference.Refusal := MacroReference.Refusal.never) :
    Except LinkError LinkOutput :=
  (layout.survey readFile entry o).bind fun modules =>
    o.link (layout.resolve none entry) modules refusal

/-- The files that hold the documents of some modules, if there are any. -/
def files (layout : FileLayout) (modules : List String) : List String :=
  modules.flatMap fun module => [layout.grammarFile module, layout.lexiconFile module]

end FileLayout

end ModularGrammar
