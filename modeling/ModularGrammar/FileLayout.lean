import ModularGrammar.Error
import ModularGrammar.Path

/-!
# Modules in files

How the documents of modules lie in files.  The module at a path has its grammar in the file of that
path with one extension, and may have its lexicon in the file with another.

A path in an import that begins with `./` or `../` is seen from the directory of the importing
module; an absolute path is seen from the root.  Any other path is kept as it is if there is a base
directory, where it is looked up, and is seen from the directory of the importing module if there is
none.
-/

namespace ModularGrammar

/-- Where the documents of modules lie. -/
structure FileLayout where
  /-- The directory in which paths that are not absolute are looked up. -/
  baseDirectory : Option String := none
  grammarExtension : String := "y.json"
  lexiconExtension : String := "l.json"
deriving DecidableEq, Repr, Inhabited

namespace FileLayout

/-! ## Names -/

/-- The name of the module that a path means in an import of the given module, or as an entry. -/
def resolve (layout : FileLayout) (importer : Option String) (path : String) : String :=
  let beside := Path.normalize (Path.join (importer.elim "" Path.parent) path)
  if Path.isRelative path then beside
  else if Path.isAbsolute path then Path.normalize path
  else if layout.baseDirectory.isSome then path
  else beside

/-- The file of a module with the given extension. -/
def filePath (layout : FileLayout) (module extension : String) : String :=
  let file := module ++ "." ++ extension
  match layout.baseDirectory with
  | none => file
  | some base => if Path.isAbsolute file then file else Path.join base file

def grammarFile (layout : FileLayout) (module : String) : String :=
  layout.filePath module layout.grammarExtension

def lexiconFile (layout : FileLayout) (module : String) : String :=
  layout.filePath module layout.lexiconExtension

/-! ## Documents -/

/-- The text of a file, `none` if there is no such file. -/
def optionalFile (readFile : String → Except FileError String) (file : String) :
    Except Failure (Option String) :=
  match readFile file with
  | .ok text => .ok (some text)
  | .error .notFound => .ok none
  | .error e => .error (.unreadable file e)

/-- The documents of a module, `none` if it has no grammar. -/
def fetch (layout : FileLayout) (readFile : String → Except FileError String) (module : String) :
    Except Failure (Option Source) := do
  match ← optionalFile readFile (layout.grammarFile module) with
  | none => return none
  | some grammar =>
    let lexicon ← optionalFile readFile (layout.lexiconFile module)
    match Source.read grammar lexicon with
    | .ok source => return some source
    | .error document => throw (.unparsable module document)

end FileLayout

end ModularGrammar
