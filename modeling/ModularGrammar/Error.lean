import ModularGrammar.Directive.Basic
import ModularGrammar.Module.Basic

/-!
# Errors of linking

Everything that can keep modules from being linked, with its wording.

## Architecture

1. `FileError`, `Failure`: why the documents of a module could not be had
2. `Problem`: an import or export that does not meet its counterpart
3. `LinkError`: all reasons together
-/

namespace ModularGrammar

open Text

/-! ## Failures of retrieval -/

/-- Why a file could not be read or written. -/
inductive FileError where
  | notFound
  | notADirectory
  | isADirectory
  | nameTooLong
  /-- The path holds the null character. -/
  | nulInPath
  /-- The content is no text. -/
  | notText
  /-- Another reason, in the words of the system. -/
  | other (text : String)
deriving DecidableEq, Repr, Inhabited

def FileError.message : FileError → String
  | .notFound => "No such file or directory (os error 2)"
  | .notADirectory => "Not a directory (os error 20)"
  | .isADirectory => "Is a directory (os error 21)"
  | .nameTooLong => "File name too long (os error 36)"
  | .nulInPath => "file name contained an unexpected NUL byte"
  | .notText => "stream did not contain valid UTF-8"
  | .other text => text

/-- Why the documents of a module could not be had although something is there. -/
inductive Failure where
  /-- A document does not hold what it should. -/
  | undecodable (document : DocumentKind)
  /-- A document in a file does not hold what it should. -/
  | unparsable (module : String) (document : DocumentKind)
  /-- A file could not be read. -/
  | unreadable (file : String) (error : FileError)
deriving DecidableEq, Repr, Inhabited

/-- What is said about an invalid document. -/
def decodeMessage (document : DocumentKind) : String :=
  "Failed to decode " ++ document.name ++ " document"

/-- What is said at the bottom of a report about an invalid document. -/
def invalidDocument : String := "invalid document"

/-- The causes of a failure, outermost first. -/
def Failure.causes : Failure → List String
  | .undecodable document => [decodeMessage document, invalidDocument]
  | .unparsable module document =>
    ["Failed to parse module files for " ++ module, decodeMessage document, invalidDocument]
  | .unreadable file error => ["Failed to read file: " ++ file, error.message]

/-- The outermost cause of a failure. -/
def Failure.message (f : Failure) : String := f.causes.headD ""

/-! ## Problems of validation -/

/-- An import or export that does not meet its counterpart. -/
inductive Problem where
  | missingDefaultExport (exporter importer : String)
  | missingRuleExport (exporter importer name : String)
  | missingTokenExport (exporter importer name : String)
  | missingExportedRule (module rule : String)
deriving DecidableEq, Repr, Inhabited

def Problem.message : Problem → String
  | .missingDefaultExport exporter importer =>
    "Module " ++ exporter ++ " has no default export (attempted import from " ++ importer ++ ")"
  | .missingRuleExport exporter importer name =>
    "Module " ++ exporter ++ " has no exported rule named \"" ++ name ++
      "\" (attempted import from " ++ importer ++ ")"
  | .missingTokenExport exporter importer name =>
    "Module " ++ exporter ++ " has no exported lexical token named \"" ++ name ++
      "\" (attempted import from " ++ importer ++ ")"
  | .missingExportedRule module rule =>
    "Module " ++ module ++ " has no rule \"" ++ rule ++ "\" to export"

/-! ## All reasons -/

/-- The kinds of names that must be distinct in a composite grammar. -/
inductive NameKind where
  | rule
  | lexerMacro
  | startCondition
deriving DecidableEq, Repr, Inhabited

def NameKind.word : NameKind → String
  | .rule => "Rule"
  | .lexerMacro => "Lexer macro"
  | .startCondition => "Start condition"

/-- What no input should lead to: a stage of linking is reached without the one before it, or what
the stages rely on gives out. -/
inductive Defect where
  /-- An import has no export, so the modules have not been validated. -/
  | unvalidatedImport (i : Import) (importer : String)
  /-- No expression for references to the macros of a lexicon can be had. -/
  | refusedPattern (reason : String)
  /-- The entry module is not among the modules. -/
  | entryNotLoaded (entry : String)
  /-- More modules were found than there can be. -/
  | endlessSurvey
deriving DecidableEq, Repr, Inhabited

def Defect.message : Defect → String
  | .unvalidatedImport i importer =>
    "import of " ++ i.publicName ++ " from " ++ i.origin ++ " in module " ++ importer ++
      " was not validated"
  | .refusedPattern reason => "macro reference pattern: " ++ reason
  | .entryNotLoaded entry => "entry module " ++ entry ++ " is not loaded"
  | .endlessSurvey => "the import graph does not end"

/-- Everything that can keep modules from being linked. -/
inductive LinkError where
  /-- There is no module at this path. -/
  | unknownModule (path : String)
  /-- There may be a module, but its documents could not be had. -/
  | retrieval (path : String) (failure : Failure)
  | declarationSyntax (module line : String) (error : DirectiveError)
  | multiplePriorities (module : String)
  | invalidPriority (module value : String)
  | legacyOperators (module : String)
  | duplicateLexicon (module : String)
  /-- All imports and exports that do not meet their counterpart. -/
  | unresolved (problems : List Problem)
  /-- Two modules' names came out the same. -/
  | identifierCollision (kind : NameKind) (name first second : String)
  | missingStartRule (module : String)
  | internal (defect : Defect)
deriving DecidableEq, Repr, Inhabited

def LinkError.message : LinkError → String
  | .unknownModule path => "Unknown module: " ++ path
  | .retrieval path failure => "Failed to load module " ++ path ++ ": " ++ failure.message
  | .declarationSyntax module line error =>
    "Invalid declaration `" ++ line ++ "` in module " ++ module ++ ": " ++ error.message
  | .multiplePriorities module => "Multiple priority declarations in module " ++ module
  | .invalidPriority module value => "Invalid priority `" ++ value ++ "` in module " ++ module
  | .legacyOperators module =>
    "Module " ++ module ++ " declares operators directly; use %precedence[<assoc>, <priority>] " ++
      "rather than %left, %right or %nonassoc"
  | .duplicateLexicon module =>
    "Module " ++ module ++ " has both an embedded and external lexicon"
  | .unresolved problems => Text.join "\n" (problems.map Problem.message)
  | .identifierCollision kind name first second =>
    kind.word ++ " " ++ name ++ " is defined by both module " ++ first ++ " and module " ++ second
  | .missingStartRule module => "Module " ++ module ++ " has no rules to start from"
  | .internal defect => "Internal linker error: " ++ defect.message

end ModularGrammar
