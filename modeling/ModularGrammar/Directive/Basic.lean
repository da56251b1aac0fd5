import ModularGrammar.Precedence
import ModularGrammar.Text.Blank
import ModularGrammar.Text.Segment

/-!
# Directives

A module document carries lines that start with `%` and a keyword.  Four keywords speak about
linking; lines with any other keyword are passed through untouched.

## Architecture

1. `Directive.Kind` and the keyword of a line
2. `Lexeme`: what the text of a directive is made of
3. `Binding`, `ImportDirective`, `ExportDirective`, `Directive`: what directives say
4. `DirectiveError`: why a directive cannot be read, with its wording
-/

namespace ModularGrammar

open Text

/-! ## Keywords -/

namespace Directive

/-- The keywords that speak about linking. -/
inductive Kind where
  | priority
  | importing
  | exporting
  | precedence
deriving DecidableEq, Repr, Inhabited

def Kind.keyword : Kind → String
  | .priority => "priority"
  | .importing => "import"
  | .exporting => "export"
  | .precedence => "precedence"

def Kind.all : List Kind := [.priority, .importing, .exporting, .precedence]

def Kind.ofKeyword? (word : String) : Option Kind :=
  Kind.all.find? fun kind => kind.keyword == word

/-- A character of a keyword: an ASCII letter or digit, or an underscore. -/
def inKeyword (c : Char) : Bool := c.isAlphanum || c == '_'

/-- The keyword of a line: the longest run of keyword characters after blanks and a percent sign, if
that run is not empty. -/
def keyword? (line : String) : Option String :=
  match trimStart line.toList with
  | '%' :: rest =>
    match rest.takeWhile inKeyword with
    | [] => none
    | word => some (String.ofList word)
  | _ => none

/-- The kind of a line, if it is one of those asked for. -/
def kind? (interest : List Kind) (line : String) : Option Kind :=
  ((keyword? line).bind Kind.ofKeyword?).filter interest.contains

/-- The lines of a document, told apart. -/
structure Sorted where
  /-- The lines of the kinds asked for, in order. -/
  recognized : List (Kind × String)
  /-- All other lines, in order. -/
  unknown : List String
deriving DecidableEq, Inhabited

/-- Tells the lines with a keyword asked for from the others. -/
def sort (interest : List Kind) (lines : List String) : Sorted where
  recognized := lines.filterMap fun line => (kind? interest line).map (·, line)
  unknown := lines.filter fun line => (kind? interest line).isNone

/-- The recognized lines of one kind, in order. -/
def Sorted.group (sorted : Sorted) (kind : Kind) : List String :=
  sorted.recognized.filterMap fun (k, line) => if k = kind then some line else none

end Directive

/-! ## Lexemes -/

/-- A piece of the text of a directive. -/
inductive Lexeme where
  /-- A punctuation mark. -/
  | mark (c : Char)
  /-- A quoted text, without its quotes and with its backslashes resolved. -/
  | quoted (text : String)
  /-- A run of other characters. -/
  | word (text : String)
deriving DecidableEq, Repr, Inhabited

/-- A lexeme as error messages show it. -/
def Lexeme.shown : Lexeme → String
  | .mark c => "`" ++ String.singleton c ++ "`"
  | .quoted text => "\"" ++ text ++ "\""
  | .word text => "`" ++ text ++ "`"

/-! ## What directives say -/

/-- The name of a rule or token together with the name it is made known as. -/
structure Binding where
  name : String
  knownAs : String
  /-- Whether a token is meant, not a rule. -/
  lexical : Bool
deriving DecidableEq, Repr, Inhabited

/-- The name that stands for a module's unnamed export. -/
def defaultName : String := "default"

/-- A request for exports of another module: `name` is the exported name, `knownAs` the local one.
Without bindings the module is only to be linked in. -/
structure ImportDirective where
  /-- The path of the other module as written. -/
  path : String
  bindings : List Binding
deriving DecidableEq, Inhabited

/-- An offer to other modules: `name` is the local name, `knownAs` the public one. -/
structure ExportDirective where
  bindings : List Binding
deriving DecidableEq, Inhabited

inductive Directive where
  | priority (value : Int64)
  | importing (directive : ImportDirective)
  | exporting (directive : ExportDirective)
  | precedence (declaration : Precedence)
deriving DecidableEq, Inhabited

/-! ## Errors -/

/-- Why a directive cannot be read. -/
inductive DirectiveError where
  /-- The text does not begin with the keyword. -/
  | otherKeyword (kind : Directive.Kind)
  /-- The text after `%priority` is no 64-bit integer. -/
  | invalidPriority (text : String)
  /-- A quote without a closing partner. -/
  | unterminatedString
  /-- No lexeme begins with this character. -/
  | unexpectedCharacter (c : Char)
  /-- No lexeme is left. -/
  | unexpectedEnd
  /-- Something else was expected than what stands there. -/
  | unexpected (expected : String) (found : Option Lexeme)
  | lexicalDefaultImport
  | lexicalDefaultExport
  /-- A default binding among a lexicon's directives. -/
  | lexicalDefaultBinding
  /-- No bracketed parameters after `%precedence`. -/
  | precedenceHeader
  | unknownAssociativity (word : String)
  | invalidPrecedencePriority (text : String)
  | missingPrecedencePriority
  | surplusPrecedenceParameter
  | noPrecedenceTokens
deriving DecidableEq, Repr, Inhabited

def DirectiveError.message : DirectiveError → String
  | .otherKeyword kind => "expected a %" ++ kind.keyword ++ " directive"
  | .invalidPriority text => "invalid priority `" ++ text ++ "`"
  | .unterminatedString => "unterminated string literal"
  | .unexpectedCharacter c => "unexpected character `" ++ String.singleton c ++ "`"
  | .unexpectedEnd => "unexpected end of declaration"
  | .unexpected expected (some found) => "expected " ++ expected ++ ", found " ++ found.shown
  | .unexpected expected none => "expected " ++ expected ++ ", found end of declaration"
  | .lexicalDefaultImport => "default imports cannot be lexical"
  | .lexicalDefaultExport => "default exports cannot be lexical"
  | .lexicalDefaultBinding => "default bindings cannot be lexical"
  | .precedenceHeader => "expected %precedence[<assoc>, <priority>] followed by tokens"
  | .unknownAssociativity word =>
    "unknown associativity `" ++ word ++ "` (expected left, right or nonassoc)"
  | .invalidPrecedencePriority text => "invalid precedence priority `" ++ text ++ "`"
  | .missingPrecedencePriority => "precedence declaration is missing a priority"
  | .surplusPrecedenceParameter =>
    "precedence declaration takes exactly an associativity and a priority"
  | .noPrecedenceTokens => "precedence declaration names no tokens"

end ModularGrammar
