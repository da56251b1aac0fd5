import ModularGrammar.Decimal
import ModularGrammar.Directive.Scan

/-!
# Reading directives

The forms of the four directives:

* `%priority` and a 64-bit integer;
* `%import` and a quoted path, or bindings, the word `from` and a quoted path; the bindings are a
  default name, a group in braces, or both with a comma between them if wanted;
* `%export` and the word `default` with a name, or a group in braces;
* `%precedence`, an associativity and a priority in brackets, and tokens.

The word `lex` directly before or directly after a group makes its bindings lexical.
-/

namespace ModularGrammar.Directive

open Text

/-! ## Keyword and priority -/

/-- What follows the keyword of a directive.  The keyword need not end there. -/
def afterKeyword (kind : Kind) (line : String) : Except DirectiveError (List Char) :=
  match dropStart? ('%' :: kind.keyword.toList) (trimStart line.toList) with
  | some rest => .ok rest
  | none => .error (.otherKeyword kind)

def readPriority (line : String) : Except DirectiveError Int64 := do
  let value := trimBoth (← afterKeyword .priority line)
  match Decimal.readInt64? value with
  | some n => .ok n
  | none => .error (.invalidPriority (String.ofList value))

/-! ## Pieces of binding lists -/

/-- Something was expected of the lexemes that are left. -/
def unexpected (expected : String) (rest : List Lexeme) : DirectiveError :=
  .unexpected expected rest.head?

/-- Whether the lexemes begin with the given word, and what is left without it. -/
def takeWord (word : String) : List Lexeme → Bool × List Lexeme
  | .word w :: rest => if w = word then (true, rest) else (false, .word w :: rest)
  | rest => (false, rest)

/-- The lexemes without the comma they may begin with. -/
def dropComma : List Lexeme → List Lexeme
  | .mark ',' :: rest => rest
  | rest => rest

/-- No lexeme may be left. -/
def atEnd {α : Type} (result : α) : List Lexeme → Except DirectiveError α
  | [] => .ok result
  | rest => .error (unexpected "end of declaration" rest)

mutual

/-- The items of a group after its opening brace: pairs of a name and the name it is known as, and
what follows the closing brace. -/
def readItems : List Lexeme → Except DirectiveError (List (String × String) × List Lexeme)
  | .mark '}' :: rest => .ok ([], rest)
  | .word name :: .word "as" :: .word knownAs :: rest => readMore (name, knownAs) rest
  | .word _ :: .word "as" :: rest => .error (unexpected "alias after `as`" rest)
  | .word name :: rest => readMore (name, name) rest
  | rest => .error (unexpected "binding name" rest)

/-- What follows an item: a comma and further items, if any, or the closing brace. -/
def readMore (item : String × String) :
    List Lexeme → Except DirectiveError (List (String × String) × List Lexeme)
  | .mark ',' :: rest => (readItems rest).map fun (items, after) => (item :: items, after)
  | .mark '}' :: rest => .ok ([item], rest)
  | rest => .error (unexpected "`,` or `\x7d`" rest)

end

/-- A group in braces, with what follows it. -/
def readGroup : List Lexeme → Except DirectiveError (List (String × String) × List Lexeme)
  | .mark '{' :: rest => readItems rest
  | rest => .error (unexpected "`\x7b`" rest)

def groupBindings (lexical : Bool) (items : List (String × String)) : List Binding :=
  items.map fun (name, knownAs) => ⟨name, knownAs, lexical⟩

/-! ## Import -/

/-- The end of an import: `from`, the quoted path, nothing else. -/
def readOrigin (bindings : List Binding) (lexemes : List Lexeme) :
    Except DirectiveError ImportDirective :=
  match takeWord "from" lexemes with
  | (false, rest) => .error (unexpected "`from`" rest)
  | (true, .quoted path :: rest) => atEnd ⟨path, bindings⟩ rest
  | (true, rest) => .error (unexpected "quoted module path" rest)

/-- The group of an import and its end, after the default binding, if any, and the word `lex`. -/
def readImportGroup (first : List Binding) (lexBefore : Bool) (lexemes : List Lexeme) :
    Except DirectiveError ImportDirective := do
  let (items, rest) ← readGroup lexemes
  let (lexAfter, rest) := takeWord "lex" rest
  readOrigin (first ++ groupBindings (lexBefore || lexAfter) items) rest

/-- What follows the default name of an import. -/
def readAfterDefault (name : String) (lexemes : List Lexeme) :
    Except DirectiveError ImportDirective :=
  let first : List Binding := [⟨defaultName, name, false⟩]
  match takeWord "lex" (dropComma lexemes) with
  | (lexical, .mark '{' :: rest) => readImportGroup first lexical (.mark '{' :: rest)
  | (true, rest) => .error (unexpected "`\x7b` after `lex`" rest)
  | (false, rest) => readOrigin first rest

/-- The lexemes after `%import`. -/
def readImportLexemes (lexemes : List Lexeme) : Except DirectiveError ImportDirective :=
  match lexemes with
  | .quoted path :: rest => atEnd ⟨path, []⟩ rest
  | _ =>
    match takeWord "lex" lexemes with
    | (lexical, .mark '{' :: rest) => readImportGroup [] lexical (.mark '{' :: rest)
    | (lexical, .word name :: rest) =>
      if name = "from" then
        .error (unexpected "bindings or a module path" (.word name :: rest))
      else if lexical then .error .lexicalDefaultImport
      else readAfterDefault name rest
    | (_, rest) => .error (unexpected "bindings or a module path" rest)

def readImport (line : String) : Except DirectiveError ImportDirective := do
  readImportLexemes (← Lexeme.scanBindings (← afterKeyword .importing line))

/-! ## Export -/

/-- The lexemes after `%export default`. -/
def readDefaultExport (lexemes : List Lexeme) : Except DirectiveError ExportDirective :=
  match takeWord "lex" lexemes with
  | (true, _) => .error .lexicalDefaultExport
  | (false, .word name :: rest) => atEnd ⟨[⟨name, defaultName, false⟩]⟩ rest
  | (false, rest) => .error (unexpected "exported rule name" rest)

/-- The group of an export, after the word `lex`, if any. -/
def readExportGroup (lexBefore : Bool) (lexemes : List Lexeme) :
    Except DirectiveError ExportDirective := do
  let (items, rest) ← readGroup lexemes
  let (lexAfter, rest) := takeWord "lex" rest
  atEnd ⟨groupBindings (lexBefore || lexAfter) items⟩ rest

/-- The lexemes after `%export`. -/
def readExportLexemes (lexemes : List Lexeme) : Except DirectiveError ExportDirective :=
  match takeWord "default" lexemes with
  | (true, rest) => readDefaultExport rest
  | (false, lexemes) =>
    let (lexical, rest) := takeWord "lex" lexemes
    if (takeWord "default" rest).1 then .error .lexicalDefaultExport
    else readExportGroup lexical rest

def readExport (line : String) : Except DirectiveError ExportDirective := do
  readExportLexemes (← Lexeme.scanBindings (← afterKeyword .exporting line))

/-! ## Precedence -/

/-- The text between the brackets after `%precedence`, and what follows the closing bracket. -/
def precedenceHeader? (line : List Char) : Option (List Char × List Char) :=
  match (dropStart? ('%' :: Kind.precedence.keyword.toList) (trimStart line)).map trimStart with
  | some ('[' :: rest) =>
    match rest.dropWhile (· ≠ ']') with
    | [] => none
    | _ :: after => some (rest.takeWhile (· ≠ ']'), after)
  | _ => none

/-- The priority among the parameters that follow the associativity. -/
def readPrecedencePriority : List (List Char) → Except DirectiveError Int64
  | [] | [] :: _ => .error .missingPrecedencePriority
  | text :: more =>
    match Decimal.readInt64? text with
    | none => .error (.invalidPrecedencePriority (String.ofList text))
    | some n => if more.isEmpty then .ok n else .error .surplusPrecedenceParameter

/-- The associativity and the priority between the brackets. -/
def readPrecedenceParameters (cs : List Char) : Except DirectiveError (Associativity × Int64) := do
  match (splitChars ',' cs).map trimBoth with
  | [] => .error (.unknownAssociativity "")
  | word :: more =>
    match Associativity.ofName? (String.ofList word) with
    | none => .error (.unknownAssociativity (String.ofList word))
    | some associativity => return (associativity, ← readPrecedencePriority more)

def readPrecedence (line : String) : Except DirectiveError Precedence := do
  match precedenceHeader? line.toList with
  | none => .error .precedenceHeader
  | some (parameters, rest) =>
    let (associativity, level) ← readPrecedenceParameters parameters
    let tokens ← Lexeme.scanWords rest
    if tokens.isEmpty then .error .noPrecedenceTokens
    else .ok ⟨level, associativity, tokens⟩

/-! ## All kinds -/

/-- Reads a directive of the given kind. -/
def read (kind : Kind) (line : String) : Except DirectiveError Directive :=
  match kind with
  | .priority => (readPriority line).map .priority
  | .importing => (readImport line).map .importing
  | .exporting => (readExport line).map .exporting
  | .precedence => (readPrecedence line).map .precedence

end ModularGrammar.Directive
