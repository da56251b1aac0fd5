import ModularGrammar.Json.Basic

/-!
# Writing JSON

Two layouts of one value: `compact` without any gaps, and `pretty` with one item a line, indented by
two spaces a level.  In strings only quotes, backslashes and control characters are escaped, the
latter by their short form if they have one.
-/

namespace ModularGrammar.Json

/-! ## Strings -/

/-- A hexadecimal digit, in lower case. -/
def hexDigit (n : Nat) : Char := Nat.digitChar n

/-- A character as it stands in a string. -/
def escapeChar (c : Char) : List Char :=
  if c = '"' then ['\\', '"']
  else if c = '\\' then ['\\', '\\']
  else if c = '\x08' then ['\\', 'b']
  else if c = '\x0c' then ['\\', 'f']
  else if c = '\n' then ['\\', 'n']
  else if c = '\r' then ['\\', 'r']
  else if c = '\t' then ['\\', 't']
  else if c.toNat < 0x20 then
    ['\\', 'u', '0', '0', hexDigit (c.toNat / 16), hexDigit (c.toNat % 16)]
  else [c]

/-- A text between quotes. -/
def quote (s : String) : List Char :=
  '"' :: (s.toList.flatMap escapeChar ++ ['"'])

/-- A value that is no container.  An unreadable part has no text of its own and leaves `null`. -/
def scalarText : Json → List Char
  | .bool true => "true".toList
  | .bool false => "false".toList
  | .number n => n.text
  | .string s => quote s
  | _ => "null".toList

/-! ## Compact layout -/

mutual

/-- The value without gaps. -/
def compactChars : Json → List Char
  | .array [] => ['[', ']']
  | .array (item :: items) => '[' :: (compactChars item ++ compactItems items)
  | .object [] => ['{', '}']
  | .object ((key, value) :: members) =>
    '{' :: (quote key ++ ':' :: (compactChars value ++ compactMembers members))
  | value => scalarText value

/-- The further items of an array, and its end. -/
def compactItems : List Json → List Char
  | [] => [']']
  | item :: items => ',' :: (compactChars item ++ compactItems items)

/-- The further members of an object, and its end. -/
def compactMembers : List (String × Json) → List Char
  | [] => ['}']
  | (key, value) :: members =>
    ',' :: (quote key ++ ':' :: (compactChars value ++ compactMembers members))

end

/-- The value without gaps. -/
def compact (value : Json) : String := String.ofList (compactChars value)

/-! ## Pretty layout -/

/-- A new line, indented to the given level. -/
def newLine (level : Nat) : List Char := '\n' :: List.replicate (2 * level) ' '

mutual

/-- The value with one item a line, standing at the given level. -/
def prettyChars (level : Nat) : Json → List Char
  | .array [] => ['[', ']']
  | .array (item :: items) =>
    '[' :: (newLine (level + 1) ++ prettyChars (level + 1) item ++ prettyItems level items)
  | .object [] => ['{', '}']
  | .object ((key, value) :: members) =>
    '{' :: (newLine (level + 1) ++ quote key ++ [':', ' '] ++
      prettyChars (level + 1) value ++ prettyMembers level members)
  | value => scalarText value

/-- The further items of an array that stands at the given level, and its end. -/
def prettyItems (level : Nat) : List Json → List Char
  | [] => newLine level ++ [']']
  | item :: items =>
    ',' :: (newLine (level + 1) ++ prettyChars (level + 1) item ++ prettyItems level items)

/-- The further members of an object that stands at the given level, and its end. -/
def prettyMembers (level : Nat) : List (String × Json) → List Char
  | [] => newLine level ++ ['}']
  | (key, value) :: members =>
    ',' :: (newLine (level + 1) ++ quote key ++ [':', ' '] ++
      prettyChars (level + 1) value ++ prettyMembers level members)

end

/-- The value with one item a line. -/
def pretty (value : Json) : String := String.ofList (prettyChars 0 value)

end ModularGrammar.Json
