/-!
# Segments and separators

Cutting a text at every occurrence of one character, gluing the parts together again, and taking
a known beginning off a text.
-/

namespace ModularGrammar.Text

/-! ## Cutting and gluing -/

/-- The parts of the text between occurrences of `sep`, empty parts included; one part if there is
no `sep`. -/
def splitChars (sep : Char) : List Char → List (List Char)
  | [] => [[]]
  | c :: cs =>
    if c = sep then [] :: splitChars sep cs
    else
      match splitChars sep cs with
      | [] => [[c]]
      | part :: parts => (c :: part) :: parts

/-- Cutting yields at least one part. -/
theorem splitChars_ne_nil (sep : Char) (cs : List Char) : splitChars sep cs ≠ [] := by
  induction cs with
  | nil => simp [splitChars]
  | cons c cs ih =>
    unfold splitChars
    split
    · simp
    · split <;> simp

/-- The parts joined by `sep`. -/
def joinChars (sep : List Char) : List (List Char) → List Char
  | [] => []
  | [part] => part
  | part :: parts => part ++ sep ++ joinChars sep parts

def split (sep : Char) (s : String) : List String :=
  (splitChars sep s.toList).map String.ofList

def join (sep : String) (parts : List String) : String :=
  String.ofList (joinChars sep.toList (parts.map String.toList))

/-! ## Known beginnings -/

/-- What follows `start` in a text that begins with it. -/
def dropStart? : (start : List Char) → List Char → Option (List Char)
  | [], cs => some cs
  | _ :: _, [] => none
  | s :: start, c :: cs => if s = c then dropStart? start cs else none

/-- A beginning comes off exactly where it stands. -/
theorem dropStart?_eq_some_iff {start cs rest : List Char} :
    dropStart? start cs = some rest ↔ cs = start ++ rest := by
  induction start generalizing cs with
  | nil => simp [dropStart?]
  | cons s start ih =>
    cases cs with
    | nil => simp [dropStart?]
    | cons c cs =>
      by_cases h : s = c
      · simp [dropStart?, h, ih]
      · simp [dropStart?, h]; intro h'; exact absurd h'.symm h

/-- Whether the string `s` begins with `start`. -/
def begins (start s : String) : Bool :=
  (dropStart? start.toList s.toList).isSome

end ModularGrammar.Text
