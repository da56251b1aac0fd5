import ModularGrammar.Directive.Basic
import ModularGrammar.Text.Quoted

/-!
# Lexemes of a directive

Cuts the text of a directive into lexemes.  Blanks separate lexemes and belong to none; a quoted
text is taken whole; which characters are punctuation depends on the directive, so `scan` takes
them as an argument: binding lists know braces and commas, token lists know no punctuation.
-/

namespace ModularGrammar.Lexeme

open Text

/-- A character that opens a quoted text, which the same character closes. -/
def isQuote (c : Char) : Bool := c == '"' || c == '\''

/-- A character of a word: no blank, no quote and no punctuation. -/
def inWord (isMark : Char → Bool) (c : Char) : Bool :=
  !(isBlank c || isQuote c || isMark c)

/-- The lexeme a text begins with, and what follows it. -/
def next? (isMark : Char → Bool) : List Char → Option (Lexeme × List Char)
  | [] => none
  | c :: cs =>
    if isQuote c then
      (readQuoted c cs).map fun (inner, rest) => (.quoted (String.ofList inner), rest)
    else if isMark c then some (.mark c, cs)
    else if isBlank c then none
    else some (.word (String.ofList (c :: cs.takeWhile (inWord isMark))),
      cs.dropWhile (inWord isMark))

/-- A lexeme takes at least one character. -/
theorem next?_length {isMark : Char → Bool} {cs rest : List Char} {lexeme : Lexeme}
    (h : next? isMark cs = some (lexeme, rest)) : rest.length < cs.length := by
  cases cs with
  | nil => simp [next?] at h
  | cons c cs =>
    rw [next?] at h
    split at h
    · obtain ⟨⟨inner, after⟩, hr, heq⟩ := Option.map_eq_some_iff.1 h
      simp only [Prod.mk.injEq] at heq
      obtain ⟨-, rfl⟩ := heq
      -- a quoted text is shorter by its quotes at least
      have := readQuoted_length hr
      simp only [List.length_cons]
      omega
    · split at h
      · simp only [Option.some.injEq, Prod.mk.injEq] at h
        simp [← h.2]
      · split at h
        · simp at h
        · simp only [Option.some.injEq, Prod.mk.injEq] at h
          rw [← h.2, List.length_cons]
          exact Nat.lt_succ_of_le (List.dropWhile_sublist _).length_le

/-- What to say about a text with which no lexeme begins. -/
def noLexeme : List Char → DirectiveError
  | [] => .unexpectedEnd
  | c :: _ => if isQuote c then .unterminatedString else .unexpectedCharacter c

/-- The lexemes of a text. -/
def scan (isMark : Char → Bool) (cs : List Char) : Except DirectiveError (List Lexeme) :=
  if trimStart cs = [] then .ok []
  else
    match _h : next? isMark (trimStart cs) with
    | none => .error (noLexeme (trimStart cs))
    | some (lexeme, rest) => (scan isMark rest).map (lexeme :: ·)
termination_by cs.length
decreasing_by
  have := next?_length _h
  have : (trimStart cs).length ≤ cs.length := (List.dropWhile_sublist _).length_le
  omega

/-- The punctuation of binding lists. -/
def isBindingMark (c : Char) : Bool := c == '{' || c == '}' || c == ','

/-- The lexemes of an import or export. -/
def scanBindings (cs : List Char) : Except DirectiveError (List Lexeme) :=
  scan isBindingMark cs

def text : Lexeme → String
  | .mark c => String.singleton c
  | .quoted text => text
  | .word text => text

/-- The words of a text that knows no punctuation; quoted words are kept whole. -/
def scanWords (cs : List Char) : Except DirectiveError (List String) :=
  (scan (fun _ => false) cs).map (List.map text)

end ModularGrammar.Lexeme
