import ModularGrammar.Text.Segment

/-!
# Regular Expressions of a Library

References to macros are found by a regular expression that is written down, compiled and applied by
a library.  What is relied on is the library's documentation, for the part of its language that is
used: characters, escapes, groups and alternatives.  An expression matches in several ways, of which
the library takes the first at the leftmost place.

## Architecture

1. `Regex`, `Regex.matchesAt`: expressions and the ways in which they match, in order of preference
2. `Regex.find?`, `Regex.replaceAll`: the leftmost match, and a replacement for all of them
3. `Regex.escape`, `Regex.read?`: expressions as they are written
4. `RegexLibrary`, `RegexLibrary.Documented`: a library and its documentation
5. `Regex.tokens?_escapeChars_append`, `Regex.parse_characters`: escaped texts are read
6. `Regex.matchesAt_followedBy`: where characters match
-/

namespace ModularGrammar

/-! ## Matching -/

/-- A regular expression. -/
inductive Regex where
  | empty
  | character (c : Char)
  | sequence (first second : Regex)
  | choice (first second : Regex)
  /-- What is matched is remembered under the number. -/
  | group (number : Nat) (body : Regex)
deriving DecidableEq, Repr

/-- A way in which an expression matches at the beginning of a text. -/
structure Regex.Match where
  /-- The beginning that is matched. -/
  text : List Char
  /-- What the groups in the expression match. -/
  groups : List (Nat × List Char)
  /-- What follows in the text. -/
  rest : List Char
deriving DecidableEq, Repr

namespace Regex

/-- All ways in which an expression matches at the beginning of a text, the preferred first: the
first part of a choice is preferred to the second. -/
def matchesAt : Regex → List Char → List Match
  | empty, cs => [⟨[], [], cs⟩]
  | character _, [] => []
  | character c, d :: cs => if c = d then [⟨[c], [], cs⟩] else []
  | sequence first second, cs =>
    (first.matchesAt cs).flatMap fun m => (second.matchesAt m.rest).map fun n =>
      ⟨m.text ++ n.text, m.groups ++ n.groups, n.rest⟩
  | choice first second, cs => first.matchesAt cs ++ second.matchesAt cs
  | group number body, cs =>
    (body.matchesAt cs).map fun m => { m with groups := (number, m.text) :: m.groups }

/-- Wherever the expression matches, it matches some character. -/
def Consumes (e : Regex) : Prop := ∀ cs, ∀ m ∈ e.matchesAt cs, m.rest.length < cs.length

/-- What stands before the leftmost match, and the preferred match there. -/
def find? (e : Regex) : List Char → Option (List Char × Match)
  | [] => (e.matchesAt []).head?.map fun m => ([], m)
  | c :: cs =>
    match (e.matchesAt (c :: cs)).head? with
    | some m => some ([], m)
    | none => (e.find? cs).map fun (before, m) => (c :: before, m)

/-- The text with a replacement for every match, from left to right; the search goes on behind a
match.  For expressions that match some character only. -/
def replaceAll (e : Regex) (replacement : (Nat → Option (List Char)) → List Char)
    (cs : List Char) : List Char :=
  match e.find? cs with
  | none => cs
  | some (before, m) =>
    if _h : m.rest.length < cs.length then
      before ++ replacement (fun number => m.groups.lookup number) ++
        e.replaceAll replacement m.rest
    else cs
termination_by cs.length

/-! ## Written expressions -/

/-- The characters that mean something in a written expression, there or elsewhere. -/
def metaCharacters : List Char :=
  ['\\', '.', '+', '*', '?', '(', ')', '|', '[', ']', '{', '}', '^', '$', '#', '&', '-', '~']

/-- The text with a backslash before every character that could mean something. -/
def escapeChars : List Char → List Char
  | [] => []
  | c :: cs => if c ∈ metaCharacters then '\\' :: c :: escapeChars cs else c :: escapeChars cs

/-- A written expression that matches the text and nothing else. -/
def escape (text : String) : String := String.ofList (escapeChars text.toList)

/-- What written expressions are made of. -/
inductive Token where
  | character (c : Char)
  | bar
  | opening
  | closing
deriving DecidableEq, Repr

/-- The tokens of a written expression.  Anything that is neither a character, possibly escaped, nor
part of a group or a choice is not read. -/
def tokens? : List Char → Option (List Token)
  | [] => some []
  | '\\' :: c :: cs => if c ∈ metaCharacters then (tokens? cs).map (.character c :: ·) else none
  | '|' :: cs => (tokens? cs).map (.bar :: ·)
  | '(' :: cs => (tokens? cs).map (.opening :: ·)
  | ')' :: cs => (tokens? cs).map (.closing :: ·)
  | c :: cs => if c ∈ metaCharacters then none else (tokens? cs).map (.character c :: ·)

/-- What has been read of an expression: the alternatives before the last bar, and what stands
behind it. -/
structure Frame where
  before : Option Regex := none
  current : Regex := empty

/-- The expression up to here. -/
def Frame.whole (frame : Frame) : Regex :=
  match frame.before with
  | none => frame.current
  | some before => before.choice frame.current

def Frame.add (frame : Frame) (e : Regex) : Frame :=
  { frame with current := frame.current.sequence e }

def Frame.bar (frame : Frame) : Frame := { before := some frame.whole }

/-- The expression that tokens spell, given what has been read of it.  Groups are numbered in the
order in which they open, and `outer` are the groups that are open with what stands before each. -/
def parse : List Token → (next : Nat) → Frame → (outer : List (Nat × Frame)) → Option Regex
  | [], _, frame, [] => some frame.whole
  | [], _, _, _ :: _ => none
  | .character c :: tokens, next, frame, outer => parse tokens next (frame.add (.character c)) outer
  | .bar :: tokens, next, frame, outer => parse tokens next frame.bar outer
  | .opening :: tokens, next, frame, outer => parse tokens (next + 1) {} ((next, frame) :: outer)
  | .closing :: tokens, next, frame, (number, around) :: outer =>
    parse tokens next (around.add (.group number frame.whole)) outer
  | .closing :: _, _, _, [] => none

/-- The expression that is written in a text. -/
def read? (text : String) : Option Regex := do parse (← tokens? text.toList) 1 {} []

end Regex

/-! ## Libraries -/

/-- A library of regular expressions. -/
structure RegexLibrary where
  /-- What an expression is compiled to. -/
  Pattern : Type
  /-- A written expression for a text. -/
  escape : String → String
  /-- Compiling a written expression; this may also fail because the outcome would be too large. -/
  compile : String → Option Pattern
  /-- Replacing all matches in a text, depending on what the groups match. -/
  replaceAll : Pattern → ((Nat → Option (List Char)) → List Char) → List Char → List Char

/-- The library does what its documentation says, as far as it concerns us. -/
structure RegexLibrary.Documented (library : RegexLibrary) : Prop where
  /-- Characters that could mean something are escaped. -/
  escape : ∀ text, library.escape text = Regex.escape text
  /-- Matches are found from left to right, and the preferred one counts. -/
  replaceAll : ∀ {text : String} {e : Regex} {pattern : library.Pattern},
    Regex.read? text = some e → e.Consumes → library.compile text = some pattern →
      library.replaceAll pattern = e.replaceAll

namespace Regex

/-- Expressions themselves are such a library. -/
def library : RegexLibrary where
  Pattern := Regex
  escape := escape
  compile := read?
  replaceAll := replaceAll

theorem documented_library : library.Documented where
  escape := fun _ => rfl
  replaceAll := by
    intro text e pattern hread _ hcompile
    have heq : some e = some pattern := hread.symm.trans hcompile
    cases heq
    rfl

/-! ## Escaped texts -/

/-- An escaped text is read as its characters. -/
theorem tokens?_escapeChars_append (cs rest : List Char) :
    tokens? (escapeChars cs ++ rest) = (tokens? rest).map (cs.map .character ++ ·) := by
  induction cs with
  | nil => simp [escapeChars]
  | cons c cs ih =>
    rw [escapeChars]
    split
    · next hmeta => simp [tokens?, hmeta, ih, Function.comp_def]
    · next hplain =>
      -- a character that means nothing is none of those that stand for a token of their own
      have hne : c ≠ '\\' ∧ c ≠ '|' ∧ c ≠ '(' ∧ c ≠ ')' := by
        refine ⟨?_, ?_, ?_, ?_⟩ <;> rintro rfl <;> exact hplain (by decide)
      simp [tokens?, hplain, hne, ih, Function.comp_def]

/-- The expression for the characters of a text, one after the other, behind another expression. -/
def followedBy (e : Regex) (cs : List Char) : Regex :=
  cs.foldl (fun e c => e.sequence (.character c)) e

theorem parse_characters (cs : List Char) (tokens : List Token) (next : Nat) (frame : Frame)
    (outer : List (Nat × Frame)) : parse (cs.map .character ++ tokens) next frame outer =
      parse tokens next { frame with current := frame.current.followedBy cs } outer := by
  induction cs generalizing frame with
  | nil => rfl
  | cons c cs ih => exact ih (frame.add (.character c))

theorem matchesAt_character (c : Char) (cs : List Char) : (character c).matchesAt cs =
    ((Text.dropStart? [c] cs).map fun rest => ⟨[c], [], rest⟩).toList := by
  cases cs with
  | nil => rfl
  | cons d rest =>
    by_cases h : c = d
    · simp [matchesAt, Text.dropStart?, h]
    · simp [matchesAt, Text.dropStart?, h]

/-- Characters match if the text begins with them. -/
theorem matchesAt_followedBy (e : Regex) (cs text : List Char) :
    (e.followedBy cs).matchesAt text = (e.matchesAt text).flatMap fun m =>
      ((Text.dropStart? cs m.rest).map fun rest => ⟨m.text ++ cs, m.groups, rest⟩).toList := by
  -- one character goes over to the expression in front of the others
  induction cs generalizing e with
  | nil => simp [followedBy, Text.dropStart?]
  | cons c cs ih =>
    rw [followedBy, List.foldl_cons, ← followedBy, ih, matchesAt, List.flatMap_assoc]
    congr 1
    funext m
    rw [matchesAt_character]
    cases m.rest with
    | nil => simp [Text.dropStart?]
    | cons d rest =>
      by_cases h : c = d
      · simp [Text.dropStart?, h]
      · simp [Text.dropStart?, h]

end Regex

end ModularGrammar
