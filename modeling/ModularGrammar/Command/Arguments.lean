import ModularGrammar.Text.Segment

/-!
# Command-line arguments

Options on a command line.  An option has a long name, written after two dashes, and may have a
letter, written after one; a value stands in the next argument, or in the same one behind `=`, and
behind a letter also without it.  Letters of flags can share an argument with what follows them.
Two dashes alone may stand at the end.
-/

namespace ModularGrammar.Command

structure OptionForm where
  name : String
  letter : Option Char := none
  /-- Whether the option has a value. -/
  takesValue : Bool := true
  /-- Whether the value may begin with a dash. -/
  allowsDash : Bool := false
deriving DecidableEq, Repr, Inhabited

/-- An option that was given; the value is empty for a flag. -/
structure GivenOption where
  name : String
  value : String
deriving DecidableEq, Repr, Inhabited

namespace GivenOption

/-- What a piece of an argument says: nothing wrong may be in it. -/
inductive Piece where
  /-- Options that are complete. -/
  | complete (given : List GivenOption)
  /-- Options that are complete, and one whose value is the next argument. -/
  | pending (given : List GivenOption) (form : OptionForm)
deriving Repr, Inhabited

/-- The options before those of a piece. -/
def Piece.after (g : GivenOption) : Piece → Piece
  | .complete given => .complete (g :: given)
  | .pending given form => .pending (g :: given) form

/-- A long option, given what stands behind the dashes. -/
def readLong? (forms : List OptionForm) (cs : List Char) : Option Piece := do
  let name := String.ofList (cs.takeWhile (· ≠ '='))
  let form ← forms.find? fun f => f.name == name
  match cs.dropWhile (· ≠ '='), form.takesValue with
  | _ :: value, true => some (.complete [⟨name, String.ofList value⟩])
  | _ :: _, false => none
  | [], true => some (.pending [] form)
  | [], false => some (.complete [⟨name, ""⟩])

/-- Options by their letters, given what stands behind the dash. -/
def readLetters? (forms : List OptionForm) : List Char → Option Piece
  | [] => some (.complete [])
  | c :: cs => do
    let form ← forms.find? fun f => f.letter == some c
    match form.takesValue, cs with
    | true, [] => some (.pending [] form)
    | true, '=' :: value => some (.complete [⟨form.name, String.ofList value⟩])
    | true, value => some (.complete [⟨form.name, String.ofList value⟩])
    | false, rest => (readLetters? forms rest).map (Piece.after ⟨form.name, ""⟩)

def readArgument? (forms : List OptionForm) (argument : String) : Option Piece :=
  match argument.toList with
  | '-' :: '-' :: cs => readLong? forms cs
  | '-' :: c :: cs => readLetters? forms (c :: cs)
  | _ => none

/-- Whether an argument can be the value of an option. -/
def canBeValue (form : OptionForm) (argument : String) : Bool :=
  form.allowsDash || argument == "-" || !Text.begins "-" argument

/-- The options in some arguments, in order; `none` if anything else is among them. -/
def read? (forms : List OptionForm) : List String → Option (List GivenOption)
  | [] | ["--"] => some []
  | [argument] =>
    match readArgument? forms argument with
    | some (.complete given) => some given
    | _ => none
  | argument :: next :: rest =>
    match readArgument? forms argument with
    | some (.complete given) => (read? forms (next :: rest)).map (given ++ ·)
    | some (.pending given form) =>
      if canBeValue form next then
        (read? forms rest).map fun more => given ++ ⟨form.name, next⟩ :: more
      else none
    | none => none

/-- The value of an option, which must not be given twice; `none` within if it is not given. -/
def value? (given : List GivenOption) (name : String) : Option (Option String) :=
  match given.filter fun g => g.name == name with
  | [] => some none
  | [g] => some (some g.value)
  | _ => none

end GivenOption

end ModularGrammar.Command
