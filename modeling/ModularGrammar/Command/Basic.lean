import ModularGrammar.Decimal
import ModularGrammar.FileTree

/-!
# Commands

What a command does, once it has read its input: it prints lines, complains and writes files, and
ends well or with a report on what went wrong.  `FileTree.perform` does all this to a file tree.
-/

namespace ModularGrammar.Command

/-! ## Reports -/

/-- What went wrong, and why, the nearest cause first. -/
structure Trouble where
  summary : String
  causes : List String
deriving DecidableEq, Repr, Inhabited

namespace Trouble

/-- A cause behind its lead; further lines of the cause are indented by `rest`. -/
def indent (lead rest cause : String) : String :=
  lead ++ Text.join ("\n" ++ rest) (Text.split '\n' cause)

/-- The number of a cause, where there are several. -/
def numberLead (n : Nat) : String :=
  let number := Decimal.writeNat n
  String.ofList (List.replicate (5 - number.length) ' ' ++ number) ++ ": "

/-- The causes, each on lines of its own, numbered if there are several. -/
def causeLines (t : Trouble) : List String :=
  match t.causes with
  | [cause] => [indent "    " "    " cause]
  | causes => causes.zipIdx.map fun (cause, n) => indent (numberLead n) "       " cause

def report (t : Trouble) : String :=
  "Error: " ++ t.summary ++
    if t.causes.isEmpty then "" else "\n\nCaused by:\n" ++ Text.join "\n" t.causeLines

end Trouble

/-! ## Steps -/

/-- One thing a command does. -/
inductive Step where
  /-- A line on the standard output. -/
  | print (line : String)
  /-- A line on the standard error output. -/
  | complain (line : String)
  /-- Writes a file; `context` says what could not be done if that fails. -/
  | save (file text : String) (context : List String)
deriving DecidableEq, Repr, Inhabited

/-- All that a command does. -/
structure Course where
  steps : List Step
  /-- What went wrong after all these steps. -/
  trouble : Option Trouble := none
deriving DecidableEq, Inhabited

def saveTrouble (context : List String) (error : FileError) : Trouble :=
  match context with
  | [] => ⟨error.message, []⟩
  | summary :: causes => ⟨summary, causes ++ [error.message]⟩

/-! ## Performance -/

/-- What is left of a command when it has ended. -/
structure Ending where
  failed : Bool
  printed : List String
  complained : List String
  tree : FileTree

/-- A line that has been complained before all others. -/
def Ending.complain (line : String) (e : Ending) : Ending :=
  { e with complained := line :: e.complained }

def Ending.ofTrouble (t : Trouble) (tree : FileTree) : Ending := ⟨true, [], [t.report], tree⟩

/-- Does the steps in a file tree, up to the first that fails. -/
def performSteps (trouble : Option Trouble) : List Step → FileTree → Ending
  | [], tree =>
    match trouble with
    | none => ⟨false, [], [], tree⟩
    | some t => .ofTrouble t tree
  | .print line :: rest, tree =>
    let e := performSteps trouble rest tree
    { e with printed := line :: e.printed }
  | .complain line :: rest, tree => (performSteps trouble rest tree).complain line
  | .save file text context :: rest, tree =>
    match tree.write file text with
    | .ok tree => performSteps trouble rest tree
    | .error e => .ofTrouble (saveTrouble context e) tree

def Course.perform (c : Course) (tree : FileTree) : Ending :=
  performSteps c.trouble c.steps tree

end ModularGrammar.Command
