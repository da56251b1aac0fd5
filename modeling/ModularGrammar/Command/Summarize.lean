import ModularGrammar.Command.Arguments
import ModularGrammar.Command.Basic
import ModularGrammar.Composite.Document
import ModularGrammar.Summary

/-!
# The command that summarises

Reads a composite grammar and the report on its modules, and shows what each module has contributed.
-/

namespace ModularGrammar.Command

/-- What the summarising command is asked to do. -/
structure SummaryRequest where
  /-- The file with the composite grammar. -/
  grammar : String
  /-- The file with the report on the modules. -/
  report : String
  /-- Whether the summary is shown as JSON. -/
  json : Bool := false
deriving DecidableEq, Repr, Inhabited

namespace SummaryRequest

/-! ## Arguments -/

def forms : List OptionForm := [
  { name := "grammar", letter := some 'g' },
  { name := "meta", letter := some 'm' },
  { name := "json", takesValue := false }]

def ofArguments? : List String → Option SummaryRequest
  | "summarize" :: arguments => do
    let given ← GivenOption.read? forms arguments
    let grammar ← (← GivenOption.value? given "grammar")
    let report ← (← GivenOption.value? given "meta")
    if grammar = "" ∨ report = "" then none
    return { grammar, report, json := (← GivenOption.value? given "json").isSome }
  | _ => none

/-! ## What happens -/

/-- Why the document in a file could not be had. -/
def readCauses (file : String) : FileError → List String
  | .isADirectory => ["Failed to parse JSON from " ++ file, FileError.message .isADirectory]
  | e => ["Failed to open file: " ++ file, e.message]

/-- The document in a file, or why it could not be had. -/
def readDocument {α : Type} (read? : ByteArray → Option α)
    (readFile : String → Except FileError ByteArray) (file failure : String) : Except Trouble α :=
  match readFile file with
  | .error e => .error ⟨failure ++ file, readCauses file e⟩
  | .ok content =>
    match read? content with
    | none => .error ⟨failure ++ file, ["Failed to parse JSON from " ++ file, invalidDocument]⟩
    | some document => .ok document

def lines (r : SummaryRequest) (grammar : CompositeGrammar) (report : LinkReport) : List String :=
  let rows := Summary.ofReport grammar report
  if r.json then [(Summary.toJson rows).pretty] else Summary.table grammar rows

/-- What happens, given the contents of files. -/
def course (r : SummaryRequest) (readFile : String → Except FileError ByteArray) : Course :=
  let shown : Except Trouble (List String) := do
    let grammar ← readDocument CompositeGrammar.readBytes? readFile r.grammar
      "Failed to read composite grammar: "
    let report ← readDocument LinkReport.readBytes? readFile r.report
      "Failed to read link metadata: "
    return r.lines grammar report
  match shown with
  | .error trouble => ⟨[], some trouble⟩
  | .ok lines => ⟨lines.map .print, none⟩

def perform (r : SummaryRequest) (tree : FileTree) : Ending :=
  (r.course tree.read).perform tree

end SummaryRequest

end ModularGrammar.Command
