import ModularGrammar.Command.Arguments
import ModularGrammar.Command.Basic
import ModularGrammar.Composite.Document
import ModularGrammar.ImportGraph.Dot
import ModularGrammar.Link.Load

/-!
# The command that links

Links the modules in files and writes the composite grammar, and what else was asked for.  What
happens is told on the standard output, or on the standard error output if the grammar goes to the
standard output.
-/

namespace ModularGrammar.Command

/-- What the linking command is asked to do. -/
structure LinkRequest where
  /-- The path of the entry module. -/
  entry : String
  layout : FileLayout := {}
  options : Options := {}
  /-- The file for the composite grammar; none for the standard output. -/
  output : Option String := none
  /-- The file for the report on the modules. -/
  report : Option String := none
  /-- The file for the drawing of the imports. -/
  drawing : Option String := none

namespace LinkRequest

/-! ## Arguments -/

def forms : List OptionForm := [
  { name := "input", letter := some 'i' },
  { name := "output", letter := some 'o' },
  { name := "meta" },
  { name := "visualize" },
  { name := "base-dir" },
  { name := "grammar-ext" },
  { name := "lexicon-ext" },
  { name := "default-priority", allowsDash := true },
  { name := "threads" },
  { name := "verbose", letter := some 'v', takesValue := false }]

/-- A path that is given must not be empty. -/
def path? (given : List GivenOption) (name : String) : Option (Option String) := do
  let value ← GivenOption.value? given name
  if value = some "" then none else some value

/-- A number that is given must be a 64-bit integer. -/
def priority? (given : List GivenOption) : Option (Option Int64) := do
  match ← GivenOption.value? given "default-priority" with
  | none => some none
  | some text => (Decimal.readInt64? text.toList).map some

/-- The number of threads, which changes nothing, must be an unsigned 64-bit integer if it is
given. -/
def threads? (given : List GivenOption) : Option Unit := do
  match ← GivenOption.value? given "threads" with
  | none => some ()
  | some text => (Decimal.readNat64? text.toList).map fun _ => ()

def ofArguments? (arguments : List String) : Option LinkRequest := do
  let given ← GivenOption.read? forms arguments
  let entry ← (← GivenOption.value? given "input")
  let grammarExtension ← GivenOption.value? given "grammar-ext"
  let lexiconExtension ← GivenOption.value? given "lexicon-ext"
  threads? given
  let _ ← GivenOption.value? given "verbose"
  return {
    entry
    layout := {
      baseDirectory := ← path? given "base-dir"
      grammarExtension := grammarExtension.getD "y.json"
      lexiconExtension := lexiconExtension.getD "l.json" }
    options := { priority := ← priority? given }
    output := ← path? given "output"
    report := ← path? given "meta"
    drawing := ← path? given "visualize" }

/-! ## What happens -/

def status (r : LinkRequest) (line : String) : Step :=
  if r.output.isSome then .print line else .complain line

def startStep (r : LinkRequest) : Step :=
  r.status ("gramlink: Linking from entry module " ++ r.entry)

/-- The line after linking; `time` tells how long it took. -/
def linkedStep (r : LinkRequest) (time : String) (output : LinkOutput) : Step :=
  r.status ("Linked " ++ String.ofList (Decimal.writeNat output.report.modules.size) ++
    " module(s) into " ++ String.ofList (Decimal.writeNat output.grammar.rules.size) ++ " rules" ++
    time)

def documentSteps (r : LinkRequest) (file text failure success : String) : List Step :=
  [.save file text [failure, "Failed to create file: " ++ file], r.status (success ++ file)]

def grammarSteps (r : LinkRequest) (grammar : CompositeGrammar) : List Step :=
  match r.output with
  | none => [.print grammar.toJson.pretty]
  | some file =>
    r.documentSteps file grammar.fileText "Failed to write composite grammar"
      "Wrote composite grammar to "

def reportSteps (r : LinkRequest) (report : LinkReport) : List Step :=
  match r.report with
  | none => []
  | some file =>
    r.documentSteps file report.fileText "Failed to write link metadata" "Wrote module metadata to "

def drawingSteps (r : LinkRequest) (graph : ImportGraph) : List Step :=
  match r.drawing with
  | none => []
  | some file =>
    [.save file graph.dot ["Failed to create DOT output file: " ++ file],
      r.status ("Wrote module graph to " ++ file)]

def outputSteps (r : LinkRequest) (output : LinkOutput) : List Step :=
  r.grammarSteps output.grammar ++ r.reportSteps output.report ++ r.drawingSteps output.graph

/-- The causes of an error, the error itself first. -/
def errorCauses (e : LinkError) : List String :=
  match e with
  | .retrieval _ failure => e.message :: failure.causes
  | _ => [e.message]

/-- What happens, given the result of linking and how long it took. -/
def course (r : LinkRequest) (time : String) (result : Except LinkError LinkOutput) : Course :=
  match result with
  | .error e =>
    ⟨[r.startStep], some ⟨"Failed to link grammar from " ++ r.entry, errorCauses e⟩⟩
  | .ok output => ⟨r.startStep :: r.linkedStep time output :: r.outputSteps output, none⟩

def perform (r : LinkRequest) (tree : FileTree) : Ending :=
  (r.course "" (r.layout.link tree.readText r.entry r.options)).perform tree

end LinkRequest

end ModularGrammar.Command
