import ModularGrammar.Command.Link
import ModularGrammar.Command.Summarize

/-!
# The program

Reads the files a command needs, and does in the real world what the command says.  With `summarize`
as its first argument the program summarises, otherwise it links.
-/

namespace ModularGrammar.Command

/-! ## Files -/

/-- The code of a system error, for the errors that files have. -/
def systemCode? : IO.Error → Option UInt32
  | .noFileOrDirectory _ code _ => some code
  | .noSuchThing _ code _ => some code
  | .inappropriateType _ code _ => some code
  | .invalidArgument _ code _ => some code
  | .permissionDenied _ code _ => some code
  | _ => none

/-- The number of a system error; some operations report it negated. -/
def systemNumber (code : UInt32) : UInt32 :=
  if code < 0x80000000 then code else 0 - code

def fileError (e : IO.Error) : FileError :=
  match (systemCode? e).map systemNumber with
  | some 2 => .notFound
  | some 20 => .notADirectory
  | some 21 => .isADirectory
  | some 36 => .nameTooLong
  | _ => .other (toString e)

def readFile (file : String) : IO (Except FileError ByteArray) := do
  match FileTree.checkPath file with
  | .error e => return .error e
  | .ok () =>
    try return .ok (← IO.FS.readBinFile file)
    catch e => return .error (fileError e)

/-- The contents of some files, as far as they can be read. -/
def readFiles (files : List String) : IO (String → Except FileError ByteArray) := do
  let contents ← files.mapM fun file => return (file, ← readFile file)
  return fun file => (contents.lookup file).getD (.error .notFound)

/-! ## Performance -/

/-- Does the steps, up to the first that fails. -/
def doSteps : List Step → IO (Option Trouble)
  | [] => return none
  | .print line :: rest => do
    IO.println line
    doSteps rest
  | .complain line :: rest => do
    IO.eprintln line
    doSteps rest
  | .save file text context :: rest => do
    try
      IO.FS.writeFile file text
    catch e => return some (saveTrouble context (fileError e))
    doSteps rest

def Course.run (c : Course) : IO UInt32 := do
  match (← doSteps c.steps) <|> c.trouble with
  | none => return 0
  | some trouble =>
    IO.eprintln trouble.report
    return 1

/-! ## Requests -/

/-- The modules found from a survey on, level by level. -/
partial def LinkRequest.surveyFrom (r : LinkRequest) (s : Survey) :
    IO (Except LinkError (List Module)) := do
  if s.frontier.isEmpty then return .ok s.loaded
  let contents ← readFiles (r.layout.files s.frontier)
  let texts (file : String) : Except FileError String := (contents file).bind FileTree.textOf
  match s.advance (r.layout.method texts r.options) with
  | .error e => return .error e
  | .ok s => r.surveyFrom s

def LinkRequest.run (r : LinkRequest) : IO UInt32 := do
  let started ← IO.monoMsNow
  let entry := r.layout.resolve none r.entry
  let modules ← r.surveyFrom (.start entry)
  let result := modules.bind (r.options.link entry)
  let ended ← IO.monoMsNow
  (r.course (" in " ++ toString (ended - started) ++ "ms") result).run

def SummaryRequest.run (r : SummaryRequest) : IO UInt32 := do
  let contents ← readFiles [r.grammar, r.report]
  (r.course contents).run

end ModularGrammar.Command

open ModularGrammar.Command in
/-- Does what the arguments ask for. -/
def main (arguments : List String) : IO UInt32 := do
  match SummaryRequest.ofArguments? arguments, LinkRequest.ofArguments? arguments with
  | some r, _ => r.run
  | none, some r => r.run
  | none, none =>
    IO.eprintln "usage: --input <entry> [options]"
    IO.eprintln "       summarize --grammar <file> --meta <file> [--json]"
    return 2
