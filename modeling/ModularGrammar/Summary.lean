import ModularGrammar.Composite.Basic
import ModularGrammar.Decimal
import ModularGrammar.Link.Report
import ModularGrammar.Text.Segment

/-!
# Summaries

How much each module has contributed to a composite grammar.  A name counts for the module whose
qualifier it begins with; where one qualifier begins another, for the longest.

## Architecture

1. `Summary.ofReport`: one row for each module
2. `Summary.table`, `Summary.json`: the two forms in which rows are shown
-/

namespace ModularGrammar

/-- What one module has contributed. -/
structure Contribution where
  module : String
  qualifier : String
  rules : Nat
  macros : Nat
  startConditions : Nat
deriving DecidableEq, Repr, Inhabited

namespace Summary

/-! ## Counting -/

/-- The longest of the qualifiers a name begins with; of equally long ones the last. -/
def owner? (qualifiers : List String) (name : String) : Option String :=
  (qualifiers.filter fun q => Text.begins q name).foldl (fun longest q =>
    match longest with
    | none => some q
    | some l => some (if l.utf8ByteSize ≤ q.utf8ByteSize then q else l)) none

/-- How many of the names count for a qualifier. -/
def countOwned (qualifiers names : List String) (qualifier : String) : Nat :=
  names.countP fun name => owner? qualifiers name == some qualifier

/-- The contributions of all modules, in the order of the report. -/
def ofReport (grammar : CompositeGrammar) (report : LinkReport) : List Contribution :=
  let qualifiers := report.modules.values.map ModuleReport.qualifier
  report.modules.entries.map fun (module, info) => {
    module
    qualifier := info.qualifier
    rules := countOwned qualifiers grammar.rules.keys info.qualifier
    macros := countOwned qualifiers grammar.lexicon.macros.keys info.qualifier
    startConditions := countOwned qualifiers grammar.lexicon.startConditions.keys info.qualifier }

/-! ## The table -/

/-- The text with blanks behind it, up to a width. -/
def padBehind (width : Nat) (s : String) : String :=
  s ++ String.ofList (List.replicate (width - s.length) ' ')

/-- The text with blanks before it, up to a width. -/
def padBefore (width : Nat) (s : String) : String :=
  String.ofList (List.replicate (width - s.length) ' ') ++ s

def line (module qualifier rules macros startConditions : String) : String :=
  padBehind 40 module ++ " " ++ padBehind 30 qualifier ++ " " ++ padBefore 6 rules ++ " " ++
    padBefore 7 macros ++ " " ++ padBefore 11 startConditions

def numeral (n : Nat) : String := String.ofList (Decimal.writeNat n)

def rowLine (c : Contribution) : String :=
  line c.module c.qualifier (numeral c.rules) (numeral c.macros) (numeral c.startConditions)

/-- The lines that show the contributions to a grammar. -/
def table (grammar : CompositeGrammar) (rows : List Contribution) : List String :=
  ["Start rule: " ++ grammar.start, line "module" "prefix" "rules" "macros" "conditions"] ++
    rows.map rowLine ++ ["Total rules: " ++ numeral grammar.rules.size]

/-! ## JSON -/

def rowJson (c : Contribution) : Json :=
  .object [
    ("module", .string c.module),
    ("prefix", .string c.qualifier),
    ("rules", Json.natural c.rules),
    ("macros", Json.natural c.macros),
    ("start_conditions", Json.natural c.startConditions)]

def toJson (rows : List Contribution) : Json := Json.ofList rowJson rows

end Summary

end ModularGrammar
