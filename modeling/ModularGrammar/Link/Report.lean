import ModularGrammar.Json.Bytes
import ModularGrammar.Json.Record
import ModularGrammar.Json.Writer
import ModularGrammar.Module.Basic

/-!
# Link reports

What is known of the modules after linking and does not stand in the composite grammar, with its
document.  All parts of the document must be there.
-/

namespace ModularGrammar

open Json

/-! ## Reports -/

structure ModuleReport where
  /-- What was put before the names the module defines. -/
  qualifier : String
  exports : List Export
  /-- The grammar's lines that do not speak about linking. -/
  grammarLines : List String
  /-- The lexicon's lines that do not speak about linking. -/
  lexiconLines : List String
deriving DecidableEq, Inhabited

/-- What is reported of all modules, in the order in which they were found. -/
structure LinkReport where
  modules : Table ModuleReport
deriving DecidableEq, Inhabited

/-! ## Exports -/

namespace Export

def fieldNames : List String := ["sourceName", "publicName", "lexical"]

def ofJson? (value : Json) : Option Export := do
  match ← fields? fieldNames value with
  | [localName, publicName, lexical] =>
    return {
      localName := ← required text? localName
      publicName := ← required text? publicName
      lexical := ← required bool? lexical }
  | _ => none

def toJson (e : Export) : Json :=
  .object [
    ("sourceName", .string e.localName),
    ("publicName", .string e.publicName),
    ("lexical", .bool e.lexical)]

end Export

/-! ## Modules -/

namespace ModuleReport

def fieldNames : List String := ["prefix", "exports", "grammarDecls", "lexiconDecls"]

def ofJson? (value : Json) : Option ModuleReport := do
  match ← fields? fieldNames value with
  | [qualifier, exports, grammarLines, lexiconLines] =>
    return {
      qualifier := ← required text? qualifier
      exports := ← required (list? Export.ofJson?) exports
      grammarLines := ← required (list? text?) grammarLines
      lexiconLines := ← required (list? text?) lexiconLines }
  | _ => none

def toJson (m : ModuleReport) : Json :=
  .object [
    ("prefix", .string m.qualifier),
    ("exports", ofList Export.toJson m.exports),
    ("grammarDecls", texts m.grammarLines),
    ("lexiconDecls", texts m.lexiconLines)]

end ModuleReport

/-! ## Documents -/

namespace LinkReport

def ofJson? (value : Json) : Option LinkReport := do
  match ← fields? ["modules"] value with
  | [modules] => return { modules := ← required (table? ModuleReport.ofJson?) modules }
  | _ => none

def toJson (report : LinkReport) : Json :=
  .object [("modules", ofTable ModuleReport.toJson report.modules)]

def read? (s : String) : Option LinkReport := (Json.read? s).bind ofJson?

/-- The report that the text with the given bytes stands for. -/
def readBytes? (bytes : ByteArray) : Option LinkReport := (Json.readBytes? bytes).bind ofJson?

/-- The text of a file that holds the report. -/
def fileText (report : LinkReport) : String := report.toJson.pretty ++ "\n"

end LinkReport

end ModularGrammar
