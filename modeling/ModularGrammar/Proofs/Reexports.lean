import ModularGrammar.Proofs.GlobalGrammar
import ModularGrammar.Proofs.RepeatedImports

/-!
# What Exporters and Importers Write

An import is written under the qualifier of the exporter and the name that the export has there.
The exporter itself reads this name like any other name it uses.  The two agree unless the exporter
has the name from somewhere else: exports offer what a module has under a name of its own, and are
not followed through its imports.

## Architecture

1. `Import.exporter?_spec`: the module and the export that an import means
2. `globalName_exported_iff`: when the exporter writes an exported name as importers do
3. `importer_exporter_agree_iff`: all imports of linked modules
-/

namespace ModularGrammar

/-! ## Exporters -/

/-- An import of one of some valid modules means an export of the module it speaks of. -/
theorem Import.exporter?_spec {modules : List Module}
    (hvalid : ExportIndex.problems (ExportIndex.ofModules modules) modules = [])
    {m : Module} (hm : m ∈ modules) {i : Import} (hi : i ∈ m.boundImports) :
    ∃ x ∈ modules, ∃ e ∈ x.exports, i.exporter? modules = some x ∧ x.name = i.origin ∧
      i.export? modules = some e := by
  obtain ⟨e, he⟩ := ExportIndex.exists_export?_of_valid hvalid hm hi
  -- the export was looked up in the module that the import speaks of
  obtain ⟨hoffered, -⟩ := Option.filter_eq_some_iff.mp he
  obtain ⟨x, hx, hexport⟩ := Option.bind_eq_some_iff.mp hoffered
  have hname := List.find?_some hx
  refine ⟨x, ?_, e, ?_, hx, of_decide_eq_true hname, he⟩
  · exact List.mem_reverse.mp (List.mem_of_find?_eq_some hx)
  · exact List.mem_reverse.mp (List.mem_of_find?_eq_some hexport)

/-- A module writes a name under its own qualifier exactly if it does not import the name, or
imports it as something that is written like that. -/
theorem globalName_exported_iff {modules : List Module}
    (hvalid : ExportIndex.problems (ExportIndex.ofModules modules) modules = [])
    {x : Module} (hx : x ∈ modules) (name : String) :
    x.globalName modules name = linkQualifier modules x.name ++ name ↔
      (∀ j ∈ x.boundImports, j.localName ≠ name) ∨
        ∃ j, x.importOf? name = some j ∧
          (j.referent modules).WrittenAlike modules ⟨x.name, name⟩ := by
  -- the exporter writes the name as what its last import of the name means, if there is one
  rcases globalName_cases hvalid hx name with ⟨j, e, himport, -, -⟩ | ⟨hlocal, hwritten⟩
  · obtain ⟨hj, hname⟩ := Module.importOf?_eq_some himport
    have halike := Referent.globalName_eq_iff (p := j.referent modules) (q := ⟨x.name, name⟩)
      (owner_of_import hvalid hx hj) (List.mem_map_of_mem hx)
    rw [Module.globalName_of_importOf? himport]
    constructor
    · intro h
      exact Or.inr ⟨j, himport, halike.mp h⟩
    · rintro (hlocal | ⟨k, hk, hkalike⟩)
      · exact absurd hname (hlocal j hj)
      · rw [himport] at hk
        cases hk
        exact halike.mpr hkalike
  · exact iff_of_true hwritten (Or.inl hlocal)

/-! ## Linked modules -/

/-- The names that are computed for the imports of linked modules are what exporters write for the
exported names, exactly where an exporter does not import the name itself or imports it as
something that is written alike. -/
theorem importer_exporter_agree_iff {helper entry : String} {modules : List Module}
    {refusal : MacroReference.Refusal} {out : LinkOutput}
    (hlinked : linkModules helper entry modules refusal = .ok out) :
    WritesReferents entry modules out.grammar ∧
    ∀ m ∈ modules,
      Renaming.importedNames (ExportIndex.ofModules modules) m.name m.boundImports
          (linkNaming modules) =
        (.ok (m.boundImports.map fun i => (i.localName, (i.referent modules).globalName modules)),
          linkNaming modules) ∧
      ∀ i ∈ m.boundImports, ∃ x ∈ modules, ∃ e ∈ x.exports,
        i.exporter? modules = some x ∧ i.export? modules = some e ∧
        (i.referent modules).globalName modules = linkQualifier modules x.name ++ e.localName ∧
        ((i.referent modules).globalName modules = x.globalName modules e.localName ↔
          (∀ j ∈ x.boundImports, j.localName ≠ e.localName) ∨
            ∃ j, x.importOf? e.localName = some j ∧
              (j.referent modules).WrittenAlike modules ⟨x.name, e.localName⟩) := by
  have hvalid := valid_of_linkModules hlinked
  refine ⟨writesReferents_of_linkModules hlinked, ?_⟩
  intro m hm
  constructor
  · apply importedNames_eq
    intro i hi
    exact ExportIndex.exists_export?_of_valid hvalid hm hi
  · intro i hi
    obtain ⟨x, hx, e, hexport, hexporter, hname, he⟩ := Import.exporter?_spec hvalid hm hi
    have himporter := Import.globalName_of_export? he
    rw [← hname] at himporter
    refine ⟨x, hx, e, hexport, hexporter, he, himporter, ?_⟩
    -- both sides ask whether the exporter writes the name under its own qualifier
    rw [himporter, eq_comm]
    exact globalName_exported_iff hvalid hx e.localName

/-- The second module imports nothing, so it writes its token as the first one does. -/
theorem twoModules_importer_exporter_agree :
    ∃ out, linkModules "wrap" "main" twoModules = .ok out ∧
      WritesReferents "main" twoModules out.grammar ∧
      ∀ m ∈ twoModules, ∀ i ∈ m.boundImports, ∃ x ∈ twoModules, ∃ e ∈ x.exports,
        i.export? twoModules = some e ∧
        (i.referent twoModules).globalName twoModules = x.globalName twoModules e.localName := by
  obtain ⟨out, hlinked⟩ := exists_linkModules_twoModules
  obtain ⟨hwrites, hagree⟩ := importer_exporter_agree_iff hlinked
  -- exporters that import nothing write every name under their own qualifier
  have hfree : ∀ m ∈ twoModules, ∀ i ∈ m.boundImports, ∀ x, i.exporter? twoModules = some x →
      x.boundImports = [] := by decide
  refine ⟨out, hlinked, hwrites, ?_⟩
  intro m hm i hi
  obtain ⟨x, hx, e, he, hexporter, hexport, -, hiff⟩ := (hagree m hm).2 i hi
  refine ⟨x, hx, e, he, hexport, hiff.mpr (Or.inl ?_)⟩
  rw [hfree m hm i hi x hexporter]
  simp

/-! ## Exports of imported names -/

/-- A module that offers a token and a rule under names that it imports itself. -/
def reexporter : Module where
  name := "middle"
  grammar := { rules := .ofList [("item", [⟨"X", none, none⟩]), ("list", [⟨"item NUM", none, none⟩])] }
  imports := [⟨"base", "NUM", "NUM", true⟩, ⟨"base", "item", "item", false⟩]
  exports := [⟨"NUM", "NUM", true⟩, ⟨"item", "item", false⟩]

def reexportImporter : Module where
  name := "main"
  grammar := { rules := .ofList [("top", [⟨"NUM item", none, none⟩])] }
  imports := [⟨"middle", "NUM", "NUM", true⟩, ⟨"middle", "item", "item", false⟩]

/-- Modules that have a token and a rule from a module which has them from another one. -/
def reexports : List Module := [
  reexportImporter,
  reexporter,
  { name := "base"
    grammar := { rules := .ofList [("item", [⟨"NUM", none, none⟩])] }
    exports := [⟨"NUM", "NUM", true⟩, ⟨"item", "item", false⟩] }]

/-- Importers write both names under the qualifier of the module in the middle, which itself writes
them under that of the last module. -/
theorem reexports_disagree :
    ∃ out, linkModules "wrap" "main" reexports = .ok out ∧
      out.grammar.rules.entries = [("main__top", [⟨"middle__NUM middle__item", none, none⟩]),
        ("middle__item", [⟨"middle__X", none, none⟩]),
        ("middle__list", [⟨"base__item base__NUM", none, none⟩]),
        ("base__item", [⟨"base__NUM", none, none⟩])] ∧
      ∀ i ∈ reexportImporter.boundImports, ∃ e, i.exporter? reexports = some reexporter ∧
        i.export? reexports = some e ∧
        (i.referent reexports).globalName reexports ≠
          reexporter.globalName reexports e.localName := by
  have hlinks : ∃ out, linkModules "wrap" "main" reexports = .ok out := by
    apply (exists_linkModules_iff (noneRefused_never _)).mpr
    exact ⟨by decide, by decide +kernel, by decide, by decide, _, rfl, Or.inr (by decide)⟩
  obtain ⟨out, hlinked⟩ := hlinks
  have horder : Composition.byPriority reexports = reexports :=
    PriorityOrder.byPriority_eq (by decide +kernel)
  refine ⟨out, hlinked, ?_, ?_⟩
  · rw [rules_of_linkModules hlinked, horder]
    decide +kernel
  · have himports : reexportImporter.boundImports =
        [⟨"middle", "NUM", "NUM", true⟩, ⟨"middle", "item", "item", false⟩] := by decide
    rw [himports]
    intro i hi
    -- both imports bind what the exporter has from the third module
    rcases List.mem_pair.mp hi with rfl | rfl
    · have himporter : (Import.referent reexports ⟨"middle", "NUM", "NUM", true⟩).globalName
          reexports = "middle__NUM" := by decide +kernel
      have hexporter : reexporter.globalName reexports "NUM" = "base__NUM" := by decide +kernel
      refine ⟨⟨"NUM", "NUM", true⟩, rfl, rfl, ?_⟩
      rw [himporter, hexporter]
      decide
    · have himporter : (Import.referent reexports ⟨"middle", "item", "item", false⟩).globalName
          reexports = "middle__item" := by decide +kernel
      have hexporter : reexporter.globalName reexports "item" = "base__item" := by decide +kernel
      refine ⟨⟨"item", "item", false⟩, rfl, rfl, ?_⟩
      rw [himporter, hexporter]
      decide

end ModularGrammar
