import ModularGrammar.Proofs.Occurrence

/-!
# Offered Rules

Whatever a module offers as a rule stands in the composite rule table, under whichever public name
it is offered and whoever asks for it.  Validation looks offered rules up before anything is
renamed; here they are found again under their global names, by way of the imports that mean them
and by way of what the report says of the modules that offer them.

## Architecture

1. `Module.report`, `get?_report_of_linkModules`: what the report says of a module
2. `offered_rule_mem_keys`: a rule that is offered
3. `imports_and_exports_mem_keys`: all imports and all reported exports
-/

namespace ModularGrammar

/-! ## Reports -/

def Module.report (modules : List Module) (m : Module) : ModuleReport where
  qualifier := linkQualifier modules m.name
  exports := m.exports
  grammarLines := m.grammarLines
  lexiconLines := m.lexiconLines

section Linked

variable {helper entry : String} {modules : List Module} {refusal : MacroReference.Refusal}
  {out : LinkOutput} (hlinked : linkModules helper entry modules refusal = .ok out)

include hlinked

/-- Under a name stands what is reported of the last module of that name. -/
theorem get?_report_of_linkModules (name : String) : out.report.modules.get? name =
    (modules.reverse.find? fun m => m.name = name).map (Module.report modules) := by
  obtain ⟨-, -, hreport, -⟩ := linkModules_eq_ok_iff.mp hlinked
  have hlookup : out.report.modules.get? name =
      ((modules.map (Module.linked modules helper)).reverse.find? fun m => m.name = name).map
        (Module.report modules) := by
    rw [hreport]
    exact Table.get?_ofList_map Module.name (Module.report modules) _
  -- linking changes neither the names of modules nor what is reported of them
  rw [hlookup, ← List.map_reverse, List.find?_map, Option.map_map]
  rfl

/-- Of every module something is reported; if no other module has its name, it is this module. -/
theorem exists_report_of_linkModules {m : Module} (hm : m ∈ modules) :
    ∃ x ∈ modules, x.name = m.name ∧
      out.report.modules.get? m.name = some (x.report modules) := by
  have hfound : ∃ x, modules.reverse.find? (fun x => x.name = m.name) = some x := by
    apply Option.isSome_iff_exists.mp
    rw [List.find?_isSome]
    exact ⟨m, List.mem_reverse.mpr hm, by simp⟩
  obtain ⟨x, hx⟩ := hfound
  have hname := List.find?_some hx
  refine ⟨x, List.mem_reverse.mp (List.mem_of_find?_eq_some hx), by simpa using hname, ?_⟩
  rw [get?_report_of_linkModules hlinked, hx]
  rfl

/-! ## Rules -/

/-- A rule that is offered has its global name in the composite rule table. -/
theorem offered_rule_mem_keys {x : Module} (hx : x ∈ modules) {e : Export} (he : e ∈ x.exports)
    (hrule : e.lexical = false) :
    linkQualifier modules x.name ++ e.localName ∈ out.grammar.rules.keys := by
  have hvalid := valid_of_linkModules hlinked
  have hkey : e.localName ∈ x.grammar.rules.keys := ExportIndex.mem_keys_of_valid hvalid hx he hrule
  apply (mem_keys_of_linkModules hlinked).mpr
  refine ⟨⟨x.name, e.localName⟩, ?_, rfl⟩
  exact mem_definedReferents.mpr ⟨x, hx, rfl, hkey⟩

/-- Every import of a rule leads to a rule of the composite grammar, and so does every rule among
the exports that are reported of a module. -/
theorem imports_and_exports_mem_keys :
    (∀ m ∈ modules, ∀ i ∈ m.boundImports, i.lexical = false →
      ∃ e report, i.export? modules = some e ∧ out.report.modules.get? i.origin = some report ∧
        report.qualifier = linkQualifier modules i.origin ∧
        linkQualifier modules i.origin ++ e.localName ∈ out.grammar.rules.keys) ∧
    ∀ m ∈ modules, ∃ report, out.report.modules.get? m.name = some report ∧
      report.qualifier = linkQualifier modules m.name ∧
      ((∀ x ∈ modules, x.name = m.name → x = m) → report.exports = m.exports) ∧
      ∀ e ∈ report.exports, e.lexical = false →
        report.qualifier ++ e.localName ∈ out.grammar.rules.keys := by
  have hvalid := valid_of_linkModules hlinked
  constructor
  · intro m hm i hi hrule
    obtain ⟨e, he⟩ := ExportIndex.exists_export?_of_valid hvalid hm hi
    obtain ⟨x, hx, hname, hexport, -, hkind⟩ := Import.export?_eq_some he
    -- the exporter is a module of the link, and it offers a rule because a rule was asked for
    have hkey := offered_rule_mem_keys hlinked hx hexport (hkind.trans hrule)
    obtain ⟨y, -, hsame, hreport⟩ := exists_report_of_linkModules hlinked hx
    rw [hname] at hkey hsame hreport
    refine ⟨e, y.report modules, he, hreport, ?_, hkey⟩
    exact congrArg (linkQualifier modules) hsame
  · intro m hm
    -- the report may speak of a later module of the same name, whose exports it then lists
    obtain ⟨x, hx, hsame, hreport⟩ := exists_report_of_linkModules hlinked hm
    refine ⟨x.report modules, hreport, congrArg (linkQualifier modules) hsame, ?_, ?_⟩
    · intro hunique
      rw [hunique x hx hsame]
      rfl
    · intro e he hrule
      exact offered_rule_mem_keys hlinked hx he hrule

end Linked

/-- The default export of the second module is a rule that the first one knows by another name. -/
theorem twoModules_imports_and_exports_mem_keys :
    ∃ out, linkModules "wrap" "main" twoModules = .ok out ∧
      "lib__entry" ∈ out.grammar.rules.keys ∧
      ∃ report, out.report.modules.get? "lib" = some report ∧ report.qualifier = "lib__" ∧
        ⟨"entry", "default", false⟩ ∈ report.exports := by
  obtain ⟨out, hlinked⟩ := exists_linkModules_twoModules
  obtain ⟨himports, hexports⟩ := imports_and_exports_mem_keys hlinked
  refine ⟨out, hlinked, ?_, ?_⟩
  · obtain ⟨e, -, he, -, -, hkey⟩ := himports _ List.mem_cons_self ⟨"lib", "default", "item", false⟩
      (by decide) rfl
    cases he
    have hname : linkQualifier twoModules "lib" ++ "entry" = "lib__entry" := by decide +kernel
    exact hname ▸ hkey
  · obtain ⟨report, hreport, hqualifier, hunique, -⟩ :=
      hexports _ (List.mem_cons_of_mem _ List.mem_cons_self)
    have hlib : linkQualifier twoModules "lib" = "lib__" := by decide +kernel
    refine ⟨report, hreport, hqualifier.trans hlib, ?_⟩
    -- there is one module of the name, so the report is about it
    rw [hunique (by decide)]
    exact List.mem_cons_self

end ModularGrammar
