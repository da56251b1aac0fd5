import ModularGrammar.ExportIndex
import ModularGrammar.Proofs.Table

/-!
# Resolution of Imports

What an import means, said of the modules themselves: the last export that the last module of the
given name lists under the public name asked for, if it is of the kind asked for.  The index that
validation builds finds exactly this export.

## Architecture

1. `Import.export?`: the export an import means
2. `find?_ofModules`: the index finds it
3. `validate_eq_ok_iff`: what is known once modules have been validated
-/

namespace ModularGrammar

/-! ## The export an import means -/

/-- The module an import speaks of; of several modules with one name the last one. -/
def Import.exporter? (modules : List Module) (i : Import) : Option Module :=
  modules.reverse.find? fun m => m.name = i.origin

/-- The last export under a public name. -/
def Module.offered? (m : Module) (publicName : String) : Option Export :=
  m.exports.reverse.find? fun e => e.publicName = publicName

/-- The export an import means. -/
def Import.export? (modules : List Module) (i : Import) : Option Export :=
  ((i.exporter? modules).bind fun m => m.offered? i.publicName).filter fun e =>
    e.lexical = i.lexical

theorem Import.export?_eq_some {modules : List Module} {i : Import} {e : Export}
    (h : i.export? modules = some e) :
    ∃ x ∈ modules, x.name = i.origin ∧ e ∈ x.exports ∧ e.publicName = i.publicName ∧
      e.lexical = i.lexical := by
  obtain ⟨hoffered, hkind⟩ := Option.filter_eq_some_iff.mp h
  obtain ⟨x, hx, he⟩ := Option.bind_eq_some_iff.mp hoffered
  have hname := List.find?_some hx
  have hpublic := List.find?_some he
  exact ⟨x, List.mem_reverse.mp (List.mem_of_find?_eq_some hx), of_decide_eq_true hname,
    List.mem_reverse.mp (List.mem_of_find?_eq_some he), of_decide_eq_true hpublic,
    of_decide_eq_true hkind⟩

namespace ExportIndex

theorem get?_byPublicName (m : Module) (publicName : String) :
    (byPublicName m.exports).get? publicName = m.offered? publicName := by
  rw [byPublicName, Table.get?_ofList_map Export.publicName (fun e => e)]
  exact Option.map_id'

theorem get?_ofModules (modules : List Module) (name : String) :
    (ofModules modules).get? name =
      (modules.reverse.find? fun m => m.name = name).map fun m => byPublicName m.exports :=
  Table.get?_ofList_map Module.name (fun m => byPublicName m.exports) modules

/-- The index of some modules finds the export an import means. -/
theorem find?_ofModules (modules : List Module) (i : Import) :
    (ofModules modules).find? i = i.export? modules := by
  have hmodule : (ofModules modules).get? i.origin =
      (i.exporter? modules).map fun m => byPublicName m.exports := get?_ofModules modules i.origin
  rw [find?, Import.export?, hmodule]
  cases i.exporter? modules with
  | none => rfl
  | some m =>
    show ((byPublicName m.exports).get? i.publicName).bind _ =
      (m.offered? i.publicName).filter _
    rw [get?_byPublicName m]
    -- both refuse an export of the other kind
    cases m.offered? i.publicName with
    | none => rfl
    | some e => by_cases hkind : e.lexical = i.lexical <;> simp [Option.filter, hkind]

/-! ## Validated modules -/

/-- Validation succeeds with the index of the modules, if there is no problem. -/
theorem validate_eq_ok_iff {modules : List Module} {index : ExportIndex} :
    validate modules = .ok index ↔
      problems (ofModules modules) modules = [] ∧ index = ofModules modules := by
  rw [validate]
  cases problems (ofModules modules) modules with
  | nil => simp [eq_comm]
  | cons p ps => simp

variable {modules : List Module} {m : Module}

/-- Validation fails with all problems there are, if there are any. -/
theorem validate_eq_error (h : problems (ofModules modules) modules ≠ []) :
    validate modules = .error (.unresolved (problems (ofModules modules) modules)) := by
  rw [validate]
  split
  · next hnone => exact absurd hnone h
  · rfl

/-- There is no problem if no module has one. -/
theorem problems_nil_iff : problems (ofModules modules) modules = [] ↔
    ∀ m ∈ modules, importProblems (ofModules modules) m = [] ∧ exportProblems m = [] := by
  simp [problems, List.flatMap_eq_nil_iff]

/-- Every import of validated modules that binds a name has an export. -/
theorem exists_export?_of_valid (hvalid : problems (ofModules modules) modules = [])
    (hm : m ∈ modules) {i : Import} (hi : i ∈ m.boundImports) :
    ∃ e, i.export? modules = some e := by
  have hnone := (problems_nil_iff.mp hvalid m hm).1
  rw [importProblems, List.map_eq_nil_iff, List.filter_eq_nil_iff] at hnone
  -- an import without an export would be a problem
  have hsome := hnone i hi
  rw [find?_ofModules] at hsome
  cases hexport : i.export? modules with
  | none => exact absurd (by simp [hexport]) hsome
  | some e => exact ⟨e, rfl⟩

/-- Every rule that validated modules offer is there. -/
theorem mem_keys_of_valid (hvalid : problems (ofModules modules) modules = [])
    (hm : m ∈ modules) {e : Export} (he : e ∈ m.exports) (hrule : e.lexical = false) :
    e.localName ∈ m.grammar.rules.keys := by
  have hnone := (problems_nil_iff.mp hvalid m hm).2
  rw [exportProblems, List.map_eq_nil_iff, List.filter_eq_nil_iff] at hnone
  have hthere := hnone e he
  rw [hrule] at hthere
  rw [← Table.contains_iff_mem_keys]
  simpa using hthere

end ExportIndex

end ModularGrammar
