import ModularGrammar.Proofs.Hygiene

/-!
# Imports under One Name

A module may bind one name by several imports.  Validation looks each of them up, but the name is
written only once, as what the last of them means.  So the others have an effect exactly if they
mean what is written like it.

## Architecture

1. `Import.TakesEffect`: a name is written as what an import of it means
2. `takesEffect_iff`: one import, against the last one of its name
3. `imports_take_effect_iff`: all imports of linked modules
-/

namespace ModularGrammar

/-! ## Effects -/

/-- Where the module uses the name that the import binds, the name of the export that the import
means is written, under the qualifier of the exporter. -/
def Import.TakesEffect (modules : List Module) (m : Module) (i : Import) : Prop :=
  ∃ e, i.export? modules = some e ∧
    m.globalName modules i.localName = linkQualifier modules i.origin ++ e.localName

/-- A name that some import binds is decided by one of the imports that bind it. -/
theorem Module.exists_importOf? {m : Module} {i : Import} (hi : i ∈ m.boundImports) :
    ∃ j ∈ m.boundImports, m.importOf? i.localName = some j ∧ j.localName = i.localName := by
  have hfound : ∃ j, m.importOf? i.localName = some j := by
    apply Option.isSome_iff_exists.mp
    rw [Module.importOf?, List.find?_isSome]
    exact ⟨i, List.mem_reverse.mpr hi, by simp⟩
  obtain ⟨j, hj⟩ := hfound
  obtain ⟨hbound, hname⟩ := Module.importOf?_eq_some hj
  exact ⟨j, hbound, hj, hname⟩

section Valid

variable {modules : List Module}
  (hvalid : ExportIndex.problems (ExportIndex.ofModules modules) modules = [])

include hvalid

theorem owner_of_import {m : Module} (hm : m ∈ modules) {i : Import} (hi : i ∈ m.boundImports) :
    (i.referent modules).owner ∈ modules.map Module.name := by
  obtain ⟨e, he⟩ := ExportIndex.exists_export?_of_valid hvalid hm hi
  obtain ⟨x, hx, hname, -⟩ := Import.export?_eq_some he
  exact List.mem_map.mpr ⟨x, hx, hname⟩

/-- Imports of valid modules are written alike exactly if what they mean is the same or overlaps. -/
theorem globalName_import_eq_iff {m x : Module} (hm : m ∈ modules) (hx : x ∈ modules)
    {i j : Import} (hi : i ∈ m.boundImports) (hj : j ∈ x.boundImports) :
    (i.referent modules).globalName modules = (j.referent modules).globalName modules ↔
      (i.referent modules).WrittenAlike modules (j.referent modules) :=
  Referent.globalName_eq_iff (owner_of_import hvalid hm hi) (owner_of_import hvalid hx hj)

/-- An import takes effect exactly if the name it binds is written as what it means. -/
theorem takesEffect_iff_globalName {m : Module} (hm : m ∈ modules) {i : Import}
    (hi : i ∈ m.boundImports) : i.TakesEffect modules m ↔
      m.globalName modules i.localName = (i.referent modules).globalName modules := by
  obtain ⟨e, he⟩ := ExportIndex.exists_export?_of_valid hvalid hm hi
  rw [Import.TakesEffect, he, Import.globalName_of_export? he]
  constructor
  · rintro ⟨e', he', hname⟩
    cases he'
    exact hname
  · intro hname
    exact ⟨e, rfl, hname⟩

/-- An import takes effect exactly if the last import of its name is written like it. -/
theorem takesEffect_iff {m : Module} (hm : m ∈ modules) {i j : Import} (hi : i ∈ m.boundImports)
    (hlast : m.importOf? i.localName = some j) :
    i.TakesEffect modules m ↔ (j.referent modules).WrittenAlike modules (i.referent modules) := by
  have hj := (Module.importOf?_eq_some hlast).1
  -- the name is written as what the last import means
  rw [takesEffect_iff_globalName hvalid hm hi, Module.globalName_of_importOf? hlast]
  exact globalName_import_eq_iff hvalid hm hm hj hi

/-- All imports of a module take effect exactly if those that bind one name are written alike. -/
theorem forall_takesEffect_iff {m : Module} (hm : m ∈ modules) :
    (∀ i ∈ m.boundImports, i.TakesEffect modules m) ↔
      ∀ i ∈ m.boundImports, ∀ j ∈ m.boundImports, i.localName = j.localName →
        (i.referent modules).WrittenAlike modules (j.referent modules) := by
  constructor
  · intro heffect i hi j hj hname
    -- one name is written in one way, so both imports mean what is written like that
    have hwritten := (takesEffect_iff_globalName hvalid hm hi).mp (heffect i hi)
    have hwritten' := (takesEffect_iff_globalName hvalid hm hj).mp (heffect j hj)
    apply (globalName_import_eq_iff hvalid hm hm hi hj).mp
    rw [← hwritten, ← hwritten', hname]
  · intro halike i hi
    -- the last import of the name decides, and it is one of those that are written alike
    obtain ⟨j, hj, hlast, hname⟩ := Module.exists_importOf? hi
    exact (takesEffect_iff hvalid hm hi hlast).mpr (halike j hj i hi hname)

end Valid

/-! ## Linked modules -/

/-- Every name of linked modules is written as what its last import means.  An import takes effect
exactly if this is what it means itself, and all imports of a module do so exactly if those of one
name agree. -/
theorem imports_take_effect_iff {helper entry : String} {modules : List Module}
    {refusal : MacroReference.Refusal} {out : LinkOutput}
    (hlinked : linkModules helper entry modules refusal = .ok out) :
    WritesReferents entry modules out.grammar ∧
    ∀ m ∈ modules,
      (∀ i ∈ m.boundImports, ∃ j, m.importOf? i.localName = some j ∧
        (i.TakesEffect modules m ↔
          (j.referent modules).WrittenAlike modules (i.referent modules))) ∧
      ((∀ i ∈ m.boundImports, i.TakesEffect modules m) ↔
        ∀ i ∈ m.boundImports, ∀ j ∈ m.boundImports, i.localName = j.localName →
          (i.referent modules).WrittenAlike modules (j.referent modules)) := by
  have hvalid := valid_of_linkModules hlinked
  refine ⟨writesReferents_of_linkModules hlinked, ?_⟩
  intro m hm
  refine ⟨?_, forall_takesEffect_iff hvalid hm⟩
  intro i hi
  obtain ⟨j, -, hlast, -⟩ := Module.exists_importOf? hi
  exact ⟨j, hlast, takesEffect_iff hvalid hm hi hlast⟩

/-- A rule and a token are imported under two names, so both imports take effect. -/
theorem twoModules_imports_take_effect :
    ∃ out, linkModules "wrap" "main" twoModules = .ok out ∧
      WritesReferents "main" twoModules out.grammar ∧
      ∀ m ∈ twoModules, ∀ i ∈ m.boundImports, i.TakesEffect twoModules m := by
  obtain ⟨out, hlinked⟩ := exists_linkModules_twoModules
  obtain ⟨hwrites, heffect⟩ := imports_take_effect_iff hlinked
  -- no module binds a name twice
  have hdistinct : ∀ m ∈ twoModules, ∀ i ∈ m.boundImports, ∀ j ∈ m.boundImports,
      i.localName = j.localName → i = j := by decide
  refine ⟨out, hlinked, hwrites, ?_⟩
  intro m hm
  apply (heffect m hm).2.mpr
  intro i hi j hj hname
  rw [hdistinct m hm i hi j hj hname]
  exact Or.inl rfl

/-! ## An import without effect -/

/-- A module that takes rules of one name from two other modules. -/
def repeatedImporter : Module where
  name := "main"
  grammar := { rules := .ofList [("top", [⟨"item", none, none⟩])] }
  imports := [⟨"first", "item", "item", false⟩, ⟨"second", "item", "item", false⟩]

def repeatedImports : List Module := [
  repeatedImporter,
  { name := "first"
    grammar := { rules := .ofList [("item", [⟨"A", none, none⟩])] }
    exports := [⟨"item", "item", false⟩] },
  { name := "second"
    grammar := { rules := .ofList [("item", [⟨"B", none, none⟩])] }
    exports := [⟨"item", "item", false⟩] }]

/-- Linking goes through, and the rule that was imported first is not used. -/
theorem repeatedImports_override :
    ∃ out, linkModules "wrap" "main" repeatedImports = .ok out ∧
      out.grammar.rules.entries = [("main__top", [⟨"second__item", none, none⟩]),
        ("first__item", [⟨"first__A", none, none⟩]),
        ("second__item", [⟨"second__B", none, none⟩])] ∧
      ∃ i ∈ repeatedImporter.boundImports, i.origin = "first" ∧
        ¬ i.TakesEffect repeatedImports repeatedImporter := by
  have hlinks : ∃ out, linkModules "wrap" "main" repeatedImports = .ok out := by
    apply (exists_linkModules_iff (noneRefused_never _)).mpr
    exact ⟨by decide, by decide +kernel, by decide, by decide, _, rfl, Or.inr (by decide)⟩
  obtain ⟨out, hlinked⟩ := hlinks
  have horder : Composition.byPriority repeatedImports = repeatedImports :=
    PriorityOrder.byPriority_eq (by decide +kernel)
  refine ⟨out, hlinked, ?_, ?_⟩
  · rw [rules_of_linkModules hlinked, horder]
    decide +kernel
  · refine ⟨⟨"first", "item", "item", false⟩, List.mem_cons_self, rfl, ?_⟩
    rintro ⟨e, he, hname⟩
    cases he
    -- the name is written as the rule of the second module
    have hsecond : repeatedImporter.globalName repeatedImports "item" = "second__item" := by
      decide +kernel
    have hfirst : linkQualifier repeatedImports "first" ++ "item" = "first__item" := by
      decide +kernel
    rw [hfirst] at hname
    exact absurd (hsecond.symm.trans hname) (by decide)

end ModularGrammar
