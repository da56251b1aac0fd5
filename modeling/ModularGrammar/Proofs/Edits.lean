import ModularGrammar.Link.Load
import ModularGrammar.Module.Edit
import ModularGrammar.Proofs.LinkOutcome

/-!
# Edits That Do Not Decide About Linking

Modules can be changed after they have been found and before they are linked.  Whether they can be
linked is a question of names: what the modules are called, what they define, import and export,
and where the entry starts.  Edits of priorities, code and precedence leave all of this alone, so
however many of them are made, linking succeeds exactly if it did before.

## Architecture

1. `Module.bare`: a module without what does not decide
2. `exists_linkModules_map_bare_iff`: modules without it can be linked if they can be linked with it
3. `Edit.Marginal`: edits of what does not decide, one (`map_bare_apply`) and many
   (`map_bare_applyAll`)
4. `exists_linkModules_applyAll_iff`, `Library.exists_link_iff_of_marginal`: linking after edits
-/

namespace ModularGrammar

/-! ## What does not decide -/

/-- The module without its priority, code and precedence. -/
def Module.bare (m : Module) : Module :=
  { m with
    priority := defaultPriority
    precedence := []
    grammar := { m.grammar with code := none } }

section Bare

variable (modules : List Module)

theorem ofModules_map_bare :
    ExportIndex.ofModules (modules.map Module.bare) = ExportIndex.ofModules modules := by
  rw [ExportIndex.ofModules, List.map_map]
  rfl

theorem problems_map_bare (index : ExportIndex) :
    ExportIndex.problems index (modules.map Module.bare) = ExportIndex.problems index modules := by
  rw [ExportIndex.problems, List.flatMap_map]
  rfl

theorem linkQualifier_map_bare (name : String) :
    linkQualifier (modules.map Module.bare) name = linkQualifier modules name := by
  rw [linkQualifier, linkNaming, List.map_map]
  rfl

/-- What is said of the names that modules define can be said without the rest. -/
theorem defineApart_map_bare_iff (defined : Module → List String)
    (hdefined : ∀ m : Module, defined m.bare = defined m) :
    DefineApart (modules.map Module.bare) defined ↔ DefineApart modules defined := by
  simp only [DefineApart, List.pairwise_map, linkQualifier_map_bare, hdefined]
  rfl

theorem hasStart_map_bare_iff (entry : String) :
    HasStart entry (modules.map Module.bare) ↔ HasStart entry modules := by
  have hfind : (modules.map Module.bare).find? (fun m => m.name == entry) =
      (modules.find? fun m => m.name == entry).map Module.bare := List.find?_map ..
  simp only [HasStart, hfind, Option.map_eq_some_iff, ↓existsAndEq, and_true]
  constructor
  · rintro ⟨m, hm, hstart⟩
    exact ⟨m, hm, hstart⟩
  · rintro ⟨m, hm, hstart⟩
    exact ⟨m, hm, hstart⟩

theorem linkable_map_bare_iff (entry : String) :
    Linkable entry (modules.map Module.bare) ↔ Linkable entry modules := by
  -- none of the five conditions speaks of what has been taken away
  have hproblems : ExportIndex.problems (ExportIndex.ofModules (modules.map Module.bare))
      (modules.map Module.bare) = ExportIndex.problems (ExportIndex.ofModules modules) modules := by
    rw [ofModules_map_bare, problems_map_bare]
  have hrules := defineApart_map_bare_iff modules (fun m => m.grammar.rules.keys) fun _ => rfl
  have hmacros := defineApart_map_bare_iff modules (fun m => m.macros.keys) fun _ => rfl
  have hconditions :=
    defineApart_map_bare_iff modules (fun m => m.startConditions.keys) fun _ => rfl
  have hstart := hasStart_map_bare_iff modules entry
  constructor
  · intro h
    exact ⟨hproblems ▸ h.valid, hrules.mp h.rules, hmacros.mp h.macros,
      hconditions.mp h.startConditions, hstart.mp h.start⟩
  · intro h
    exact ⟨hproblems.trans h.valid, hrules.mpr h.rules, hmacros.mpr h.macros,
      hconditions.mpr h.startConditions, hstart.mpr h.start⟩

theorem noneRefused_map_bare_iff (refusal : MacroReference.Refusal) :
    NoneRefused refusal (modules.map Module.bare) ↔ NoneRefused refusal modules :=
  List.forall_mem_map

/-- Linking succeeds with all of the modules exactly if it does with what is left of them. -/
theorem exists_linkModules_map_bare_iff (helper entry : String)
    (refusal : MacroReference.Refusal) :
    (∃ out, linkModules helper entry (modules.map Module.bare) refusal = .ok out) ↔
      ∃ out, linkModules helper entry modules refusal = .ok out := by
  rw [exists_linkModules_iff_accepted, exists_linkModules_iff_accepted, noneRefused_map_bare_iff,
    linkable_map_bare_iff]

end Bare

/-! ## Edits -/

/-- An edit of what does not decide. -/
inductive ModuleEdit.Marginal : ModuleEdit → Prop where
  | setPriority (priority : Int64) : Marginal (.setPriority priority)
  | setCode (code : Option String) : Marginal (.setCode code)
  | setPrecedence (precedence : List Precedence) : Marginal (.setPrecedence precedence)

theorem ModuleEdit.Marginal.bare_apply {edit : ModuleEdit} (h : edit.Marginal) (m : Module) :
    (edit.apply m).bare = m.bare := by
  cases h with
  | setPriority => rfl
  | setCode => rfl
  | setPrecedence => rfl

namespace Edit

/-- An edit of what does not decide, in one of the modules. -/
inductive Marginal : Edit → Prop where
  | change (place : Nat) {edit : ModuleEdit} (h : edit.Marginal) : Marginal (.change place edit)

theorem Marginal.map_bare_apply {edit : Edit} (h : edit.Marginal) (modules : List Module) :
    (edit.apply modules).map Module.bare = modules.map Module.bare := by
  obtain ⟨place, h⟩ := h
  apply List.ext_getElem?
  intro i
  -- the module at the place is the only one that is another
  rw [Edit.apply, List.getElem?_map, List.getElem?_map, List.getElem?_modify]
  split
  · cases modules[i]? with
    | none => rfl
    | some m => simp [h.bare_apply]
  · simp

theorem map_bare_applyAll {edits : List Edit} (h : ∀ edit ∈ edits, edit.Marginal)
    (modules : List Module) :
    (applyAll edits modules).map Module.bare = modules.map Module.bare := by
  induction edits generalizing modules with
  | nil => rfl
  | cons edit rest ih =>
    obtain ⟨hfirst, hrest⟩ := List.forall_mem_cons.mp h
    calc (applyAll rest (edit.apply modules)).map Module.bare
        = (edit.apply modules).map Module.bare := ih hrest _
      _ = modules.map Module.bare := hfirst.map_bare_apply modules

end Edit

/-! ## Linking after edits -/

variable {edits : List Edit} (h : ∀ edit ∈ edits, edit.Marginal)

include h

/-- Edits of what does not decide make linking neither fail nor succeed. -/
theorem exists_linkModules_applyAll_iff (helper entry : String) (modules : List Module)
    (refusal : MacroReference.Refusal) :
    (∃ out, linkModules helper entry (Edit.applyAll edits modules) refusal = .ok out) ↔
      ∃ out, linkModules helper entry modules refusal = .ok out := by
  rw [← exists_linkModules_map_bare_iff, Edit.map_bare_applyAll h, exists_linkModules_map_bare_iff]

/-- The same holds of all that an entry needs, if the modules are edited once they are found. -/
theorem Library.exists_link_iff_of_marginal (library : Library) (entry : String) (o : Options)
    (refusal : MacroReference.Refusal) :
    (∃ out, library.link entry { o with preprocess := some (Edit.applyAll edits) } refusal =
        .ok out) ↔
      ∃ out, library.link entry { o with preprocess := none } refusal = .ok out := by
  -- the modules are found in the same way, with or without a change to come
  have hlink : ∀ change, library.link entry { o with preprocess := change } refusal =
      (library.survey entry o.fallbackPriority).bind fun modules =>
        linkModules o.actionHelper (library.pathRule none entry)
          (Options.applyPreprocess { o with preprocess := change } modules) refusal := fun _ => rfl
  rw [hlink, hlink]
  cases library.survey entry o.fallbackPriority with
  | error e => simp [Except.bind]
  | ok modules => exact exists_linkModules_applyAll_iff h o.actionHelper _ modules refusal

end ModularGrammar
