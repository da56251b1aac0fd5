import ModularGrammar.Proofs.Collision
import ModularGrammar.Proofs.Linking

/-!
# The Outcome of Linking

Exactly when linking succeeds, and with which error it fails if it does not.  Validation comes
first and tells all its problems; after it nothing fails but the composition, which looks at the
rules, at the entry, and at macros and start conditions, and tells the first thing that is wrong.
All this is said of modules to whose macros references can be found; otherwise linking ends between
validation and composition.

## Architecture

1. `Linkable`: modules that can be linked
2. `LinkFailure`: the reasons why others cannot, each under the condition that none before it holds
3. `compose_linked_eq_error_iff`: the composition
4. `linkModules_outcome`: linking
-/

namespace ModularGrammar

/-! ## Success -/

/-- No two modules define the same global name. -/
def DefineApart (modules : List Module) (defined : Module → List String) : Prop :=
  modules.Pairwise fun a b => ∀ r ∈ defined a, ∀ s ∈ defined b,
    linkQualifier modules a.name ++ r ≠ linkQualifier modules b.name ++ s

/-- The first module of the entry's name has a start or a rule. -/
def HasStart (entry : String) (modules : List Module) : Prop :=
  ∃ m, modules.find? (fun m => m.name == entry) = some m ∧
    (m.grammar.start ≠ none ∨ m.grammar.rules.keys ≠ [])

/-- Everything that linking asks for. -/
structure Linkable (entry : String) (modules : List Module) : Prop where
  valid : ExportIndex.problems (ExportIndex.ofModules modules) modules = []
  rules : DefineApart modules fun m => m.grammar.rules.keys
  macros : DefineApart modules fun m => m.macros.keys
  startConditions : DefineApart modules fun m => m.startConditions.keys
  start : HasStart entry modules

/-- Names of one module stay apart by themselves. -/
theorem defineApart_iff_nodup (modules : List Module) (defined : Module → List String)
    (hdefined : ∀ m ∈ modules, (defined m).Nodup) :
    DefineApart modules defined ↔ (globalNames modules defined).Nodup := by
  -- what stands before the names of one module is the same, so they stay distinct
  have hown : ∀ m ∈ modules, ((defined m).map fun name =>
      (⟨m.name, name⟩ : Referent).globalName modules).Nodup := by
    intro m hm
    apply (hdefined m hm).map
    intro r s h
    exact (String.append_right_inj _).mp h
  rw [globalNames, List.nodup_flatMap]
  constructor
  · intro h
    refine ⟨hown, h.imp ?_⟩
    intro a b hab name ha hb
    obtain ⟨r, hr, rfl⟩ := List.mem_map.mp ha
    obtain ⟨s, hs, heq⟩ := List.mem_map.mp hb
    exact hab r hr s hs heq.symm
  · intro h
    apply h.2.imp
    intro a b hdisjoint r hr s hs heq
    exact hdisjoint (List.mem_map.mpr ⟨r, hr, rfl⟩) (List.mem_map.mpr ⟨s, hs, heq.symm⟩)

theorem exists_linkModules_iff_linkable {helper entry : String} {modules : List Module}
    {refusal : MacroReference.Refusal} (haccepted : NoneRefused refusal modules) :
    (∃ out, linkModules helper entry modules refusal = .ok out) ↔ Linkable entry modules := by
  have hrules := defineApart_iff_nodup modules (fun m => m.grammar.rules.keys)
    fun m _ => m.grammar.rules.nodup
  have hmacros := defineApart_iff_nodup modules (fun m => m.macros.keys)
    fun m _ => m.macros.nodup
  have hconditions := defineApart_iff_nodup modules (fun m => m.startConditions.keys)
    fun m _ => m.startConditions.nodup
  rw [exists_linkModules_iff haccepted, ← hrules, ← hmacros, ← hconditions]
  constructor
  · rintro ⟨hvalid, hr, hm, hc, hstart⟩
    exact ⟨hvalid, hr, hm, hc, hstart⟩
  · intro h
    exact ⟨h.valid, h.rules, h.macros, h.startConditions, h.start⟩

/-- Whatever is refused, linking succeeds exactly if the modules are linkable and references to the
macros of all of them can be found. -/
theorem exists_linkModules_iff_accepted {helper entry : String} {modules : List Module}
    {refusal : MacroReference.Refusal} :
    (∃ out, linkModules helper entry modules refusal = .ok out) ↔
      NoneRefused refusal modules ∧ Linkable entry modules := by
  constructor
  · rintro ⟨out, hlinked⟩
    have haccepted := noneRefused_of_linkModules hlinked
    exact ⟨haccepted, (exists_linkModules_iff_linkable haccepted).mp ⟨out, hlinked⟩⟩
  · rintro ⟨haccepted, hlinkable⟩
    exact (exists_linkModules_iff_linkable haccepted).mpr hlinkable

/-! ## Failure -/

/-- The rules of the modules with their global names, in a row. -/
def globalRuleDefinitions (modules ordered : List Module) : List Definition :=
  ordered.flatMap fun m => m.grammar.rules.keys.map fun name =>
    ⟨.rule, linkQualifier modules m.name ++ name, m.name⟩

/-- The macros and start conditions of the modules with their global names, in a row, the macros of
each module before its start conditions. -/
def globalLexicalDefinitions (modules ordered : List Module) : List Definition :=
  ordered.flatMap fun m =>
    (m.macros.keys.map fun name => ⟨.lexerMacro, linkQualifier modules m.name ++ name, m.name⟩) ++
    m.startConditions.keys.map fun name =>
      ⟨.startCondition, linkQualifier modules m.name ++ name, m.name⟩

/-- The errors of linking, where `ordered` are the modules in the order of the priorities. -/
inductive LinkFailure (entry : String) (modules ordered : List Module) : LinkError → Prop where
  | unresolved (hproblems : ExportIndex.problems (ExportIndex.ofModules modules) modules ≠ []) :
      LinkFailure entry modules ordered
        (.unresolved (ExportIndex.problems (ExportIndex.ofModules modules) modules))
  | rules (hvalid : ExportIndex.problems (ExportIndex.ofModules modules) modules = [])
      {first second : Definition}
      (h : FirstRepetition (globalRuleDefinitions modules ordered) first second) :
      LinkFailure entry modules ordered
        (.identifierCollision .rule second.name first.owner second.owner)
  | entryNotLoaded (hvalid : ExportIndex.problems (ExportIndex.ofModules modules) modules = [])
      (hrules : DefineApart modules fun m => m.grammar.rules.keys)
      (h : ∀ m ∈ modules, m.name ≠ entry) :
      LinkFailure entry modules ordered (.internal (.entryNotLoaded entry))
  | missingStartRule (hvalid : ExportIndex.problems (ExportIndex.ofModules modules) modules = [])
      (hrules : DefineApart modules fun m => m.grammar.rules.keys)
      {m : Module} (hentry : modules.find? (fun m => m.name == entry) = some m)
      (hstart : m.grammar.start = none) (hempty : m.grammar.rules.keys = []) :
      LinkFailure entry modules ordered (.missingStartRule entry)
  | lexicalNames (hvalid : ExportIndex.problems (ExportIndex.ofModules modules) modules = [])
      (hrules : DefineApart modules fun m => m.grammar.rules.keys)
      (hstart : HasStart entry modules) {first second : Definition}
      (h : FirstRepetition (globalLexicalDefinitions modules ordered) first second) :
      LinkFailure entry modules ordered
        (.identifierCollision second.kind second.name first.owner second.owner)

/-! ## The composition -/

section Linked

variable (modules : List Module) (helper : String)

theorem ruleDefinitions_linked :
    Composition.ruleDefinitions
        (Composition.byPriority (modules.map (Module.linked modules helper))) =
      globalRuleDefinitions modules (Composition.byPriority modules) := by
  rw [byPriority_linked, Composition.ruleDefinitions, List.flatMap_map, globalRuleDefinitions]
  apply List.flatMap_congr
  intro m _
  rw [OwnedTable.definitionsOf, keys_linked, List.map_map]
  rfl

theorem lexicalDefinitions_linked :
    Composition.lexicalDefinitions
        (Composition.byPriority (modules.map (Module.linked modules helper))) =
      globalLexicalDefinitions modules (Composition.byPriority modules) := by
  rw [byPriority_linked, Composition.lexicalDefinitions, List.flatMap_map,
    globalLexicalDefinitions]
  apply List.flatMap_congr
  intro m _
  rw [OwnedTable.definitionsOf, OwnedTable.definitionsOf, macros_keys_linked,
    startConditions_keys_linked, List.map_map, List.map_map]
  rfl

theorem startRule_linked_eq_error_iff {entry : String} {e : LinkError} :
    Composition.startRule entry (modules.map (Module.linked modules helper)) = .error e ↔
      ((∀ m ∈ modules, m.name ≠ entry) ∧ e = .internal (.entryNotLoaded entry)) ∨
      ∃ m, modules.find? (fun m => m.name == entry) = some m ∧ m.grammar.start = none ∧
        m.grammar.rules.keys = [] ∧ e = .missingStartRule entry := by
  rw [startRule_linked]
  cases hfind : modules.find? fun m => m.name == entry with
  | none =>
    have habsent : ∀ m ∈ modules, m.name ≠ entry := by
      intro m hm
      simpa using List.find?_eq_none.mp hfind m hm
    simp only [Except.error.injEq, reduceCtorEq, false_and, exists_false, or_false,
      and_iff_right habsent]
    exact eq_comm
  | some m =>
    have hm := List.mem_of_find?_eq_some hfind
    have hentry : m.name = entry := by simpa using List.find?_some hfind
    have hpresent : ¬ ∀ m ∈ modules, m.name ≠ entry := fun h => h m hm hentry
    simp only [hpresent, false_and, false_or, Option.some.injEq, exists_eq_left', hentry]
    -- a start is taken as it is, and without one the first rule is
    cases m.grammar.start with
    | some s => simp
    | none =>
      cases m.grammar.rules.keys with
      | cons r rest => simp
      | nil => simp [eq_comm]

theorem exists_mergeRules_linked_iff :
    (∃ rules, Composition.mergeRules
        (Composition.byPriority (modules.map (Module.linked modules helper))) = .ok rules) ↔
      DefineApart modules fun m => m.grammar.rules.keys := by
  have hnodup := nodup_byPriority_linked modules helper (fun m => m.grammar.rules.keys)
    (keys_linked modules helper)
  have hapart := defineApart_iff_nodup modules (fun m => m.grammar.rules.keys)
    fun m _ => m.grammar.rules.nodup
  rw [hapart, ← hnodup]
  constructor
  · rintro ⟨rules, hrules⟩
    exact (Composition.mergeRules_eq_ok_iff.mp hrules).1
  · exact Composition.exists_mergeRules

end Linked

/-- The composition fails with what is wrong with the rules, or else with the entry, or else with
macros and start conditions. -/
theorem compose_eq_error_iff {helper entry : String} {modules : List Module} {e : LinkError} :
    Composition.compose helper entry modules = .error e ↔
      Composition.mergeRules (Composition.byPriority modules) = .error e ∨
      (∃ rules, Composition.mergeRules (Composition.byPriority modules) = .ok rules) ∧
        (Composition.startRule entry modules = .error e ∨
          (∃ start, Composition.startRule entry modules = .ok start) ∧
            Composition.mergeLexicons helper (Composition.byPriority modules) = .error e) := by
  simp only [Composition.compose, except_bind_eq_error, pure, Except.pure, reduceCtorEq, and_false,
    exists_false, or_false, exists_and_right]

/-! ## Linking -/

/-- Modules that are not valid are not linked, and all their problems are told. -/
theorem linkModules_of_invalid {helper entry : String} {modules : List Module}
    {refusal : MacroReference.Refusal}
    (h : ExportIndex.problems (ExportIndex.ofModules modules) modules ≠ []) :
    linkModules helper entry modules refusal =
      .error (.unresolved (ExportIndex.problems (ExportIndex.ofModules modules) modules)) := by
  rw [linkModules, ExportIndex.validate_eq_error h]
  rfl

theorem kind_of_mem_globalRuleDefinitions {modules ordered : List Module} {d : Definition}
    (h : d ∈ globalRuleDefinitions modules ordered) : d.kind = .rule := by
  obtain ⟨m, -, hd⟩ := List.mem_flatMap.mp h
  obtain ⟨name, -, rfl⟩ := List.mem_map.mp hd
  rfl

theorem FirstRepetition.mem {definitions : List Definition} {first second : Definition}
    (h : FirstRepetition definitions first second) : second ∈ definitions := by
  obtain ⟨front, back, rfl, -⟩ := h
  simp

section Failure

variable {helper entry : String} {modules : List Module} {refusal : MacroReference.Refusal}
  {e : LinkError}

/-- The composition of linked modules, stage by stage, said of the modules that were given. -/
theorem compose_linked_eq_error_iff :
    Composition.compose helper entry (modules.map (Module.linked modules helper)) = .error e ↔
      (∃ first second, FirstRepetition
          (globalRuleDefinitions modules (Composition.byPriority modules)) first second ∧
        e = first.collision second) ∨
      (DefineApart modules fun m => m.grammar.rules.keys) ∧
        ((((∀ m ∈ modules, m.name ≠ entry) ∧ e = .internal (.entryNotLoaded entry)) ∨
          ∃ m, modules.find? (fun m => m.name == entry) = some m ∧ m.grammar.start = none ∧
            m.grammar.rules.keys = [] ∧ e = .missingStartRule entry) ∨
        HasStart entry modules ∧ ∃ first second, FirstRepetition
            (globalLexicalDefinitions modules (Composition.byPriority modules)) first second ∧
          e = first.collision second) := by
  -- each stage is taken back to the modules that were given: rules, entry, macros and conditions
  rw [compose_eq_error_iff, Composition.mergeRules_eq_error_iff, ruleDefinitions_linked,
    exists_mergeRules_linked_iff, startRule_linked_eq_error_iff, exists_startRule_linked_iff,
    Composition.mergeLexicons_eq_error_iff, lexicalDefinitions_linked]
  rfl

theorem linkModules_eq_error_iff (haccepted : NoneRefused refusal modules) :
    linkModules helper entry modules refusal = .error e ↔
      LinkFailure entry modules (Composition.byPriority modules) e := by
  by_cases hvalid : ExportIndex.problems (ExportIndex.ofModules modules) modules = []
  · -- what is left after validation fails in the composition only
    rw [linkModules_of_valid hvalid haccepted, except_bind_eq_error]
    simp only [reduceCtorEq, and_false, exists_false, or_false]
    rw [compose_linked_eq_error_iff]
    constructor
    · rintro (⟨first, second, h, rfl⟩ | ⟨hrules, (⟨habsent, rfl⟩ | hnothing) | hlexical⟩)
      · -- among rules there are only collisions of rules
        have hkind := kind_of_mem_globalRuleDefinitions h.mem
        rw [Definition.collision, hkind]
        exact .rules hvalid h
      · exact .entryNotLoaded hvalid hrules habsent
      · obtain ⟨m, hentry, hstart, hempty, rfl⟩ := hnothing
        exact .missingStartRule hvalid hrules hentry hstart hempty
      · obtain ⟨hstart, first, second, h, rfl⟩ := hlexical
        exact .lexicalNames hvalid hrules hstart h
    · intro h
      cases h with
      | unresolved hproblems => exact absurd hvalid hproblems
      | @rules _ first second h =>
        have hkind := kind_of_mem_globalRuleDefinitions h.mem
        refine Or.inl ⟨first, second, h, ?_⟩
        rw [Definition.collision, hkind]
      | entryNotLoaded _ hrules h => exact Or.inr ⟨hrules, Or.inl (Or.inl ⟨h, rfl⟩)⟩
      | missingStartRule _ hrules hentry hstart hempty =>
        exact Or.inr ⟨hrules, Or.inl (Or.inr ⟨_, hentry, hstart, hempty, rfl⟩)⟩
      | lexicalNames _ hrules hstart h =>
        exact Or.inr ⟨hrules, Or.inr ⟨hstart, _, _, h, rfl⟩⟩
  · -- every other failure asks for valid modules
    rw [linkModules_of_invalid hvalid]
    constructor
    · intro h
      cases h
      exact .unresolved hvalid
    · intro h
      cases h with
      | unresolved _ => rfl
      | rules hnone _ | entryNotLoaded hnone _ _ | missingStartRule hnone _ _ _ _
      | lexicalNames hnone _ _ _ => exact absurd hnone hvalid

/-- Whatever is refused, linking fails for one of these reasons or for the first refusal. -/
theorem failure_of_linkModules (h : linkModules helper entry modules refusal = .error e) :
    LinkFailure entry modules (Composition.byPriority modules) e ∨
      modules.findSome? (Module.refused? refusal) = some e := by
  rcases noneRefused_or_exists_refused refusal modules with haccepted | ⟨reason, hrefused⟩
  · exact .inl ((linkModules_eq_error_iff haccepted).mp h)
  · by_cases hvalid : ExportIndex.problems (ExportIndex.ofModules modules) modules = []
    · rw [linkModules_of_refused hvalid hrefused] at h
      cases h
      exact .inr hrefused
    · rw [linkModules_of_invalid hvalid] at h
      cases h
      exact .inl (.unresolved hvalid)

/-- If references to the macros of all modules can be found, linking succeeds exactly if the modules
are linkable, and fails exactly with the failure they have. -/
theorem linkModules_outcome (helper entry : String) {modules : List Module}
    {refusal : MacroReference.Refusal} (haccepted : NoneRefused refusal modules) :
    ((∃ out, linkModules helper entry modules refusal = .ok out) ↔ Linkable entry modules) ∧
      ∃ ordered, PriorityOrder modules ordered ∧
        ∀ e, linkModules helper entry modules refusal = .error e ↔
          LinkFailure entry modules ordered e := by
  refine ⟨exists_linkModules_iff_linkable haccepted, Composition.byPriority modules,
    Composition.byPriority_priorityOrder modules, ?_⟩
  intro e
  exact linkModules_eq_error_iff haccepted

end Failure

theorem collidingMacros_outcome :
    NoneRefused boundedRefusal collidingMacros ∧ ¬ Linkable "main" collidingMacros ∧
      ∃ ordered, PriorityOrder collidingMacros ordered ∧
        LinkFailure "main" collidingMacros ordered
          (.identifierCollision .lexerMacro "main__b__x" "main" "main__b") := by
  have haccepted : NoneRefused boundedRefusal collidingMacros := by decide
  obtain ⟨hsuccess, ordered, hordered, hfailure⟩ := linkModules_outcome "wrap" "main" haccepted
  refine ⟨haccepted, ?_, ordered, hordered, (hfailure _).mp linkModules_collidingMacros⟩
  rw [← hsuccess, linkModules_collidingMacros]
  rintro ⟨out, ⟨⟩⟩

end ModularGrammar
