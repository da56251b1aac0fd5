import Mathlib.Data.List.Forall2
import ModularGrammar.Proofs.Linking
import ModularGrammar.Proofs.Segment

/-!
# The Lexicon of a Link

What the composite lexicon holds, said of the modules that were given: their lexer rules, macros
and start conditions, in the order of the priorities, with global names, and the code that the
actions need.

## Architecture

1. `Module.globalPattern`, `Module.globalMacros`, `Module.globalStartConditions`: what a module
   contributes
2. `lexicalRules_of_linkModules`, `macros_of_linkModules`, `startConditions_of_linkModules`,
   `actionCode_of_linkModules`: the composite lexicon
-/

namespace ModularGrammar

/-! ## Contributions -/

def Module.lexicalRules (m : Module) : List LexicalRule := (m.lexicon.map Lexicon.rules).getD []

/-- A pattern of a module with the global names of the macros that are the module's own. -/
def Module.globalPattern (modules : List Module) (m : Module) (pattern : String) : String :=
  MacroReference.qualify m.macros.keys (linkQualifier modules m.name) pattern

/-- A lexer rule of a module with global names. -/
def Module.globalLexicalRule (modules : List Module) (helper : String) (m : Module)
    (rule : LexicalRule) : LexicalRule :=
  rule.rename (m.renaming modules) helper m.macros.keys

/-- The macros of a module with global names. -/
def Module.globalMacros (modules : List Module) (m : Module) : List (String × String) :=
  m.macros.entries.map fun entry =>
    ((⟨m.name, entry.1⟩ : Referent).globalName modules, m.globalPattern modules entry.2)

/-- The start conditions of a module with global names. -/
def Module.globalStartConditions (modules : List Module) (m : Module) : List (String × UInt8) :=
  m.startConditions.entries.map fun entry =>
    ((⟨m.name, entry.1⟩ : Referent).globalName modules, entry.2)

/-- The code that the actions of a module need. -/
def Module.actionCode (m : Module) : Option String := m.lexicon.bind Lexicon.actionCode

section Contributions

variable (modules : List Module) (helper : String) (m : Module)

theorem lexicalRules_linked : (m.linked modules helper).lexicalRules =
    m.lexicalRules.map (m.globalLexicalRule modules helper) := by
  -- what is linked is the renamed lexicon, and each rule is renamed by itself
  have hrule : m.globalLexicalRule modules helper =
      LexicalRule.rename (m.renaming modules) helper m.macros.keys := rfl
  rw [Module.lexicalRules, Module.lexicalRules, lexicon_linked, hrule, Module.macros]
  cases m.lexicon with
  | none => rfl
  | some l => rfl

theorem macros_linked : (m.linked modules helper).macros.entries = m.globalMacros modules := by
  rw [Module.macros, lexicon_linked]
  simp only [Module.globalMacros, Module.globalPattern, Module.macros]
  cases m.lexicon with
  | none => rfl
  | some l => rfl

theorem startConditions_linked :
    (m.linked modules helper).startConditions.entries = m.globalStartConditions modules := by
  rw [Module.startConditions, lexicon_linked, Module.globalStartConditions, Module.startConditions]
  cases m.lexicon with
  | none => rfl
  | some l => rfl

theorem keys_globalMacros : (m.globalMacros modules).map Prod.fst =
    m.macros.keys.map fun name => (⟨m.name, name⟩ : Referent).globalName modules := by
  simp [Module.globalMacros, Table.keys, Function.comp_def]

theorem keys_globalStartConditions : (m.globalStartConditions modules).map Prod.fst =
    m.startConditions.keys.map fun name => (⟨m.name, name⟩ : Referent).globalName modules := by
  simp [Module.globalStartConditions, Table.keys, Function.comp_def]

theorem actionCode_linked : (m.linked modules helper).actionCode = m.actionCode := by
  rw [Module.actionCode, Module.actionCode, lexicon_linked]
  cases m.lexicon with
  | none => rfl
  | some l => rfl

end Contributions

theorem forall₂_flatMap_map {α β : Type} {f : Module → List α} {g : Module → α → β}
    {R : Module × α → β → Prop} {modules : List Module}
    (h : ∀ m ∈ modules, ∀ a ∈ f m, R (m, a) (g m a)) :
    List.Forall₂ R (modules.flatMap fun m => (f m).map (Prod.mk m))
      (modules.flatMap fun m => (f m).map (g m)) := by
  -- each module contributes as many things as it has, so the lists are related module by module
  induction modules with
  | nil => exact .nil
  | cons m rest ih =>
    have hfirst : List.Forall₂ R ((f m).map (Prod.mk m)) ((f m).map (g m)) := by
      rw [List.forall₂_map_left_iff, List.forall₂_map_right_iff, List.forall₂_same]
      exact h m List.mem_cons_self
    have hrest := ih fun x hx => h x (List.mem_cons_of_mem _ hx)
    rw [List.flatMap_cons, List.flatMap_cons]
    exact List.rel_append hfirst hrest

theorem flatMap_rules_lexicons (modules : List Module) :
    (modules.filterMap Module.lexicon).flatMap Lexicon.rules =
      modules.flatMap Module.lexicalRules := by
  induction modules with
  | nil => rfl
  | cons m rest ih =>
    rw [List.flatMap_cons, Module.lexicalRules]
    cases hlexicon : m.lexicon with
    | none => simp [hlexicon, ih]
    | some l => simp [hlexicon, ih]

/-! ## Code -/

/-- The pieces of code that modules have, without the empty ones. -/
def codePieces (code : Module → Option String) (modules : List Module) : List String :=
  (modules.filterMap code).filter fun piece => piece ≠ ""

theorem joinCode_eq_intercalate (code : Module → Option String) (modules : List Module) :
    Composition.joinCode (modules.map code) = "\n".intercalate (codePieces code modules) := by
  rw [Composition.joinCode, Text.join_eq_intercalate, List.filterMap_map]
  rfl

/-- Behind a piece that is not empty, the pieces of lexicons are those of their modules. -/
theorem joinCode_cons_lexicons {piece : String} (hpiece : piece ≠ "") (modules : List Module) :
    Composition.joinCode (some piece :: (modules.filterMap Module.lexicon).map Lexicon.actionCode) =
      "\n".intercalate (piece :: codePieces Module.actionCode modules) := by
  have hmodules : ((modules.filterMap Module.lexicon).map Lexicon.actionCode).filterMap id =
      modules.filterMap Module.actionCode := by
    rw [List.filterMap_map, List.filterMap_filterMap]
    rfl
  have hpieces : (some piece :: (modules.filterMap Module.lexicon).map
      Lexicon.actionCode).filterMap id = piece :: modules.filterMap Module.actionCode := by
    rw [← hmodules]
    rfl
  rw [Composition.joinCode, Text.join_eq_intercalate, hpieces, codePieces]
  simp [hpiece]

theorem definition_ne_empty (helper : String) : ActionHelper.definition helper ≠ "" :=
  Text.join_ne_empty (by decide) _ _ _

/-! ## The composite lexicon -/

section Output

variable {helper entry : String} {modules : List Module} {refusal : MacroReference.Refusal}
  {out : LinkOutput} (hlinked : linkModules helper entry modules refusal = .ok out)

include hlinked

private theorem mergeLexicons_of_linkModules :
    Composition.mergeLexicons helper
        ((Composition.byPriority modules).map (Module.linked modules helper)) =
      .ok out.grammar.lexicon := by
  have hcompose := (linkModules_eq_ok_iff.mp hlinked).2.1
  obtain ⟨-, -, hlexicon, -⟩ := compose_eq_ok_iff.mp hcompose
  rwa [byPriority_linked] at hlexicon

/-- The composite lexer rules are those of all modules, one module after the other. -/
theorem lexicalRules_of_linkModules : out.grammar.lexicon.rules =
    (Composition.byPriority modules).flatMap fun m =>
      m.lexicalRules.map (m.globalLexicalRule modules helper) := by
  obtain ⟨-, -, hrules, -⟩ :=
    Composition.mergeLexicons_eq_ok_iff.mp (mergeLexicons_of_linkModules hlinked)
  rw [hrules, flatMap_rules_lexicons, List.flatMap_map]
  simp only [lexicalRules_linked]

/-- The composite macros are those of all modules, one module after the other. -/
theorem macros_of_linkModules : out.grammar.lexicon.macros.entries =
    (Composition.byPriority modules).flatMap (Module.globalMacros modules) := by
  obtain ⟨-, -, -, hmacros, -⟩ :=
    Composition.mergeLexicons_eq_ok_iff.mp (mergeLexicons_of_linkModules hlinked)
  rw [hmacros, List.flatMap_map]
  simp only [macros_linked]

/-- The composite start conditions are those of all modules, one module after the other. -/
theorem startConditions_of_linkModules : out.grammar.lexicon.startConditions.entries =
    (Composition.byPriority modules).flatMap (Module.globalStartConditions modules) := by
  obtain ⟨-, -, -, -, hconditions, -⟩ :=
    Composition.mergeLexicons_eq_ok_iff.mp (mergeLexicons_of_linkModules hlinked)
  rw [hconditions, List.flatMap_map]
  simp only [startConditions_linked]

/-- The definition of the helper comes first, and then what the actions of the modules need. -/
theorem actionCode_of_linkModules : out.grammar.lexicon.actionCode =
    "\n".intercalate (ActionHelper.definition helper ::
      codePieces Module.actionCode (Composition.byPriority modules)) := by
  obtain ⟨-, -, -, -, -, hcode⟩ :=
    Composition.mergeLexicons_eq_ok_iff.mp (mergeLexicons_of_linkModules hlinked)
  -- renaming does not touch code
  have hpieces : codePieces Module.actionCode
      ((Composition.byPriority modules).map (Module.linked modules helper)) =
        codePieces Module.actionCode (Composition.byPriority modules) := by
    rw [codePieces, List.filterMap_map]
    simp only [Function.comp_def, actionCode_linked]
    rfl
  rw [hcode, joinCode_cons_lexicons (definition_ne_empty helper), hpieces]

/-- The code that follows the parser is that of the modules. -/
theorem code_of_linkModules : out.grammar.code =
    "\n".intercalate (codePieces (fun m => m.grammar.code) (Composition.byPriority modules)) := by
  have hcompose := (linkModules_eq_ok_iff.mp hlinked).2.1
  obtain ⟨-, -, -, -, hcode⟩ := compose_eq_ok_iff.mp hcompose
  rw [hcode, byPriority_linked, List.map_map, ← joinCode_eq_intercalate]
  rfl

/-- The composite macro table has exactly the global names of macros. -/
theorem mem_macros_keys_of_linkModules {name : String} :
    name ∈ out.grammar.lexicon.macros.keys ↔
      ∃ m ∈ modules, ∃ own ∈ m.macros.keys,
        name = (⟨m.name, own⟩ : Referent).globalName modules := by
  have hperm := perm_globalNames (macros_of_linkModules hlinked) (keys_globalMacros modules)
  simp only [hperm.mem_iff, globalNames, List.mem_flatMap, List.mem_map, eq_comm]

/-- Under the global name of a macro stands its body with global names. -/
theorem get?_macros_of_linkModules {m : Module} (hm : m ∈ modules) {own body : String}
    (hown : m.macros.get? own = some body) :
    out.grammar.lexicon.macros.get? ((⟨m.name, own⟩ : Referent).globalName modules) =
      some (m.globalPattern modules body) := by
  -- a table has one entry for each name, so it is enough that the entry is there
  rw [Table.get?_eq_some_iff, macros_of_linkModules hlinked, List.mem_flatMap]
  refine ⟨m, Composition.mem_byPriority.mpr hm, ?_⟩
  exact List.mem_map.mpr ⟨(own, body), Table.get?_eq_some_iff.mp hown, rfl⟩

/-- Under the global name of a start condition stands its flag. -/
theorem get?_startConditions_of_linkModules {m : Module} (hm : m ∈ modules) {own : String}
    {flag : UInt8} (hown : m.startConditions.get? own = some flag) :
    out.grammar.lexicon.startConditions.get? ((⟨m.name, own⟩ : Referent).globalName modules) =
      some flag := by
  rw [Table.get?_eq_some_iff, startConditions_of_linkModules hlinked, List.mem_flatMap]
  refine ⟨m, Composition.mem_byPriority.mpr hm, ?_⟩
  exact List.mem_map.mpr ⟨(own, flag), Table.get?_eq_some_iff.mp hown, rfl⟩

end Output

end ModularGrammar
