import ModularGrammar.Composition
import ModularGrammar.Proofs.Table

/-!
# Merging Loses Nothing

Definitions of several modules are merged exactly if no name is defined twice, and then the merged
table is the concatenation of the modules' tables.

## Architecture

1. `add_eq_ok_iff`, `addAll_eq_ok_iff`: one definition, the definitions of one module
2. `foldlM_addAll_eq_ok_iff`: the definitions of a list of modules
3. `mergeRules_eq_ok_iff`, `mergeLexicons_eq_ok_iff`: rules, macros and start conditions
-/

namespace ModularGrammar

/-- A computation succeeds if its first step does and what follows succeeds with the result. -/
theorem except_bind_eq_ok {ε α β : Type} {x : Except ε α} {f : α → Except ε β} {b : β} :
    (x >>= f) = .ok b ↔ ∃ a, x = .ok a ∧ f a = .ok b := by
  cases x with
  | error e => simp [bind, Except.bind]
  | ok a => simp [bind, Except.bind]

/-- A computation fails if its first step does, or if what follows does. -/
theorem except_bind_eq_error {ε α β : Type} {x : Except ε α} {f : α → Except ε β} {e : ε} :
    (x >>= f) = .error e ↔ x = .error e ∨ ∃ a, x = .ok a ∧ f a = .error e := by
  cases x with
  | error e' => simp [bind, Except.bind]
  | ok a => simp [bind, Except.bind]

/-- What is made of a result fails as the result does. -/
theorem except_map_eq_error {ε α β : Type} {x : Except ε α} {f : α → β} {e : ε} :
    x.map f = .error e ↔ x = .error e := by
  cases x with
  | error e' => simp [Except.map]
  | ok a => simp [Except.map]

/-- What is made of a result is there if the result is. -/
theorem except_map_eq_ok {ε α β : Type} {x : Except ε α} {f : α → β} {b : β} :
    x.map f = .ok b ↔ ∃ a, x = .ok a ∧ f a = b := by
  cases x with
  | error e => simp [Except.map]
  | ok a => simp [Except.map]

/-! ## One module -/

namespace OwnedTable

variable {α : Type} {kind : NameKind} {owner : String} {t t' : OwnedTable α}

theorem add_eq_ok_iff {name : String} {value : α} :
    add kind owner t (name, value) = .ok t' ↔
      name ∉ t.keys ∧ t'.entries = t.entries ++ [(name, owner, value)] := by
  rw [add]
  cases hget : t.get? name with
  | some first =>
    have hmem : name ∈ t.keys := Table.mem_keys_of_get? hget
    simp [hmem]
  | none =>
    have hnew : name ∉ t.keys := Table.get?_eq_none_iff.mp hget
    have hinsert := Table.entries_insert_of_notMem (owner, value) hnew
    constructor
    · intro h
      cases h
      exact ⟨hnew, hinsert⟩
    · rintro ⟨-, hentries⟩
      -- a table is known from its entries
      rw [Table.ext_entries (hinsert.trans hentries.symm)]

private theorem foldlM_add_eq_ok_iff {l : List (String × α)} :
    l.foldlM (add kind owner) t = .ok t' ↔
      (t.keys ++ l.map Prod.fst).Nodup ∧
        t'.entries = t.entries ++ l.map fun e => (e.1, owner, e.2) := by
  induction l generalizing t with
  | nil =>
    have hnodup : (t.keys ++ []).Nodup := by
      rw [List.append_nil]
      exact t.nodup
    constructor
    · intro h
      cases h
      exact ⟨hnodup, (List.append_nil _).symm⟩
    · rintro ⟨-, hentries⟩
      rw [List.map_nil, List.append_nil] at hentries
      rw [Table.ext_entries hentries]
      rfl
  | cons e rest ih =>
    obtain ⟨name, value⟩ := e
    rw [List.foldlM_cons, except_bind_eq_ok]
    constructor
    · rintro ⟨s, hadd, hrest⟩
      -- `s` is the table with the first definition as well
      obtain ⟨-, hs⟩ := add_eq_ok_iff.mp hadd
      obtain ⟨hnodup, hentries⟩ := ih.mp hrest
      simp only [Table.keys, hs, List.map_append, List.append_assoc] at hnodup
      rw [hs, List.append_assoc] at hentries
      exact ⟨hnodup, hentries⟩
    · rintro ⟨hnodup, hentries⟩
      have hnew : name ∉ t.keys := fun hmem =>
        (List.nodup_append.mp hnodup).2.2 name hmem name (List.mem_cons_self ..) rfl
      have hs := Table.entries_insert_of_notMem (owner, value) hnew
      refine ⟨t.insert name (owner, value), add_eq_ok_iff.mpr ⟨hnew, hs⟩, ih.mpr ⟨?_, ?_⟩⟩
      · simpa [Table.keys, hs] using hnodup
      · rw [hs, hentries, List.append_assoc]
        rfl

/-- The definitions of a module are added exactly if their names are new, and they go last. -/
theorem addAll_eq_ok_iff {entries : Table α} :
    addAll kind owner t entries = .ok t' ↔
      (t.keys ++ entries.keys).Nodup ∧
        t'.entries = t.entries ++ entries.entries.map fun e => (e.1, owner, e.2) :=
  foldlM_add_eq_ok_iff

/-! ## A list of modules -/

/-- The definitions of some modules, each with the module it comes from. -/
def owned (f : Module → Table α) (modules : List Module) : List (String × String × α) :=
  modules.flatMap fun m => (f m).entries.map fun e => (e.1, m.name, e.2)

theorem owned_cons (f : Module → Table α) (m : Module) (rest : List Module) :
    owned f (m :: rest) = ((f m).entries.map fun e => (e.1, m.name, e.2)) ++ owned f rest :=
  rfl

theorem owned_keys (f : Module → Table α) (modules : List Module) :
    (owned f modules).map Prod.fst = modules.flatMap fun m => (f m).keys := by
  simp [owned, List.map_flatMap, Table.keys, Function.comp_def]

/-- The definitions of some modules are merged exactly if no name comes twice, and the result has
them in the order of the modules. -/
theorem foldlM_addAll_eq_ok_iff (f : Module → Table α) {modules : List Module} :
    modules.foldlM (fun t m => addAll kind m.name t (f m)) t = .ok t' ↔
      (t.keys ++ modules.flatMap fun m => (f m).keys).Nodup ∧
        t'.entries = t.entries ++ owned f modules := by
  induction modules generalizing t with
  | nil =>
    -- no module is left, as after a module without definitions
    exact @foldlM_add_eq_ok_iff α kind "" t t' []
  | cons m rest ih =>
    rw [List.foldlM_cons, except_bind_eq_ok]
    constructor
    · rintro ⟨s, hadd, hrest⟩
      obtain ⟨-, hs⟩ := addAll_eq_ok_iff.mp hadd
      obtain ⟨hnodup, hentries⟩ := ih.mp hrest
      have hkeys : s.keys = t.keys ++ (f m).keys := by
        simp [Table.keys, hs, Function.comp_def]
      rw [hkeys, List.append_assoc] at hnodup
      rw [hs, List.append_assoc] at hentries
      exact ⟨hnodup, hentries⟩
    · rintro ⟨hnodup, hentries⟩
      rw [List.flatMap_cons, ← List.append_assoc] at hnodup
      -- the table with this module's definitions as well
      have hfront := (List.nodup_append.mp hnodup).1
      have hpairs : ((t.entries ++ (f m).entries.map fun e => (e.1, m.name, e.2)).map
          Prod.fst) = t.keys ++ (f m).keys := by
        simp [Table.keys, Function.comp_def]
      refine ⟨⟨_, hpairs ▸ hfront⟩, addAll_eq_ok_iff.mpr ⟨hfront, rfl⟩, ih.mpr ⟨?_, ?_⟩⟩
      · rw [Table.keys, hpairs]
        exact hnodup
      · rw [hentries, owned_cons, List.append_assoc]

end OwnedTable

namespace Composition

/-! ## Rules -/

private theorem entries_definitions {α : Type} (f : Module → Table α) {modules : List Module}
    {t : OwnedTable α} (h : t.entries = OwnedTable.owned f modules) :
    t.definitions.entries = modules.flatMap fun m => (f m).entries := by
  simp [OwnedTable.definitions, Table.mapValues, h, OwnedTable.owned, List.map_flatMap,
    Function.comp_def]

theorem mergeRules_eq_ok_iff {modules : List Module} {rules : RuleTable} :
    mergeRules modules = .ok rules ↔
      (modules.flatMap fun m => m.grammar.rules.keys).Nodup ∧
        rules.entries = modules.flatMap fun m => m.grammar.rules.entries := by
  rw [mergeRules, except_bind_eq_ok]
  constructor
  · rintro ⟨t, hfold, hrules⟩
    obtain ⟨hnodup, hentries⟩ :=
      (OwnedTable.foldlM_addAll_eq_ok_iff fun m => m.grammar.rules).mp hfold
    cases hrules
    exact ⟨hnodup, entries_definitions _ hentries⟩
  · rintro ⟨hnodup, hentries⟩
    -- the table of owners that the fold comes to is built outright
    have hpairs := OwnedTable.owned_keys (fun m : Module => m.grammar.rules) modules
    refine ⟨⟨OwnedTable.owned (fun m => m.grammar.rules) modules, hpairs ▸ hnodup⟩, ?_, ?_⟩
    · exact (OwnedTable.foldlM_addAll_eq_ok_iff fun m => m.grammar.rules).mpr ⟨hnodup, rfl⟩
    · exact congrArg Except.ok
        (Table.ext_entries ((entries_definitions _ rfl).trans hentries.symm))

private theorem keys_of_entries {α : Type} (f : Module → Table α) (modules : List Module) :
    (modules.flatMap fun m => (f m).entries).map Prod.fst =
      modules.flatMap fun m => (f m).keys := by
  simp [List.map_flatMap, Table.keys]

theorem exists_mergeRules {modules : List Module}
    (h : (modules.flatMap fun m => m.grammar.rules.keys).Nodup) :
    ∃ rules, mergeRules modules = .ok rules := by
  have hkeys := keys_of_entries (fun m => m.grammar.rules) modules
  exact ⟨⟨_, hkeys ▸ h⟩, mergeRules_eq_ok_iff.mpr ⟨h, rfl⟩⟩

end Composition

/-! ## Macros and start conditions -/

def Module.macros (m : Module) : Table String := (m.lexicon.map Lexicon.macros).getD .empty

def Module.startConditions (m : Module) : Table UInt8 :=
  (m.lexicon.map Lexicon.startConditions).getD .empty

namespace Composition

theorem lexicalNames_add_eq_ok_iff {names names' : LexicalNames} {m : Module} :
    names.add m = .ok names' ↔
      names.macros.addAll .lexerMacro m.name m.macros = .ok names'.macros ∧
        names.startConditions.addAll .startCondition m.name m.startConditions =
          .ok names'.startConditions := by
  obtain ⟨macros', conditions'⟩ := names'
  rw [LexicalNames.add, Module.macros, Module.startConditions]
  cases m.lexicon with
  | none =>
    -- without a lexicon both tables of definitions are empty
    show Except.ok names = Except.ok ⟨macros', conditions'⟩ ↔
      Except.ok names.macros = Except.ok macros' ∧
        Except.ok names.startConditions = Except.ok conditions'
    obtain ⟨macros, conditions⟩ := names
    simp
  | some l =>
    simp only [Option.map_some, Option.getD_some, except_bind_eq_ok]
    constructor
    · intro h
      obtain ⟨macros, hmacros, conditions, hconditions, hnames⟩ := h
      cases hnames
      exact ⟨hmacros, hconditions⟩
    · intro h
      exact ⟨macros', h.1, conditions', h.2, rfl⟩

/-- The two tables are filled independently, and both have to succeed. -/
theorem foldlM_lexicalNames_eq_ok_iff {modules : List Module} {names names' : LexicalNames} :
    modules.foldlM LexicalNames.add names = .ok names' ↔
      modules.foldlM (fun t m => t.addAll .lexerMacro m.name m.macros) names.macros =
          .ok names'.macros ∧
        modules.foldlM (fun t m => t.addAll .startCondition m.name m.startConditions)
          names.startConditions = .ok names'.startConditions := by
  induction modules generalizing names with
  | nil =>
    obtain ⟨macros, conditions⟩ := names
    obtain ⟨macros', conditions'⟩ := names'
    simp [pure, Except.pure]
  | cons m rest ih =>
    -- the two tables grow side by side and do not look at each other
    simp only [List.foldlM_cons, except_bind_eq_ok]
    constructor
    · intro h
      obtain ⟨next, hadd, hrest⟩ := h
      have hm := lexicalNames_add_eq_ok_iff.mp hadd
      have hothers := ih.mp hrest
      exact ⟨⟨next.macros, hm.1, hothers.1⟩, ⟨next.startConditions, hm.2, hothers.2⟩⟩
    · intro h
      obtain ⟨⟨macros, hmacros, hothers⟩, ⟨conditions, hconditions, hothers'⟩⟩ := h
      exact ⟨⟨macros, conditions⟩, lexicalNames_add_eq_ok_iff.mpr ⟨hmacros, hconditions⟩,
        ih.mpr ⟨hothers, hothers'⟩⟩

/-- Lexicons are merged exactly if no macro and no start condition is defined twice. -/
theorem mergeLexicons_eq_ok_iff {helper : String} {modules : List Module}
    {lexicon : CompositeLexicon} :
    mergeLexicons helper modules = .ok lexicon ↔
      (modules.flatMap fun m => m.macros.keys).Nodup ∧
      (modules.flatMap fun m => m.startConditions.keys).Nodup ∧
      lexicon.rules = (modules.filterMap Module.lexicon).flatMap Lexicon.rules ∧
      (lexicon.macros.entries = modules.flatMap fun m => m.macros.entries) ∧
      (lexicon.startConditions.entries = modules.flatMap fun m => m.startConditions.entries) ∧
      lexicon.actionCode = joinCode (some (ActionHelper.definition helper) ::
        (modules.filterMap Module.lexicon).map Lexicon.actionCode) := by
  rw [mergeLexicons, except_bind_eq_ok]
  constructor
  · intro h
    obtain ⟨names, hfold, hlexicon⟩ := h
    obtain ⟨hmacros, hconditions⟩ := foldlM_lexicalNames_eq_ok_iff.mp hfold
    obtain ⟨hmnodup, hmentries⟩ := (OwnedTable.foldlM_addAll_eq_ok_iff Module.macros).mp hmacros
    obtain ⟨hcnodup, hcentries⟩ :=
      (OwnedTable.foldlM_addAll_eq_ok_iff Module.startConditions).mp hconditions
    cases hlexicon
    exact ⟨hmnodup, hcnodup, rfl, entries_definitions _ hmentries,
      entries_definitions _ hcentries, rfl⟩
  · intro h
    obtain ⟨hmnodup, hcnodup, hrules, hmacros, hconditions, hcode⟩ := h
    have hmkeys := OwnedTable.owned_keys Module.macros modules
    have hckeys := OwnedTable.owned_keys Module.startConditions modules
    -- the names with their owners, from which the tables of the lexicon come
    let names : LexicalNames :=
      ⟨⟨OwnedTable.owned Module.macros modules, hmkeys ▸ hmnodup⟩,
        ⟨OwnedTable.owned Module.startConditions modules, hckeys ▸ hcnodup⟩⟩
    refine ⟨names, foldlM_lexicalNames_eq_ok_iff.mpr ⟨?_, ?_⟩, ?_⟩
    · exact (OwnedTable.foldlM_addAll_eq_ok_iff Module.macros).mpr ⟨hmnodup, rfl⟩
    · exact (OwnedTable.foldlM_addAll_eq_ok_iff Module.startConditions).mpr ⟨hcnodup, rfl⟩
    · obtain ⟨rules, macros, conditions, code⟩ := lexicon
      have hm : names.macros.definitions = macros :=
        Table.ext_entries ((entries_definitions Module.macros rfl).trans hmacros.symm)
      have hc : names.startConditions.definitions = conditions :=
        Table.ext_entries ((entries_definitions Module.startConditions rfl).trans
          hconditions.symm)
      simp only at hrules hcode
      simp [hm, hc, hrules, hcode, pure, Except.pure]

theorem exists_mergeLexicons (helper : String) {modules : List Module}
    (hmacros : (modules.flatMap fun m => m.macros.keys).Nodup)
    (hconditions : (modules.flatMap fun m => m.startConditions.keys).Nodup) :
    ∃ lexicon, mergeLexicons helper modules = .ok lexicon := by
  have hmkeys := keys_of_entries Module.macros modules
  have hckeys := keys_of_entries Module.startConditions modules
  exact ⟨⟨_, ⟨_, hmkeys ▸ hmacros⟩, ⟨_, hckeys ▸ hconditions⟩, _⟩,
    mergeLexicons_eq_ok_iff.mpr ⟨hmacros, hconditions, rfl, rfl, rfl, rfl⟩⟩

end Composition

end ModularGrammar
