import ModularGrammar.Proofs.MacroPattern
import ModularGrammar.Proofs.Merging
import ModularGrammar.Proofs.Renaming

/-!
# Renaming In Place

A module is renamed in place, part by part, while others ask the same naming for qualifiers.  All
that can fail comes before the first part is overwritten, so a module whose renaming fails is what
it was, and renaming never takes a qualifier away.

## Architecture

1. `Naming.Extends`: namings that have only grown
2. `InPlace`, `Action`: a module under way, and what is done to it
3. `Action.rename`: renaming in place, in the order in which things happen
4. `perform_rename`, `perform_rename_refusing`: what comes of it is what comes of `Module.rename`
5. `Offers`, `importedNames_cases`: when it fails, and with which error
6. `Module.outline`: what renaming does not touch
7. `rename_cleanly`: all of it together
-/

namespace ModularGrammar

/-! ## Namings that have grown -/

/-- A naming that knows what another one knows. -/
structure Naming.Extends (after before : Naming) : Prop where
  assigned : ∀ {path q : String},
    before.assigned.get? path = some q → after.assigned.get? path = some q
  owners : ∀ {q path : String}, before.owners.get? q = some path → after.owners.get? q = some path

namespace Naming

variable {before naming after : Naming}

theorem Extends.refl (naming : Naming) : naming.Extends naming where
  assigned := id
  owners := id

theorem Extends.trans (h : after.Extends naming) (h' : naming.Extends before) :
    after.Extends before where
  assigned := fun hpath => h.assigned (h'.assigned hpath)
  owners := fun hq => h.owners (h'.owners hq)

/-- A naming grows when it is asked for a qualifier. -/
theorem extends_qualifierFor (naming : Naming) (path : String) :
    (naming.qualifierFor path).2.Extends naming where
  assigned := get?_qualifierFor_of_get? path
  owners := by
    intro q other h
    rw [qualifierFor]
    split
    · exact h
    · -- the qualifier given now is one that nobody owns
      have hne : q ≠ firstFree (stem path) naming.owners.keys 0 := by
        rintro rfl
        rw [get?_owners_firstFree] at h
        cases h
      simp [Table.get?_insert, hne, h]

end Naming

/-! ## Actions -/

/-- A module that is being renamed, and the qualifiers given so far. -/
structure InPlace where
  module : Module
  naming : Naming

namespace InPlace

/-- What is done to a module in place; it may fail halfway. -/
abbrev Action := ExceptT LinkError (StateM InPlace)

namespace Action

variable {α β : Type}

/-- The outcome of an action, and the state it leaves behind in any case. -/
def perform (x : Action α) (s : InPlace) : Except LinkError α × InPlace := x.run.run s

theorem perform_pure (a : α) (s : InPlace) : (pure a : Action α).perform s = (.ok a, s) := rfl

theorem perform_throw (e : LinkError) (s : InPlace) :
    (throw e : Action α).perform s = (.error e, s) := rfl

theorem perform_get (s : InPlace) : (get : Action InPlace).perform s = (.ok s, s) := rfl

/-- One action after the other, unless the first one fails. -/
theorem perform_bind (x : Action α) (f : α → Action β) (s : InPlace) :
    (x >>= f).perform s =
      match x.perform s with
      | (.ok a, s') => (f a).perform s'
      | (.error e, s') => (.error e, s') := by
  simp only [perform, ExceptT.run_bind, StateT.run_bind]
  rcases x.run.run s with ⟨e | a, s'⟩
  · rfl
  · rfl

/-! ## Renaming -/

/-- Asking for a qualifier. -/
def ask (path : String) : Action String := do
  let (qualifier, naming) := (← get).naming.qualifierFor path
  modify fun s => { s with naming }
  return qualifier

def overwrite (f : Module → Module) : Action Unit := modify fun s => { s with module := f s.module }

/-- The global names of what some imports bind, one after the other. -/
def importedNames (index : ExportIndex) (importer : String) :
    List Import → Action (List (String × String))
  | [] => return []
  | i :: rest =>
    match index.find? i with
    | none => throw (.internal (.unvalidatedImport i importer))
    | some e => do
      let qualifier ← ask i.origin
      let names ← importedNames index importer rest
      return (i.localName, qualifier ++ e.localName) :: names

def overwriteLexicon (f : Lexicon → Lexicon) : Action Unit :=
  overwrite fun m => { m with lexicon := m.lexicon.map f }

/-- Renaming the lexicon.  The expression for references to macros is compiled while the macros
still have their names; `refused` is what is reported if the library does not compile it. -/
def renameLexicon (library : RegexLibrary) (refused : LinkError) (r : Renaming) (helper : String)
    (l : Lexicon) : Action Unit :=
  match MacroReference.rewriter? library l.macros.keys r.qualifier with
  | none => throw refused
  | some rewrite => do
    overwriteLexicon fun l => { l with rules := l.rules.map fun rule =>
      ⟨rule.conditions.map (List.map r.condition), rewrite rule.pattern,
        ActionHelper.call helper r.qualifier rule.action⟩ }
    overwriteLexicon fun l => { l with macros := l.macros.qualify r.qualifier rewrite }
    overwriteLexicon fun l => { l with startConditions := l.startConditions.qualify r.qualifier id }

/-- Renaming what uses the names of rules and tokens. -/
def renameGrammar (r : Renaming) : Action Unit := do
  overwrite fun m => { m with precedence := m.precedence.map (Precedence.rename r) }
  overwrite fun m => { m with grammar := { m.grammar with rules := m.grammar.rules.rename r } }
  overwrite fun m => { m with grammar := { m.grammar with start := m.grammar.start.map r.symbol } }

/-- Renaming a module in place. -/
def rename (library : RegexLibrary) (refused : LinkError) (helper : String)
    (index : ExportIndex) : Action Unit := do
  let m := (← get).module
  let qualifier ← ask m.name
  let names ← importedNames index m.name m.boundImports
  let r : Renaming := ⟨qualifier, .ofList names⟩
  match m.lexicon with
  | none => renameGrammar r
  | some l => do
    renameLexicon library refused r helper l
    renameGrammar r

/-! ## What comes of it -/

theorem perform_ask (path : String) (m : Module) (naming : Naming) :
    (ask path).perform ⟨m, naming⟩ =
      (.ok (naming.qualifierFor path).1, ⟨m, (naming.qualifierFor path).2⟩) := rfl

theorem perform_overwrite (f : Module → Module) (m : Module) (naming : Naming) :
    (overwrite f).perform ⟨m, naming⟩ = (.ok (), ⟨f m, naming⟩) := rfl

/-- Imports are looked up without touching the module. -/
theorem perform_importedNames (index : ExportIndex) (importer : String) (imports : List Import)
    (m : Module) (naming : Naming) :
    (importedNames index importer imports).perform ⟨m, naming⟩ =
      ((Renaming.importedNames index importer imports naming).1,
        ⟨m, (Renaming.importedNames index importer imports naming).2⟩) := by
  induction imports generalizing naming with
  | nil => exact perform_pure [] ⟨m, naming⟩
  | cons i rest ih =>
    rw [importedNames, Renaming.importedNames]
    cases index.find? i with
    | none => exact perform_throw _ ⟨m, naming⟩
    | some e =>
      simp only [perform_bind, perform_ask, ih]
      cases (Renaming.importedNames index importer rest (naming.qualifierFor i.origin).2).1 with
      | error e => rfl
      | ok names => exact perform_pure _ _

theorem perform_renameGrammar (r : Renaming) (m : Module) (naming : Naming) :
    (renameGrammar r).perform ⟨m, naming⟩ = (.ok (), ⟨{ m with
      grammar := m.grammar.rename r
      precedence := m.precedence.map (Precedence.rename r) }, naming⟩) := by
  simp only [renameGrammar, perform_bind, perform_overwrite]
  rfl

/-- The lexicon is renamed in three steps, if references to its macros can be found. -/
theorem perform_renameLexicon {library : RegexLibrary} (hlibrary : library.Documented)
    (refused : LinkError) (r : Renaming) (helper : String) {l : Lexicon}
    (hcompiles : l.macros.keys ≠ [] →
      (library.compile (MacroReference.pattern library l.macros.keys)).isSome)
    {m : Module} (hlexicon : m.lexicon = some l) (naming : Naming) :
    (renameLexicon library refused r helper l).perform ⟨m, naming⟩ =
      (.ok (), ⟨{ m with lexicon := some (l.renamed r helper) }, naming⟩) := by
  rw [renameLexicon, MacroReference.rewriter?_eq hlibrary hcompiles]
  -- the names of the macros were taken down before the second step changes them
  simp only [overwriteLexicon, perform_bind, perform_overwrite, hlexicon, Option.map_some]
  rfl

/-- Otherwise none of the steps is taken. -/
theorem perform_renameLexicon_of_refused {library : RegexLibrary} (refused : LinkError)
    (r : Renaming) (helper : String) {l : Lexicon} (hne : l.macros.keys ≠ [])
    (hrefused : library.compile (MacroReference.pattern library l.macros.keys) = none)
    (s : InPlace) :
    (renameLexicon library refused r helper l).perform s = (.error refused, s) := by
  have hnone : MacroReference.rewriter? library l.macros.keys r.qualifier = none := by
    rw [MacroReference.rewriter?, if_neg (by simpa using hne), hrefused]
    rfl
  rw [renameLexicon, hnone]
  exact perform_throw refused s

/-- How an action ends that overwrites the module, or fails and leaves it as it was. -/
def ended (m : Module) (naming : Naming) : Except LinkError Module → Except LinkError Unit × InPlace
  | .ok renamed => (.ok (), ⟨renamed, naming⟩)
  | .error e => (.error e, ⟨m, naming⟩)

variable {library : RegexLibrary} {refused : LinkError} {refusal : MacroReference.Refusal}
  {helper : String} {index : ExportIndex} {m : Module}

-- The lexicon is the last that can fail, and nothing has been overwritten before it.
private theorem perform_rename_of_renameLexicon
    (hlexicon : ∀ l, m.lexicon = some l → ∀ r naming,
      (renameLexicon library refused r helper l).perform ⟨m, naming⟩ =
        ended m naming ((l.rename refusal r helper).map fun l => { m with lexicon := some l }))
    (naming : Naming) :
    (rename library refused helper index).perform ⟨m, naming⟩ =
      ended m (m.rename helper index naming refusal).2
        (m.rename helper index naming refusal).1 := by
  rw [rename, Module.rename, Renaming.ofModule]
  simp only [perform_bind, perform_get, perform_ask, perform_importedNames]
  -- looking up the imports goes first, and nothing has been overwritten if it fails
  cases (Renaming.importedNames index m.name m.boundImports (naming.qualifierFor m.name).2).1 with
  | error e => rfl
  | ok names =>
    cases hl : m.lexicon with
    | none =>
      simp only [perform_renameGrammar, Except.map, Except.bind, Module.renameBy, hl]
      rfl
    | some l =>
      simp only [perform_bind, hlexicon l hl, Except.map, Except.bind, Module.renameBy, hl,
        Option.mapM_some]
      -- whatever becomes of the lexicon, the grammar is renamed last
      cases l.rename refusal _ helper with
      | error e => rfl
      | ok l => exact perform_renameGrammar _ _ _

end Action

end InPlace

/-- The expression for references to the macros of the module can be compiled, if one is needed. -/
def Module.MacrosCompile (library : RegexLibrary) (m : Module) : Prop :=
  ∀ l, m.lexicon = some l → l.macros.keys ≠ [] →
    (library.compile (MacroReference.pattern library l.macros.keys)).isSome

/-- What a library refuses to compile, with what it says about it. -/
def RegexLibrary.refusal (library : RegexLibrary) (reason : String) : MacroReference.Refusal :=
  fun names =>
    if (library.compile (MacroReference.pattern library names)).isSome then none else some reason

namespace InPlace.Action

variable {library : RegexLibrary} (hlibrary : library.Documented) (helper : String)
  (index : ExportIndex) {m : Module}

include hlibrary

/-- Renaming in place leaves the renamed module behind, or the module as it was. -/
theorem perform_rename (refused : LinkError) (hcompile : m.MacrosCompile library)
    (naming : Naming) :
    (rename library refused helper index).perform ⟨m, naming⟩ =
      ended m (m.rename helper index naming).2 (m.rename helper index naming).1 := by
  apply perform_rename_of_renameLexicon
  intro l hl r naming
  rw [perform_renameLexicon hlibrary refused r helper (hcompile l hl) hl]
  have haccepted : l.refused? MacroReference.Refusal.never = none := ite_self none
  rw [Lexicon.rename, haccepted]
  rfl

/-- Renaming in place ends as renaming does also if the library refuses an expression. -/
theorem perform_rename_refusing (reason : String) (m : Module) (naming : Naming) :
    (rename library (.internal (.refusedPattern reason)) helper index).perform ⟨m, naming⟩ =
      ended m (m.rename helper index naming (library.refusal reason)).2
        (m.rename helper index naming (library.refusal reason)).1 := by
  apply perform_rename_of_renameLexicon
  intro l hl r naming
  -- the library refuses exactly what cannot be compiled and has macros to compile
  by_cases hcompiles : l.macros.keys ≠ [] →
      (library.compile (MacroReference.pattern library l.macros.keys)).isSome
  · have haccepted : l.refused? (library.refusal reason) = none := by
      simp only [Lexicon.refused?, RegexLibrary.refusal]
      grind
    rw [perform_renameLexicon hlibrary _ r helper hcompiles hl, Lexicon.rename, haccepted]
    rfl
  · obtain ⟨hne, hnone⟩ := Classical.not_imp.mp hcompiles
    have hrefused : l.refused? (library.refusal reason) =
        some (.internal (.refusedPattern reason)) := by
      simp [Lexicon.refused?, RegexLibrary.refusal, hne, hnone]
    rw [perform_renameLexicon_of_refused _ r helper hne (by simpa using hnone), Lexicon.rename,
      hrefused]
    rfl

end InPlace.Action

/-! ## Failure -/

/-- A module exports what the import asks for, and of the same kind. -/
def ExportIndex.Offers (index : ExportIndex) (i : Import) : Prop :=
  ∃ exports e, index.get? i.origin = some exports ∧ exports.get? i.publicName = some e ∧
    e.lexical = i.lexical

theorem ExportIndex.isSome_find?_iff {index : ExportIndex} {i : Import} :
    (index.find? i).isSome ↔ index.Offers i := by
  constructor
  · intro h
    obtain ⟨e, he⟩ := Option.isSome_iff_exists.mp h
    obtain ⟨exports, hexports, h⟩ := Option.bind_eq_some_iff.mp he
    obtain ⟨e', he', h⟩ := Option.bind_eq_some_iff.mp h
    split at h
    · next hlexical => exact ⟨exports, e', hexports, he', hlexical⟩
    · cases h
  · rintro ⟨exports, e, hexports, he, hlexical⟩
    simp [find?, hexports, he, hlexical]

namespace Renaming

variable {index : ExportIndex} {importer : String} {imports : List Import} {naming : Naming}

/-- What imports bind is not found out if some import has no export, and the first such import is
reported. -/
theorem importedNames_eq_error_iff {e : LinkError} :
    (importedNames index importer imports naming).1 = .error e ↔
      ∃ i, imports.find? (fun i => (index.find? i).isNone) = some i ∧
        e = .internal (.unvalidatedImport i importer) := by
  induction imports generalizing naming with
  | nil => simp [importedNames]
  | cons i rest ih =>
    rw [importedNames]
    cases hfind : index.find? i with
    | none => simp [hfind, eq_comm]
    | some found =>
      -- the import is passed over, and the rest decides
      simp only [except_map_eq_error, ih, List.find?_cons, hfind, Option.isNone_some]

/-- Asking for the qualifiers of imports lets the naming grow, also if an import has no export. -/
theorem extends_importedNames :
    (importedNames index importer imports naming).2.Extends naming := by
  induction imports generalizing naming with
  | nil => exact .refl naming
  | cons i rest ih =>
    rw [importedNames]
    cases index.find? i with
    | none => exact .refl naming
    | some e => exact ih.trans (naming.extends_qualifierFor i.origin)

end Renaming

namespace Module

variable {index : ExportIndex} {m : Module} {naming : Naming} {helper : String}

/-- Renaming a module fails with the error of its imports. -/
theorem rename_eq_error_iff {e : LinkError} : (m.rename helper index naming).1 = .error e ↔
    ∃ i, m.boundImports.find? (fun i => (index.find? i).isNone) = some i ∧
      e = .internal (.unvalidatedImport i m.name) := by
  -- nothing is refused, so what is left to fail is the renaming itself
  have hrename : (m.rename helper index naming).1 = .error e ↔
      (Renaming.ofModule index m naming).1 = .error e := by
    rw [rename]
    rcases Renaming.ofModule index m naming with ⟨e' | r, after⟩
    · simp [Except.bind]
    · simp [Except.bind, renameBy_eq r helper m.refused?_never]
  rw [hrename, Renaming.ofModule]
  simp only [except_map_eq_error, Renaming.importedNames_eq_error_iff]

/-- It fails if some import that binds a name has no export of its kind. -/
theorem exists_rename_error_iff : (∃ e, (m.rename helper index naming).1 = .error e) ↔
    ∃ i ∈ m.boundImports, ¬ index.Offers i := by
  have hfound : (∃ e, (m.rename helper index naming).1 = .error e) ↔
      (m.boundImports.find? fun i => (index.find? i).isNone).isSome := by
    simp only [rename_eq_error_iff, Option.isSome_iff_exists]
    constructor
    · rintro ⟨e, i, hi, -⟩
      exact ⟨i, hi⟩
    · rintro ⟨i, hi⟩
      exact ⟨_, i, hi, rfl⟩
  rw [hfound, List.find?_isSome]
  simp only [← ExportIndex.isSome_find?_iff, Option.not_isSome_iff_eq_none,
    Option.isNone_iff_eq_none]

/-- The error is about the first such import. -/
theorem first_of_rename_error {e : LinkError} (h : (m.rename helper index naming).1 = .error e) :
    ∃ before i after, m.boundImports = before ++ i :: after ∧
      (∀ other ∈ before, index.Offers other) ∧ ¬ index.Offers i ∧
        e = .internal (.unvalidatedImport i m.name) := by
  obtain ⟨i, hfind, he⟩ := rename_eq_error_iff.mp h
  obtain ⟨hnone, before, after, himports, hbefore⟩ := List.find?_eq_some_iff_append.mp hfind
  refine ⟨before, i, after, himports, ?_, ?_, he⟩
  · intro other hother
    rw [← ExportIndex.isSome_find?_iff]
    simpa using hbefore other hother
  · rw [← ExportIndex.isSome_find?_iff]
    simpa using hnone

theorem message_unvalidatedImport (i : Import) (importer : String) :
    (LinkError.internal (.unvalidatedImport i importer)).message =
      "Internal linker error: import of " ++ i.publicName ++ " from " ++ i.origin ++
        " in module " ++ importer ++ " was not validated" := by
  calc (LinkError.internal (.unvalidatedImport i importer)).message
      = "Internal linker error: " ++ ("import of " ++ i.publicName ++ " from " ++ i.origin ++
        " in module " ++ importer ++ " was not validated") := rfl
    _ = "Internal linker error: " ++ "import of " ++ i.publicName ++ " from " ++ i.origin ++
        " in module " ++ importer ++ " was not validated" := by simp only [String.append_assoc]

/-- The naming grows, whether renaming fails or not. -/
theorem extends_rename : (m.rename helper index naming).2.Extends naming :=
  Renaming.extends_importedNames.trans (naming.extends_qualifierFor m.name)

/-! ## What is not touched -/

/-- The module without all that renaming may change: of the lexicon the rules, macros and start
conditions, the tokens of the precedence, and of the grammar the rules and the start. -/
def outline (m : Module) : Module :=
  { m with
    grammar := { m.grammar with rules := .empty, start := none }
    lexicon := m.lexicon.map fun l =>
      { l with rules := [], macros := .empty, startConditions := .empty }
    precedence := m.precedence.map fun p => { p with tokens := [] } }

/-- Everything else stays. -/
theorem outline_renamed (r : Renaming) : (m.renamed r helper).outline = m.outline := by
  have hprecedence : (m.precedence.map (Precedence.rename r)).map
      (fun p => { p with tokens := [] }) = m.precedence.map fun p => { p with tokens := [] } := by
    simp [Precedence.rename, Function.comp_def]
  cases hlexicon : m.lexicon with
  | none => simp [outline, renamed, hlexicon, hprecedence, Grammar.rename]
  | some l => simp [outline, renamed, hlexicon, hprecedence, Grammar.rename, Lexicon.renamed]

/-- A module that is renamed keeps everything else. -/
theorem outline_of_rename {renamed : Module} {naming' : Naming}
    (h : m.rename helper index naming = (.ok renamed, naming')) :
    renamed.outline = m.outline := by
  rcases hr : Renaming.ofModule index m naming with ⟨e | r, after⟩
  · rw [rename, hr] at h
    cases h
  · rw [rename, hr] at h
    simp only [Except.bind, renameBy_eq r helper m.refused?_never] at h
    cases h
    exact outline_renamed r

end Module

/-! ## All together -/

/-- How the renaming of a module in place ends. -/
structure RenamesCleanly (library : RegexLibrary) (refused : LinkError) (helper : String)
    (index : ExportIndex) (m : Module) (naming : Naming)
    (outcome : Except LinkError Unit × InPlace) : Prop where
  /-- It fails if some import that binds a name has no export of its kind, and only then. -/
  fails : (∃ e, outcome.1 = .error e) ↔ ∃ i ∈ m.boundImports, ¬ index.Offers i
  /-- The message names the first such import. -/
  message : ∀ e, outcome.1 = .error e → ∃ before i after, m.boundImports = before ++ i :: after ∧
    (∀ other ∈ before, index.Offers other) ∧ ¬ index.Offers i ∧
      e.message = "Internal linker error: import of " ++ i.publicName ++ " from " ++ i.origin ++
        " in module " ++ m.name ++ " was not validated"
  /-- After a failure the module is what it was. -/
  unchanged : ∀ e, outcome.1 = .error e → outcome.2.module = m
  /-- Qualifiers that were given before remain given. -/
  kept : outcome.2.naming.Extends naming
  /-- What renaming has nothing to do with is not touched. -/
  untouched : outcome.2.module.outline = m.outline
  /-- What is left behind is what renaming the module gives. -/
  renamed : m.rename helper index naming =
    (outcome.1.map fun _ => outcome.2.module, outcome.2.naming)

/-- Renaming in place fails cleanly, for every module, export index and naming. -/
theorem rename_cleanly {library : RegexLibrary} (hlibrary : library.Documented)
    (refused : LinkError) (helper : String) (index : ExportIndex) {m : Module}
    (hcompile : m.MacrosCompile library) (naming : Naming) :
    RenamesCleanly library refused helper index m naming
      ((InPlace.Action.rename library refused helper index).perform ⟨m, naming⟩) := by
  have hfails : (∃ e, (m.rename helper index naming).1 = .error e) ↔
      ∃ i ∈ m.boundImports, ¬ index.Offers i := Module.exists_rename_error_iff
  have hextends : (m.rename helper index naming).2.Extends naming := Module.extends_rename
  have houtcome := InPlace.Action.perform_rename hlibrary helper index refused hcompile naming
  rcases hrename : m.rename helper index naming with ⟨e | renamed, naming'⟩
  · -- some import has no export: qualifiers have been asked for, and nothing has been overwritten
    rw [hrename] at hfails hextends houtcome
    rw [houtcome]
    have hfailed : (m.rename helper index naming).1 = .error e := by rw [hrename]
    obtain ⟨before, i, after, himports, hbefore, hi, rfl⟩ := Module.first_of_rename_error hfailed
    constructor
    case fails => simpa [InPlace.Action.ended] using hfails
    case message =>
      rintro e' ⟨⟩
      exact ⟨before, i, after, himports, hbefore, hi, Module.message_unvalidatedImport i m.name⟩
    case unchanged => exact fun _ _ => rfl
    case kept => exact hextends
    case untouched => rfl
    case renamed => exact hrename
  · -- all imports have their exports, and every part has been overwritten
    rw [hrename] at hfails hextends houtcome
    rw [houtcome]
    constructor
    case fails => simpa [InPlace.Action.ended] using hfails
    case message => rintro e ⟨⟩
    case unchanged => rintro e ⟨⟩
    case kept => exact hextends
    case untouched => exact Module.outline_of_rename hrename
    case renamed => exact hrename

/-- A module that imports, behind a rule that is offered, a token that is not. -/
def misimporting : Module where
  name := "main"
  grammar := {}
  lexicon := some MacroReference.awkwardLexicon
  imports := [⟨"lib", "default", "list", false⟩, ⟨"side", "", "", false⟩,
    ⟨"lib", "default", "LIST", true⟩, ⟨"ghost", "x", "x", false⟩]

/-- What the module imports from. -/
def offeringList : ExportIndex :=
  .ofModules [{ name := "lib", grammar := {}, exports := [⟨"list", "default", false⟩] }]

theorem misimporting_rename_cleanly : Regex.library.Documented ∧
    misimporting.MacrosCompile Regex.library ∧
    ((InPlace.Action.rename Regex.library (.unknownModule "main") "run" offeringList).perform
      ⟨misimporting, .empty⟩).1 =
        .error (.internal (.unvalidatedImport ⟨"lib", "default", "LIST", true⟩ "main")) ∧
    RenamesCleanly Regex.library (.unknownModule "main") "run" offeringList misimporting .empty
      ((InPlace.Action.rename Regex.library (.unknownModule "main") "run" offeringList).perform
        ⟨misimporting, .empty⟩) := by
  have hcompile : misimporting.MacrosCompile Regex.library := by
    intro l _ hne
    have hread := MacroReference.read?_pattern Regex.documented_library hne
    exact Option.isSome_iff_exists.mpr ⟨_, hread⟩
  exact ⟨Regex.documented_library, hcompile, rfl,
    rename_cleanly Regex.documented_library _ "run" offeringList hcompile .empty⟩

end ModularGrammar
