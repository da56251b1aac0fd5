import ModularGrammar.Proofs.Resolution

/-!
# The Outcome of Validation

Validation of modules with distinct names reports every import that is not resolved and every
exported rule that is not there: once, module by module, imports before exports, each in the order
in which the module lists them.  If there is nothing to report it gives an index in which imports
are found resolved.

## Architecture

1. `Module.LastExport`, `Import.ResolvesTo`: what an import is resolved to
2. `Reported`: what is said of the things of a list, one after the other
3. `Import.Report`, `Export.Report`, `Module.Report`: what is said of each
4. `Indexes`: what the index of some modules holds
5. `validate_outcome`: when validation fails, with which problems, and what it gives otherwise
-/

namespace ModularGrammar

/-! ## What imports are resolved to -/

/-- The last of the exports of a module under a public name. -/
def Module.LastExport (m : Module) (publicName : String) (e : Export) : Prop :=
  e.publicName = publicName ∧ ∃ front back, m.exports = front ++ e :: back ∧
    ∀ later ∈ back, later.publicName ≠ publicName

/-- An import is resolved to the last export under the public name that it asks for, if it asks for
the kind of thing that is exported. -/
def Import.ResolvesTo (modules : List Module) (i : Import) (e : Export) : Prop :=
  ∃ m ∈ modules, m.name = i.origin ∧ m.LastExport i.publicName e ∧ e.lexical = i.lexical

def Import.Resolved (modules : List Module) (i : Import) : Prop :=
  ∃ e, i.ResolvesTo modules e

/-- A rule that a module exports without having it. -/
def Module.LacksRule (m : Module) (e : Export) : Prop :=
  e.lexical = false ∧ e.localName ∉ m.grammar.rules.keys

/-! ## Reports -/

/-- What is said of the things of a list, one after the other. -/
inductive Reported {α : Type} (said : α → List Problem → Prop) : List α → List Problem → Prop
  | nil : Reported said [] []
  | cons {a : α} {l : List α} {problems rest : List Problem} :
      said a problems → Reported said l rest → Reported said (a :: l) (problems ++ rest)

/-- What is said of an import: nothing if it is resolved; otherwise what it asks for is missing. -/
inductive Import.Report (modules : List Module) (importer : String) (i : Import) :
    List Problem → Prop
  | resolved : i.Resolved modules → Report modules importer i []
  | default : ¬ i.Resolved modules → i.publicName = "default" →
      Report modules importer i [.missingDefaultExport i.origin importer]
  | token : ¬ i.Resolved modules → i.publicName ≠ "default" → i.lexical = true →
      Report modules importer i [.missingTokenExport i.origin importer i.publicName]
  | rule : ¬ i.Resolved modules → i.publicName ≠ "default" → i.lexical = false →
      Report modules importer i [.missingRuleExport i.origin importer i.publicName]

/-- What is said of an export: that its rule is missing, if it is. -/
inductive Export.Report (m : Module) (e : Export) : List Problem → Prop
  | sound : ¬ m.LacksRule e → Report m e []
  | lacking : m.LacksRule e → Report m e [.missingExportedRule m.name e.localName]

/-- What is said of a module: first of the imports that bind a name, then of the exports. -/
inductive Module.Report (modules : List Module) (m : Module) : List Problem → Prop
  | intro {ofImports ofExports : List Problem} :
      Reported (Import.Report modules m.name) m.boundImports ofImports →
      Reported (Export.Report m) m.exports ofExports →
      Report modules m (ofImports ++ ofExports)

/-- There is something to be said of a module. -/
def Module.Faulty (modules : List Module) (m : Module) : Prop :=
  (∃ i ∈ m.boundImports, ¬ i.Resolved modules) ∨ ∃ e ∈ m.exports, m.LacksRule e

section Reports

variable {α : Type} {said : α → List Problem → Prop} {l : List α} {problems : List Problem}

/-- If there is one thing to be said of each, there is one thing to be said of all. -/
theorem reported_iff_flatMap {f : α → List Problem} (h : ∀ a ps, said a ps ↔ ps = f a) :
    Reported said l problems ↔ problems = l.flatMap f := by
  constructor
  · intro hreported
    induction hreported with
    | nil => rfl
    | cons hsaid _ ih =>
      rw [List.flatMap_cons, (h _ _).mp hsaid, ih]
  · rintro rfl
    induction l with
    | nil => exact .nil
    | cons a l ih => exact .cons ((h _ _).mpr rfl) ih

/-- One problem for each of those picked is one problem or none for each of all. -/
theorem map_filter_eq_flatMap (p : α → Bool) (f : α → Problem) (l : List α) :
    (l.filter p).map f = l.flatMap fun a => if p a then [f a] else [] := by
  induction l with
  | nil => rfl
  | cons a l ih => cases hp : p a <;> simp [hp, ih]

theorem reported_iff_map_filter {p : α → Bool} {f : α → Problem}
    (h : ∀ a ps, said a ps ↔ ps = if p a then [f a] else []) :
    Reported said l problems ↔ problems = (l.filter p).map f := by
  rw [reported_iff_flatMap h, map_filter_eq_flatMap]

end Reports

/-! ## Exports without a rule -/

theorem Module.lacksRule_iff {m : Module} {e : Export} : m.LacksRule e ↔
    (!e.lexical && !m.grammar.rules.contains e.localName) = true := by
  rw [LacksRule, ← Table.contains_iff_mem_keys]
  simp

theorem Export.report_iff {m : Module} {e : Export} {problems : List Problem} :
    e.Report m problems ↔
      problems = if !e.lexical && !m.grammar.rules.contains e.localName then
        [.missingExportedRule m.name e.localName] else [] := by
  by_cases hlacks : m.LacksRule e
  · rw [if_pos (Module.lacksRule_iff.mp hlacks)]
    constructor
    · intro h
      cases h with
      | sound h => exact absurd hlacks h
      | lacking => rfl
    · rintro rfl
      exact .lacking hlacks
  · rw [if_neg (mt Module.lacksRule_iff.mpr hlacks)]
    constructor
    · intro h
      cases h with
      | sound => rfl
      | lacking h => exact absurd h hlacks
    · rintro rfl
      exact .sound hlacks

/-! ## The last of several -/

/-- What is found from the end is the last thing of its kind. -/
theorem find?_reverse_eq_some_iff {α : Type} {p : α → Bool} {l : List α} {a : α} :
    l.reverse.find? p = some a ↔
      p a = true ∧ ∃ front back, l = front ++ a :: back ∧ ∀ later ∈ back, p later = false := by
  rw [List.find?_eq_some_iff_append]
  refine and_congr_right fun _ => ⟨?_, ?_⟩
  · rintro ⟨back, front, hsplit, hback⟩
    refine ⟨front.reverse, back.reverse, ?_, ?_⟩
    · rw [← List.reverse_reverse l, hsplit]
      simp
    · simpa using hback
  · rintro ⟨front, back, rfl, hback⟩
    exact ⟨back.reverse, front.reverse, by simp, by simpa using hback⟩

theorem Module.offered?_eq_some_iff {m : Module} {publicName : String} {e : Export} :
    m.offered? publicName = some e ↔ m.LastExport publicName e := by
  simp [offered?, LastExport, find?_reverse_eq_some_iff]

section Distinct

variable {modules : List Module} {m : Module} {i : Import} {e : Export}
  (hdistinct : (modules.map Module.name).Nodup)

include hdistinct

/-- A module with a name of its own is the last one of its name. -/
theorem find?_name_eq_some_iff {name : String} :
    modules.reverse.find? (fun m => m.name = name) = some m ↔ m ∈ modules ∧ m.name = name := by
  rw [find?_reverse_eq_some_iff, decide_eq_true_eq]
  constructor
  · rintro ⟨hname, front, back, rfl, -⟩
    exact ⟨by simp, hname⟩
  · rintro ⟨hm, rfl⟩
    obtain ⟨front, back, rfl⟩ := List.append_of_mem hm
    -- a later module of the same name would make the names repeat
    refine ⟨rfl, front, back, rfl, fun later hlater => ?_⟩
    rw [List.map_append, List.map_cons, List.nodup_append, List.nodup_cons] at hdistinct
    have hnew := hdistinct.2.1.1
    rw [decide_eq_false_iff_not]
    intro hname
    exact hnew (List.mem_map.mpr ⟨later, hlater, hname⟩)

theorem Import.export?_eq_some_iff : i.export? modules = some e ↔ i.ResolvesTo modules e := by
  simp only [export?, exporter?, Option.filter_eq_some_iff, Option.bind_eq_some_iff,
    find?_name_eq_some_iff hdistinct, Module.offered?_eq_some_iff, decide_eq_true_eq, ResolvesTo]
  constructor
  · rintro ⟨⟨m, ⟨hm, hname⟩, hlast⟩, hkind⟩
    exact ⟨m, hm, hname, hlast, hkind⟩
  · rintro ⟨m, hm, hname, hlast, hkind⟩
    exact ⟨⟨m, ⟨hm, hname⟩, hlast⟩, hkind⟩

theorem ExportIndex.find?_isNone_iff :
    ((ofModules modules).find? i).isNone = true ↔ ¬ i.Resolved modules := by
  rw [find?_ofModules, Option.isNone_iff_eq_none, Option.eq_none_iff_forall_ne_some]
  simp [Import.Resolved, Import.export?_eq_some_iff hdistinct]

/-! ## What is reported -/

open ExportIndex in
theorem Import.report_iff {importer : String} {problems : List Problem} :
    i.Report modules importer problems ↔
      problems =
        if ((ofModules modules).find? i).isNone then [importProblem importer i] else [] := by
  have hnone := find?_isNone_iff hdistinct (i := i)
  -- the reasons to report an import exclude each other, as the cases of the problem do
  by_cases hresolved : i.Resolved modules
  · rw [if_neg fun h => hnone.mp h hresolved]
    constructor
    · intro h
      cases h with
      | resolved => rfl
      | default h | token h | rule h => exact absurd hresolved h
    · rintro rfl
      exact .resolved hresolved
  · rw [if_pos (hnone.mpr hresolved), importProblem, defaultName]
    constructor
    · intro h
      cases h with
      | resolved h => exact absurd h hresolved
      | default _ hname => rw [if_pos hname]
      | token _ hname hkind => rw [if_neg hname, if_pos hkind]
      | rule _ hname hkind => simp [hname, hkind]
    · rintro rfl
      split
      · next hname => exact .default hresolved hname
      · next hname =>
        split
        · next hkind => exact .token hresolved hname hkind
        · next hkind => exact .rule hresolved hname (Bool.eq_false_iff.mpr hkind)

open ExportIndex in
/-- What validation says of a module is the report on it. -/
theorem Module.report_iff {problems : List Problem} : m.Report modules problems ↔
    problems = importProblems (ofModules modules) m ++ exportProblems m := by
  have himports : ∀ ps, Reported (Import.Report modules m.name) m.boundImports ps ↔
      ps = importProblems (ofModules modules) m := fun _ =>
    reported_iff_map_filter fun _ _ => Import.report_iff hdistinct
  have hexports : ∀ ps, Reported (Export.Report m) m.exports ps ↔ ps = exportProblems m := fun _ =>
    reported_iff_map_filter fun _ _ => Export.report_iff
  constructor
  · rintro ⟨hi, he⟩
    rw [(himports _).mp hi, (hexports _).mp he]
  · rintro rfl
    exact ⟨(himports _).mpr rfl, (hexports _).mpr rfl⟩

namespace ExportIndex

theorem reported_iff_problems {problems : List Problem} :
    Reported (Module.Report modules) modules problems ↔
      problems = ExportIndex.problems (ofModules modules) modules :=
  reported_iff_flatMap fun _ _ => Module.report_iff hdistinct

theorem problems_eq_nil_iff :
    problems (ofModules modules) modules = [] ↔ ∀ m ∈ modules, ¬ m.Faulty modules := by
  have himports : ∀ m : Module, importProblems (ofModules modules) m = [] ↔
      ∀ i ∈ m.boundImports, i.Resolved modules := by
    intro m
    rw [importProblems, List.map_eq_nil_iff, List.filter_eq_nil_iff]
    simp only [find?_isNone_iff hdistinct, Classical.not_not]
  have hexports : ∀ m : Module, exportProblems m = [] ↔ ∀ e ∈ m.exports, ¬ m.LacksRule e := by
    intro m
    rw [exportProblems, List.map_eq_nil_iff, List.filter_eq_nil_iff]
    simp only [← Module.lacksRule_iff]
  simp [problems_nil_iff, himports, hexports, Module.Faulty]

end ExportIndex

end Distinct

/-! ## The index -/

namespace ExportIndex

/-- The index of some modules: it has their names, lists the last export under every public name,
and finds what imports are resolved to. -/
structure Indexes (modules : List Module) (index : ExportIndex) : Prop where
  mem_keys_iff : ∀ name, name ∈ index.keys ↔ ∃ m ∈ modules, m.name = name
  get?_iff : ∀ m ∈ modules, ∃ exports, index.get? m.name = some exports ∧
    ∀ publicName e, exports.get? publicName = some e ↔ m.LastExport publicName e
  find?_iff : ∀ i e, index.find? i = some e ↔ i.ResolvesTo modules e

theorem indexes_ofModules {modules : List Module} (hdistinct : (modules.map Module.name).Nodup) :
    Indexes modules (ofModules modules) where
  mem_keys_iff := by
    intro name
    simp only [Table.mem_keys_iff, get?_ofModules, Option.map_eq_some_iff,
      find?_name_eq_some_iff hdistinct]
    constructor
    · rintro ⟨_, m, hm, rfl⟩
      exact ⟨m, hm⟩
    · rintro ⟨m, hm⟩
      exact ⟨_, m, hm, rfl⟩
  get?_iff := by
    intro m hm
    -- with distinct names every module is the one that is found under its name
    have hfind := (find?_name_eq_some_iff hdistinct).mpr ⟨hm, rfl⟩
    refine ⟨byPublicName m.exports, ?_, fun publicName e => ?_⟩
    · rw [get?_ofModules, hfind, Option.map_some]
    · rw [get?_byPublicName, Module.offered?_eq_some_iff]
  find?_iff := by
    intro i e
    rw [find?_ofModules, Import.export?_eq_some_iff hdistinct]

/-! ## The outcome -/

/-- Validation of modules with distinct names fails exactly if there is something to be said of one
of them; the problems it then reports are all there are, in order.  Otherwise it gives the index of
the modules. -/
theorem validate_outcome {modules : List Module}
    (hdistinct : (modules.map Module.name).Nodup) :
    ((∃ error, validate modules = .error error) ↔ ∃ m ∈ modules, m.Faulty modules) ∧
    (∀ error, validate modules = .error error ↔
      ∃ found, found ≠ [] ∧ Reported (Module.Report modules) modules found ∧
        error = .unresolved found) ∧
    ((∀ m ∈ modules, ¬ m.Faulty modules) →
      ∃ index, validate modules = .ok index ∧ Indexes modules index) := by
  have hnil := problems_eq_nil_iff hdistinct
  have herror : ∀ error, validate modules = .error error ↔
      ∃ found, found ≠ [] ∧ Reported (Module.Report modules) modules found ∧
        error = .unresolved found := by
    intro error
    simp only [reported_iff_problems hdistinct]
    constructor
    · intro h
      -- without problems validation would have succeeded
      have hne : problems (ofModules modules) modules ≠ [] := by
        intro hnone
        rw [validate_eq_ok_iff.mpr ⟨hnone, rfl⟩] at h
        cases h
      rw [validate_eq_error hne] at h
      cases h
      exact ⟨_, hne, rfl, rfl⟩
    · rintro ⟨found, hne, rfl, rfl⟩
      exact validate_eq_error hne
  refine ⟨?_, herror, fun hsound => ?_⟩
  · simp only [herror, reported_iff_problems hdistinct]
    constructor
    · rintro ⟨_, found, hne, rfl, -⟩
      refine Classical.byContradiction fun hsound => hne ?_
      exact hnil.mpr fun m hm hfaulty => hsound ⟨m, hm, hfaulty⟩
    · rintro ⟨m, hm, hfaulty⟩
      exact ⟨_, _, fun hnone => hnil.mp hnone m hm hfaulty, rfl, rfl⟩
  · exact ⟨_, validate_eq_ok_iff.mpr ⟨hnil.mpr hsound, rfl⟩, indexes_ofModules hdistinct⟩

/-- A module that asks for what is not there, and offers a rule that it does not have. -/
def unsoundModules : List Module := [
  { name := "entry"
    grammar := {}
    imports := [⟨"lib", "default", "x", false⟩, ⟨"lib", "", "", false⟩, ⟨"lib", "y", "y", false⟩,
      ⟨"lib", "Z", "Z", true⟩, ⟨"lib", "y", "w", true⟩]
    exports := [⟨"ghost", "y", false⟩] },
  { name := "lib"
    grammar := {}
    imports := [⟨"entry", "y", "y", true⟩]
    exports := [⟨"y", "y", false⟩, ⟨"T", "y", true⟩] }]

theorem unsoundModules_reported :
    (unsoundModules.map Module.name).Nodup ∧
    Reported (Module.Report unsoundModules) unsoundModules [
      .missingDefaultExport "lib" "entry",
      .missingRuleExport "lib" "entry" "y",
      .missingTokenExport "lib" "entry" "Z",
      .missingExportedRule "entry" "ghost",
      .missingTokenExport "entry" "lib" "y",
      .missingExportedRule "lib" "y"] := by
  have hdistinct : (unsoundModules.map Module.name).Nodup := by decide
  obtain ⟨found, -, hfound, heq⟩ := ((validate_outcome hdistinct).2.1 (.unresolved [
    .missingDefaultExport "lib" "entry", .missingRuleExport "lib" "entry" "y",
    .missingTokenExport "lib" "entry" "Z", .missingExportedRule "entry" "ghost",
    .missingTokenExport "entry" "lib" "y", .missingExportedRule "lib" "y"])).mp rfl
  cases heq
  exact ⟨hdistinct, hfound⟩

end ExportIndex

end ModularGrammar
