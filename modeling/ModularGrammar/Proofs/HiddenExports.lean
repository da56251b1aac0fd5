import Mathlib.Data.List.Nodup
import ModularGrammar.Proofs.Validation

/-!
# Exports That Are Hidden

Validation looks at the last export under a public name only.  So it says that what an import asks
for is not exported in two cases: if the exporter offers nothing of that kind under that name, and
also if it does, but offers something of the other kind under the same name later on.

## Architecture

1. `Module.Offers`, `Module.Hides`: what a module lists, and what of it is not seen
2. `Import.Offered`, `Import.Hidden`: the same, said of what an import asks for
3. `Problem.Denies`: the problems that say of an import that there is no such export
4. `denials_told_iff`: which imports are denied, and which of the denials are true
-/

namespace ModularGrammar

/-! ## What modules list -/

/-- A module lists an export of a kind under a public name. -/
def Module.Offers (m : Module) (publicName : String) (lexical : Bool) : Prop :=
  ∃ e ∈ m.exports, e.publicName = publicName ∧ e.lexical = lexical

/-- A module lists an export of a kind under a public name, but the last one under that name is of
the other kind. -/
def Module.Hides (m : Module) (publicName : String) (lexical : Bool) : Prop :=
  m.Offers publicName lexical ∧ ∃ e, m.LastExport publicName e ∧ e.lexical ≠ lexical

/-- The module an import speaks of lists what the import asks for. -/
def Import.Offered (modules : List Module) (i : Import) : Prop :=
  ∃ x ∈ modules, x.name = i.origin ∧ x.Offers i.publicName i.lexical

/-- The module an import speaks of hides what the import asks for. -/
def Import.Hidden (modules : List Module) (i : Import) : Prop :=
  ∃ x ∈ modules, x.name = i.origin ∧ x.Hides i.publicName i.lexical

/-- A problem says that what an import asks for is not exported. -/
inductive Problem.Denies (importer : String) (i : Import) : Problem → Prop
  | default : i.publicName = "default" →
      Denies importer i (.missingDefaultExport i.origin importer)
  | token : i.publicName ≠ "default" → i.lexical = true →
      Denies importer i (.missingTokenExport i.origin importer i.publicName)
  | rule : i.publicName ≠ "default" → i.lexical = false →
      Denies importer i (.missingRuleExport i.origin importer i.publicName)

/-! ## The last of several exports -/

section Exports

variable {m : Module} {publicName : String} {lexical : Bool} {e e' : Export}

theorem Module.LastExport.mem (h : m.LastExport publicName e) : e ∈ m.exports := by
  obtain ⟨-, front, back, hsplit, -⟩ := h
  rw [hsplit]
  exact List.mem_append_right _ List.mem_cons_self

theorem Module.LastExport.unique (h : m.LastExport publicName e)
    (h' : m.LastExport publicName e') : e = e' := by
  rw [← Module.offered?_eq_some_iff] at h h'
  exact Option.some.inj (h.symm.trans h')

/-- Of the exports under a public name one is the last. -/
theorem Module.exists_lastExport (he : e ∈ m.exports) (hname : e.publicName = publicName) :
    ∃ last, m.LastExport publicName last := by
  have hsome : (m.offered? publicName).isSome := by
    rw [Module.offered?, List.find?_isSome]
    exact ⟨e, List.mem_reverse.mpr he, decide_eq_true hname⟩
  obtain ⟨last, hlast⟩ := Option.isSome_iff_exists.mp hsome
  exact ⟨last, Module.offered?_eq_some_iff.mp hlast⟩

/-- The last export under a public name is of a kind exactly if that kind is offered and not
hidden. -/
theorem Module.exists_lastExport_iff : (∃ e, m.LastExport publicName e ∧ e.lexical = lexical) ↔
    m.Offers publicName lexical ∧ ¬ m.Hides publicName lexical := by
  constructor
  · rintro ⟨e, hlast, hkind⟩
    refine ⟨⟨e, hlast.mem, hlast.1, hkind⟩, ?_⟩
    rintro ⟨-, e', hlast', hother⟩
    rw [hlast'.unique hlast] at hother
    exact hother hkind
  · rintro ⟨hoffers, hseen⟩
    obtain ⟨e, he, hname, -⟩ := id hoffers
    obtain ⟨last, hlast⟩ := Module.exists_lastExport he hname
    refine ⟨last, hlast, ?_⟩
    by_contra hother
    exact hseen ⟨hoffers, last, hlast, hother⟩

/-- A module hides something exactly if it lists a rule and a token under one public name. -/
theorem Module.exists_hides_iff : (∃ publicName lexical, m.Hides publicName lexical) ↔
    ∃ e ∈ m.exports, ∃ e' ∈ m.exports, e.publicName = e'.publicName ∧ e.lexical ≠ e'.lexical := by
  constructor
  · rintro ⟨_, _, ⟨e, he, rfl, rfl⟩, last, hlast, hother⟩
    exact ⟨e, he, last, hlast.mem, hlast.1.symm, Ne.symm hother⟩
  · rintro ⟨e, he, e', he', hname, hother⟩
    obtain ⟨last, hlast⟩ := Module.exists_lastExport he rfl
    -- the last export differs in kind from one of the two
    by_cases hkind : last.lexical = e.lexical
    · refine ⟨e.publicName, e'.lexical, ⟨e', he', hname.symm, rfl⟩, last, hlast, ?_⟩
      rw [hkind]
      exact hother
    · exact ⟨e.publicName, e.lexical, ⟨e, he, rfl, rfl⟩, last, hlast, hkind⟩

end Exports

/-! ## What is told of imports -/

theorem Import.Hidden.offered {modules : List Module} {i : Import} (h : i.Hidden modules) :
    i.Offered modules := by
  obtain ⟨x, hx, hname, hoffers, -⟩ := h
  exact ⟨x, hx, hname, hoffers⟩

namespace ExportIndex

theorem denies_iff {importer : String} {i : Import} {p : Problem} :
    p.Denies importer i ↔ p = importProblem importer i := by
  rw [importProblem, defaultName]
  constructor
  · intro h
    cases h with
    | default hname => rw [if_pos hname]
    | token hname hkind => rw [if_neg hname, if_pos hkind]
    | rule hname hkind => simp [hname, hkind]
  · rintro rfl
    split
    · next hname => exact .default hname
    · next hname =>
      split
      · next hkind => exact .token hname hkind
      · next hkind => exact .rule hname (Bool.eq_false_iff.mpr hkind)

section Distinct

variable {modules : List Module} (hdistinct : (modules.map Module.name).Nodup)

include hdistinct

/-- An import is not resolved if what it asks for is not there, or is hidden. -/
theorem not_resolved_iff {i : Import} :
    ¬ i.Resolved modules ↔ ¬ i.Offered modules ∨ i.Hidden modules := by
  have hresolved : i.Resolved modules ↔
      ∃ x ∈ modules, x.name = i.origin ∧ x.Offers i.publicName i.lexical ∧
        ¬ x.Hides i.publicName i.lexical := by
    simp only [Import.Resolved, Import.ResolvesTo, ← Module.exists_lastExport_iff]
    constructor
    · rintro ⟨e, x, hx, hname, hlast, hkind⟩
      exact ⟨x, hx, hname, e, hlast, hkind⟩
    · rintro ⟨x, hx, hname, e, hlast, hkind⟩
      exact ⟨e, x, hx, hname, hlast, hkind⟩
  rw [hresolved]
  constructor
  · intro hnone
    by_cases hoffered : i.Offered modules
    · obtain ⟨x, hx, hname, hoffers⟩ := hoffered
      refine Or.inr ⟨x, hx, hname, ?_⟩
      by_contra hseen
      exact hnone ⟨x, hx, hname, hoffers, hseen⟩
    · exact Or.inl hoffered
  · rintro hcases ⟨x, hx, hname, hoffers, hseen⟩
    rcases hcases with hnone | ⟨x', hx', hname', hhides⟩
    · exact hnone ⟨x, hx, hname, hoffers⟩
    · -- names are distinct, so both speak of one module
      obtain rfl := List.inj_on_of_nodup_map hdistinct hx hx' (hname.trans hname'.symm)
      exact hseen hhides

theorem mem_problems_iff {p : Problem} : p ∈ problems (ofModules modules) modules ↔
    (∃ m ∈ modules, ∃ e ∈ m.exports, m.LacksRule e ∧
      p = .missingExportedRule m.name e.localName) ∨
    ∃ m ∈ modules, ∃ i ∈ m.boundImports, p.Denies m.name i ∧
      (¬ i.Offered modules ∨ i.Hidden modules) := by
  simp only [problems, importProblems, exportProblems, List.mem_flatMap, List.mem_append,
    List.mem_map, List.mem_filter, find?_isNone_iff hdistinct, not_resolved_iff hdistinct,
    ← Module.lacksRule_iff, denies_iff]
  constructor
  · rintro ⟨m, hm, ⟨i, ⟨hi, hcases⟩, rfl⟩ | ⟨e, ⟨he, hlacks⟩, rfl⟩⟩
    · exact Or.inr ⟨m, hm, i, hi, rfl, hcases⟩
    · exact Or.inl ⟨m, hm, e, he, hlacks, rfl⟩
  · rintro (⟨m, hm, e, he, hlacks, rfl⟩ | ⟨m, hm, i, hi, rfl, hcases⟩)
    · exact ⟨m, hm, Or.inr ⟨e, ⟨he, hlacks⟩, rfl⟩⟩
    · exact ⟨m, hm, Or.inl ⟨i, ⟨hi, hcases⟩, rfl⟩⟩

/-- An import of modules with distinct names is denied if what it asks for is not offered, and also
if it is offered and hidden; a module hides something exactly if it lists a rule and a token under
one public name. -/
theorem denials_told_iff :
    (∀ found, validate modules = .error (.unresolved found) → ∀ p, p ∈ found ↔
      (∃ m ∈ modules, ∃ e ∈ m.exports, m.LacksRule e ∧
        p = .missingExportedRule m.name e.localName) ∨
      ∃ m ∈ modules, ∃ i ∈ m.boundImports, p.Denies m.name i ∧
        (¬ i.Offered modules ∨ i.Hidden modules)) ∧
    (∀ m ∈ modules, ∀ i ∈ m.boundImports, i.Hidden modules → i.Offered modules ∧
      ∃ found, validate modules = .error (.unresolved found) ∧ ∃ p ∈ found, p.Denies m.name i) ∧
    ∀ x : Module, (∃ publicName lexical, x.Hides publicName lexical) ↔
      ∃ e ∈ x.exports, ∃ e' ∈ x.exports,
        e.publicName = e'.publicName ∧ e.lexical ≠ e'.lexical := by
  refine ⟨?_, ?_, fun _ => Module.exists_hides_iff⟩
  · intro found hfound p
    -- an error is reported only if there are problems, and then it lists all of them
    have hne : problems (ofModules modules) modules ≠ [] := by
      intro hnone
      rw [validate_eq_ok_iff.mpr ⟨hnone, rfl⟩] at hfound
      cases hfound
    rw [validate_eq_error hne] at hfound
    cases hfound
    exact mem_problems_iff hdistinct
  · intro m hm i hi hhidden
    have htold : importProblem m.name i ∈ problems (ofModules modules) modules :=
      (mem_problems_iff hdistinct).mpr
        (Or.inr ⟨m, hm, i, hi, denies_iff.mpr rfl, Or.inr hhidden⟩)
    exact ⟨hhidden.offered, _, validate_eq_error (List.ne_nil_of_mem htold), _, htold,
      denies_iff.mpr rfl⟩

end Distinct

/-! ## A rule behind a token -/

/-- The second module offers a rule and then a token as `item`, and the first asks for the rule. -/
def hidingModules : List Module := [
  { name := "main"
    grammar := { rules := .ofList [("top", [⟨"item", none, none⟩])] }
    imports := [⟨"lib", "item", "item", false⟩] },
  { name := "lib"
    grammar := { rules := .ofList [("a", [⟨"A", none, none⟩])] }
    exports := [⟨"a", "item", false⟩, ⟨"T", "item", true⟩] }]

theorem hidingModules_denials_told :
    (hidingModules.map Module.name).Nodup ∧
    ∃ m ∈ hidingModules, ∃ i ∈ m.boundImports, i.Hidden hidingModules ∧ i.Offered hidingModules ∧
      ∃ found, validate hidingModules = .error (.unresolved found) ∧
        ∃ p ∈ found, p.Denies m.name i := by
  have hdistinct : (hidingModules.map Module.name).Nodup := by decide
  obtain ⟨-, hdenied, -⟩ := denials_told_iff hdistinct
  have hhidden : Import.Hidden hidingModules ⟨"lib", "item", "item", false⟩ :=
    ⟨_, .tail _ (.head _), rfl, ⟨⟨"a", "item", false⟩, .head _, rfl, rfl⟩,
      ⟨"T", "item", true⟩, ⟨rfl, [⟨"a", "item", false⟩], [], rfl, by simp⟩, by decide⟩
  have hbound : (⟨"lib", "item", "item", false⟩ : Import) ∈
      (hidingModules.head (by decide)).boundImports := by decide
  exact ⟨hdistinct, _, .head _, _, hbound, hhidden,
    hdenied _ (.head _) _ hbound hhidden⟩

/-- The rule is said not to be there, though it is listed. -/
theorem hidingModules_untruthful :
    (hidingModules.map Module.name).Nodup ∧
    validate hidingModules = .error (.unresolved [.missingRuleExport "lib" "main" "item"]) ∧
    ∃ x ∈ hidingModules, x.name = "lib" ∧ x.Offers "item" false :=
  ⟨by decide, rfl, _, .tail _ (.head _), rfl, ⟨"a", "item", false⟩, .head _, rfl, rfl⟩

end ExportIndex

end ModularGrammar
