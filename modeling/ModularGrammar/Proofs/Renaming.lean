import ModularGrammar.Proofs.Referent
import ModularGrammar.Renaming

/-!
# Renaming Writes Referents

Once modules have been validated and every module has its qualifier, renaming asks for no further
qualifier and turns every name that a module uses into the global name of what the name stands for.
It fails only if no references can be found to the macros of some module, and then with what is
said about the first such module.

## Architecture

1. `Module.renamed`, `Module.refused?`: a renamed module, and why there may be none
2. `Module.renaming`: the renaming of a module in a link, and what it makes of names
3. `renameAll_eq`, `renameAll_of_refused`: renaming all modules is renaming each of them on its own
-/

namespace ModularGrammar

/-! ## Renamed modules -/

namespace Module

/-- The module with the names a renaming gives, once references to its macros can be found. -/
def renamed (r : Renaming) (helper : String) (m : Module) : Module :=
  { m with
    grammar := m.grammar.rename r
    lexicon := m.lexicon.map (Lexicon.renamed r helper)
    precedence := m.precedence.map (Precedence.rename r) }

/-- Why references to the macros of a module cannot be found, if they cannot. -/
def refused? (refusal : MacroReference.Refusal) (m : Module) : Option LinkError :=
  m.lexicon.bind (Lexicon.refused? refusal)

variable {refusal : MacroReference.Refusal} {m : Module}

theorem refused?_never (m : Module) : m.refused? MacroReference.Refusal.never = none := by
  rw [refused?, Option.bind_eq_none_iff]
  intro l _
  exact ite_self none

/-- What is refused is an expression for references to macros. -/
theorem exists_reason_of_refused? {e : LinkError} (h : m.refused? refusal = some e) :
    ∃ reason, e = .internal (.refusedPattern reason) := by
  obtain ⟨l, -, hl⟩ := Option.bind_eq_some_iff.mp h
  obtain ⟨-, hl⟩ := Option.ite_none_left_eq_some.mp hl
  obtain ⟨reason, -, rfl⟩ := Option.map_eq_some_iff.mp hl
  exact ⟨reason, rfl⟩

theorem renameBy_eq (r : Renaming) (helper : String) (h : m.refused? refusal = none) :
    m.renameBy refusal r helper = .ok (m.renamed r helper) := by
  rw [renameBy, renamed]
  cases hlexicon : m.lexicon with
  | none => rfl
  | some l =>
    rw [refused?, hlexicon, Option.bind_some] at h
    have hrename : l.rename refusal r helper = .ok (l.renamed r helper) := by
      rw [Lexicon.rename, h]
    rw [Option.mapM_some, hrename]
    rfl

theorem renameBy_of_refused (r : Renaming) (helper : String) {e : LinkError}
    (h : m.refused? refusal = some e) : m.renameBy refusal r helper = .error e := by
  obtain ⟨l, hlexicon, hl⟩ := Option.bind_eq_some_iff.mp h
  have hrename : l.rename refusal r helper = .error e := by rw [Lexicon.rename, hl]
  rw [renameBy, hlexicon, Option.mapM_some, hrename]
  rfl

end Module

/-- References to the macros of all modules can be found. -/
def NoneRefused (refusal : MacroReference.Refusal) (modules : List Module) : Prop :=
  ∀ m ∈ modules, m.refused? refusal = none

instance (refusal : MacroReference.Refusal) (modules : List Module) :
    Decidable (NoneRefused refusal modules) :=
  inferInstanceAs (Decidable (∀ m ∈ modules, m.refused? refusal = none))

theorem noneRefused_never (modules : List Module) :
    NoneRefused MacroReference.Refusal.never modules :=
  fun m _ => m.refused?_never

/-- Names with too many characters, all together, are refused. -/
def MacroReference.Refusal.beyond (limit : Nat) (reason : String) : MacroReference.Refusal :=
  fun names => if limit < (names.flatMap String.toList).length then some reason else none

def Module.renaming (modules : List Module) (m : Module) : Renaming where
  qualifier := linkQualifier modules m.name
  imported := .ofList
    (m.boundImports.map fun i => (i.localName, (i.referent modules).globalName modules))

/-- The module with the global names it has in a link. -/
def Module.linked (modules : List Module) (helper : String) (m : Module) : Module :=
  m.renamed (m.renaming modules) helper

theorem lexicon_linked (modules : List Module) (helper : String) (m : Module) :
    (m.linked modules helper).lexicon =
      m.lexicon.map (Lexicon.renamed (m.renaming modules) helper) := rfl

/-! ## Single names -/

/-- A name that is used becomes the global name of what it stands for. -/
theorem renaming_symbol (modules : List Module) (m : Module) (name : String) :
    (m.renaming modules).symbol name = (m.referent modules name).globalName modules := by
  have himported : (m.renaming modules).imported.get? name =
      (m.importOf? name).map fun i => (i.referent modules).globalName modules :=
    Table.get?_ofList_map Import.localName (fun i => (i.referent modules).globalName modules)
      m.boundImports
  -- the last import that binds the name decides, here as there
  rw [Renaming.symbol, himported, Module.referent]
  cases m.importOf? name with
  | none => rfl
  | some i => rfl

/-! ## All modules -/

section Valid

variable {modules : List Module} (helper : String) {refusal : MacroReference.Refusal}

theorem importedNames_eq (importer : String) {imports : List Import}
    (hresolved : ∀ i ∈ imports, ∃ e, i.export? modules = some e) :
    Renaming.importedNames (ExportIndex.ofModules modules) importer imports (linkNaming modules) =
      (.ok (imports.map fun i => (i.localName, (i.referent modules).globalName modules)),
        linkNaming modules) := by
  induction imports with
  | nil => rfl
  | cons i rest ih =>
    obtain ⟨e, he⟩ := hresolved i (List.mem_cons_self ..)
    have hrest := ih fun j hj => hresolved j (List.mem_cons_of_mem _ hj)
    -- the exporter is a module of the link, so its qualifier is known already
    have horigin : i.origin ∈ modules.map Module.name := by
      obtain ⟨x, hx, hname, -⟩ := Import.export?_eq_some he
      exact List.mem_map.mpr ⟨x, hx, hname⟩
    have hglobal := Import.globalName_of_export? he
    rw [Renaming.importedNames, ExportIndex.find?_ofModules, he]
    simp only [qualifierFor_linkNaming horigin, hrest, List.map_cons, hglobal]
    rfl

variable (hvalid : ExportIndex.problems (ExportIndex.ofModules modules) modules = [])

include hvalid

theorem ofModule_eq {m : Module} (hm : m ∈ modules) :
    Renaming.ofModule (ExportIndex.ofModules modules) m (linkNaming modules) =
      (.ok (m.renaming modules), linkNaming modules) := by
  have hresolved : ∀ i ∈ m.boundImports, ∃ e, i.export? modules = some e := fun i hi =>
    ExportIndex.exists_export?_of_valid hvalid hm hi
  have himports := importedNames_eq m.name hresolved
  have hname : m.name ∈ modules.map Module.name := List.mem_map_of_mem hm
  simp only [Renaming.ofModule, qualifierFor_linkNaming hname, himports]
  rfl

theorem rename_eq {m : Module} (hm : m ∈ modules) (haccepted : m.refused? refusal = none) :
    m.rename helper (ExportIndex.ofModules modules) (linkNaming modules) refusal =
      (.ok (m.linked modules helper), linkNaming modules) := by
  simp only [Module.rename, ofModule_eq hvalid hm]
  exact congrArg (·, _) (Module.renameBy_eq _ helper haccepted)

theorem rename_of_refused {m : Module} (hm : m ∈ modules) {e : LinkError}
    (hrefused : m.refused? refusal = some e) :
    m.rename helper (ExportIndex.ofModules modules) (linkNaming modules) refusal =
      (.error e, linkNaming modules) := by
  simp only [Module.rename, ofModule_eq hvalid hm]
  exact congrArg (·, _) (Module.renameBy_of_refused _ helper hrefused)

-- The naming never changes, so the modules are renamed one by one against the same qualifiers.
private theorem renameAll_eq_of_subset {rest : List Module} (hsub : ∀ m ∈ rest, m ∈ modules)
    (haccepted : NoneRefused refusal rest) :
    Module.renameAll helper (ExportIndex.ofModules modules) refusal rest (linkNaming modules) =
      (.ok (rest.map (Module.linked modules helper)), linkNaming modules) := by
  induction rest with
  | nil => rfl
  | cons m others ih =>
    obtain ⟨hm, hothers⟩ := List.forall_mem_cons.mp hsub
    obtain ⟨hfirst, hrest⟩ := List.forall_mem_cons.mp haccepted
    simp only [Module.renameAll, rename_eq helper hvalid hm hfirst, ih hothers hrest]
    rfl

/-- Renaming all modules renames each of them on its own and gives no further qualifier. -/
theorem renameAll_eq (haccepted : NoneRefused refusal modules) :
    Module.renameAll helper (ExportIndex.ofModules modules) refusal modules (linkNaming modules) =
      (.ok (modules.map (Module.linked modules helper)), linkNaming modules) :=
  renameAll_eq_of_subset helper hvalid (fun _ hm => hm) haccepted

private theorem renameAll_of_refused_of_subset {rest : List Module}
    (hsub : ∀ m ∈ rest, m ∈ modules) {e : LinkError}
    (hrefused : rest.findSome? (Module.refused? refusal) = some e) :
    Module.renameAll helper (ExportIndex.ofModules modules) refusal rest (linkNaming modules) =
      (.error e, linkNaming modules) := by
  induction rest with
  | nil => cases hrefused
  | cons m others ih =>
    obtain ⟨hm, hothers⟩ := List.forall_mem_cons.mp hsub
    rw [List.findSome?_cons] at hrefused
    cases hfirst : m.refused? refusal with
    | some found =>
      rw [hfirst] at hrefused
      cases hrefused
      simp only [Module.renameAll, rename_of_refused helper hvalid hm hfirst]
    | none =>
      -- this module is renamed, and the first refused one is among the others
      rw [hfirst] at hrefused
      simp only [Module.renameAll, rename_eq helper hvalid hm hfirst, ih hothers hrefused]
      rfl

/-- Renaming all modules ends with what is said about the first that is refused. -/
theorem renameAll_of_refused {e : LinkError}
    (hrefused : modules.findSome? (Module.refused? refusal) = some e) :
    Module.renameAll helper (ExportIndex.ofModules modules) refusal modules (linkNaming modules) =
      (.error e, linkNaming modules) :=
  renameAll_of_refused_of_subset helper hvalid (fun _ hm => hm) hrefused

end Valid

end ModularGrammar
