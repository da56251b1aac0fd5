import ModularGrammar.Link.Load
import ModularGrammar.Proofs.LinkOutcome
import ModularGrammar.Proofs.SurveyRun

/-!
# No Defect Comes From Documents

A defect is an error that says nothing about the documents: a stage was reached without the one
before it.  Reading, fetching and surveying have no such error of their own.  What linking looks up
is there because a survey is closed under imports: the entry, a node of the graph for every module
and for all it imports, and the export of every import that validation has let through.

## Architecture

1. `NoDefect`: computations that end in no defect, and how they are composed
2. `Module.ofSource`, `Method.load`, `Library.survey`: modules are found without a defect
3. `Provided`: all that linking looks up, and `Library.provided_of_survey`: a survey provides it
4. `link_no_defect`: the whole link
-/

namespace ModularGrammar

/-! ## Computations -/

/-- A computation that does not end in a defect. -/
def NoDefect {α : Type} (x : Except LinkError α) : Prop := ∀ defect, x ≠ .error (.internal defect)

namespace NoDefect

variable {α β : Type} {x : Except LinkError α}

theorem ok (a : α) : NoDefect (.ok a) := by
  intro defect h
  cases h

theorem error {e : LinkError} (he : ∀ defect, e ≠ .internal defect) :
    NoDefect (.error e : Except LinkError α) := by
  intro defect h
  exact he defect (Except.error.inj h)

theorem map {f : α → β} (hx : NoDefect x) : NoDefect (x.map f) := by
  cases x with
  | error e => exact error fun defect he => hx defect (congrArg Except.error he)
  | ok a => exact ok (f a)

theorem bind {f : α → Except LinkError β} (hx : NoDefect x)
    (hf : ∀ a, x = .ok a → NoDefect (f a)) : NoDefect (x >>= f) := by
  intro defect h
  rcases except_bind_eq_error.mp h with he | ⟨a, ha, hfa⟩
  · exact hx defect he
  · exact hf a ha defect hfa

theorem mapM {f : α → Except LinkError β} (hf : ∀ a, NoDefect (f a)) (l : List α) :
    NoDefect (l.mapM f) := by
  induction l with
  | nil => exact ok []
  | cons a rest ih =>
    rw [List.mapM_cons]
    refine (hf a).bind fun b _ => ?_
    exact ih.bind fun bs _ => ok (b :: bs)

end NoDefect

/-! ## Reading modules -/

namespace Module

open Directive

variable (name : String)

theorem noDefect_readModulePriority (fallback : Int64) (lines : List String) :
    NoDefect (readModulePriority name fallback lines) := by
  match lines with
  | [] => exact .ok fallback
  | [line] =>
    rw [readModulePriority]
    split
    · exact .ok _
    · exact .error (by simp)
  | _ :: _ :: _ => exact .error (by simp)

theorem noDefect_bindingLexical (line : String) (side : Side) (marker : String) (b : Binding) :
    NoDefect (bindingLexical name line side marker b) := by
  cases side with
  | grammar => exact .ok b.lexical
  | lexicon =>
    rw [bindingLexical]
    split
    · exact .error (by simp [lineError])
    · exact .ok true

theorem noDefect_importsOf (line : String) (side : Side) (d : ImportDirective) :
    NoDefect (importsOf name line side d) := by
  rw [importsOf]
  split
  · exact .ok _
  · refine .mapM (fun b => ?_) d.bindings
    exact (noDefect_bindingLexical name line side b.name b).bind fun lexical _ => .ok _

theorem noDefect_exportsOf (line : String) (side : Side) (d : ExportDirective) :
    NoDefect (exportsOf name line side d) := by
  refine .mapM (fun b => ?_) d.bindings
  exact (noDefect_bindingLexical name line side b.knownAs b).bind fun lexical _ => .ok _

theorem noDefect_readStatement (side : Side) (kind : Kind) (line : String) :
    NoDefect (readStatement name side kind line) := by
  rw [readStatement]
  split
  · exact .ok _
  · -- a line that is no directive of its kind, and the four kinds of directives
    split
    · exact .error (by simp [lineError])
    · exact .ok _
    · exact (noDefect_importsOf name line side _).map
    · exact (noDefect_exportsOf name line side _).map
    · exact .ok _

theorem noDefect_readStatements (side : Side) (lines : List (Kind × String)) :
    NoDefect (readStatements name side lines) := by
  induction lines with
  | nil => exact .ok _
  | cons line rest ih =>
    obtain ⟨kind, text⟩ := line
    refine (noDefect_readStatement name side kind text).bind fun first _ => ?_
    exact ih.bind fun more _ => .ok _

theorem noDefect_chooseLexicon (source : Source) : NoDefect (chooseLexicon name source) := by
  rw [chooseLexicon]
  split
  · exact .error (by simp)
  · exact .ok _
  · exact .ok _

theorem noDefect_ofSource (source : Source) (fallback : Int64) :
    NoDefect (ofSource name source fallback) := by
  unfold ofSource
  split
  · exact .error (by simp)
  · -- the stages that can fail, in their order
    refine NoDefect.bind (noDefect_chooseLexicon name source) fun lexicon _ => ?_
    refine NoDefect.bind (noDefect_readModulePriority name fallback _) fun priority _ => ?_
    refine NoDefect.bind (noDefect_readStatements name .grammar _) fun inGrammar _ => ?_
    exact NoDefect.bind (noDefect_readStatements name .lexicon _) fun inLexicon _ => .ok _

end Module

/-! ## Finding modules -/

theorem Survey.Method.noDefect_load (method : Survey.Method) (path : String) :
    NoDefect (method.load path) := by
  rw [Survey.Method.load]
  split
  · exact .error (by simp)
  · exact .error (by simp)
  · exact (Module.noDefect_ofSource path _ method.fallback).map

theorem Library.noDefect_survey (library : Library) (entry : String) (fallback : Int64) :
    NoDefect (library.survey entry fallback) := by
  intro defect h
  -- what fails is the fetching of a single module
  obtain ⟨s, -, -, hadvance⟩ := surveyFrom_eq_error_iff.mp h
  obtain ⟨path, -, hload⟩ :=
    Survey.Method.exists_load_eq_error (Survey.advance_eq_error_iff.mp hadvance)
  exact Survey.Method.noDefect_load (library.method fallback) path defect hload

/-! ## Looking up -/

/-- The graph of some modules has a node of a name, and the name has its place. -/
def HasNode (modules : List Module) (name : String) : Prop :=
  ∃ place, (ImportGraph.places (ImportGraph.ofModules modules).nodes).get? name = some place ∧
    ((ImportGraph.ofModules modules).nodes[place]?).map ImportGraph.Node.name = some name

/-- All that linking looks up among some modules is there. -/
structure Provided (entry : String) (modules : List Module) : Prop where
  /-- The composition finds the entry. -/
  entry : ∃ m, modules.find? (fun m => m.name == entry) = some m
  /-- Every module has a node in the graph. -/
  nodes : ∀ m ∈ modules, HasNode modules m.name
  /-- So has everything that is imported. -/
  importedNodes : ∀ m ∈ modules, ∀ i ∈ m.imports, HasNode modules i.origin
  /-- After validation every module has its renaming, whatever qualifiers have been given. -/
  renamings : ∀ index, ExportIndex.validate modules = .ok index → ∀ m ∈ modules, ∀ naming,
    ∃ r, (Renaming.ofModule index m naming).1 = .ok r

theorem hasNode_of_mem {modules : List Module} {name : String}
    (h : name ∈ modules.map Module.name) : HasNode modules name := by
  obtain ⟨m, hm, rfl⟩ := List.mem_map.mp h
  let nodes := (ImportGraph.ofModules modules).nodes
  have hplace : (ImportGraph.places nodes).get? m.name =
      (nodes.zipIdx.reverse.find? fun p => decide (p.1.name = m.name)).map Prod.snd :=
    Table.get?_ofList_map (fun p : ImportGraph.Node × Nat => p.1.name) Prod.snd nodes.zipIdx
  -- one of the numbered nodes has the name, so the search ends with such a node
  have hnode : (⟨m.name, m.priority⟩ : ImportGraph.Node) ∈ nodes := List.mem_map_of_mem hm
  obtain ⟨k, hk⟩ := List.mem_iff_getElem?.mp hnode
  have hnumbered : ((⟨m.name, m.priority⟩ : ImportGraph.Node), k) ∈ nodes.zipIdx.reverse := by
    rw [List.mem_reverse, List.mem_zipIdx_iff_getElem?]
    exact hk
  cases hfind : nodes.zipIdx.reverse.find? fun p => decide (p.1.name = m.name) with
  | none => exact absurd (List.find?_eq_none.mp hfind _ hnumbered) (by simp)
  | some p =>
    have hname : p.1.name = m.name := by simpa using List.find?_some hfind
    have hat : nodes[p.2]? = some p.1 := by
      have hp := List.mem_of_find?_eq_some hfind
      rw [List.mem_reverse, List.mem_zipIdx_iff_getElem?] at hp
      exact hp
    refine ⟨p.2, ?_, ?_⟩
    · rw [hplace, hfind, Option.map_some]
    · rw [hat, Option.map_some, hname]

/-- The imports of a module have global names if each of them has an export, and asking for
qualifiers does not get in the way. -/
theorem exists_importedNames {index : ExportIndex} (importer : String) {imports : List Import}
    (hfound : ∀ i ∈ imports, ∃ e, index.find? i = some e) (naming : Naming) :
    ∃ names, (Renaming.importedNames index importer imports naming).1 = .ok names := by
  induction imports generalizing naming with
  | nil => exact ⟨[], rfl⟩
  | cons i rest ih =>
    obtain ⟨e, he⟩ := hfound i (List.mem_cons_self ..)
    -- asking for the qualifier of the exporter changes the naming, but that is all the same here
    obtain ⟨names, hnames⟩ := ih (fun j hj => hfound j (List.mem_cons_of_mem _ hj))
      (naming.qualifierFor i.origin).2
    refine ⟨(i.localName, (naming.qualifierFor i.origin).1 ++ e.localName) :: names, ?_⟩
    rw [Renaming.importedNames, he]
    simp only [hnames]
    rfl

theorem exists_renaming_of_validate {modules : List Module} {index : ExportIndex}
    (hindex : ExportIndex.validate modules = .ok index) {m : Module} (hm : m ∈ modules)
    (naming : Naming) : ∃ r, (Renaming.ofModule index m naming).1 = .ok r := by
  obtain ⟨hvalid, rfl⟩ := ExportIndex.validate_eq_ok_iff.mp hindex
  have hfound : ∀ i ∈ m.boundImports, ∃ e, (ExportIndex.ofModules modules).find? i = some e := by
    intro i hi
    rw [ExportIndex.find?_ofModules]
    exact ExportIndex.exists_export?_of_valid hvalid hm hi
  obtain ⟨names, hnames⟩ :=
    exists_importedNames m.name hfound (naming.qualifierFor m.name).2
  refine ⟨⟨(naming.qualifierFor m.name).1, .ofList names⟩, ?_⟩
  simp only [Renaming.ofModule, hnames]
  rfl

theorem Library.provided_of_survey {library : Library} {entry : String} {fallback : Int64}
    {modules : List Module} (h : library.survey entry fallback = .ok modules) :
    Provided (library.pathRule none entry) modules := by
  obtain ⟨hentry, hclosed, -⟩ := closed_of_survey h
  constructor
  · obtain ⟨m, hm, hname⟩ := List.mem_map.mp hentry
    exact Option.isSome_iff_exists.mp (List.find?_isSome.mpr ⟨m, hm, by simp [hname]⟩)
  · intro m hm
    exact hasNode_of_mem (List.mem_map_of_mem hm)
  · intro m hm i hi
    exact hasNode_of_mem (hclosed m hm i hi)
  · intro index hindex m hm naming
    exact exists_renaming_of_validate hindex hm naming

/-! ## Linking -/

theorem noDefect_linkModules {helper entry : String} {modules : List Module}
    {refusal : MacroReference.Refusal} (haccepted : NoneRefused refusal modules)
    (hentry : ∃ m, modules.find? (fun m => m.name == entry) = some m) :
    NoDefect (linkModules helper entry modules refusal) := by
  intro defect h
  -- only the failure about the entry is a defect
  cases (linkModules_eq_error_iff haccepted).mp h with
  | entryNotLoaded _ _ habsent =>
    obtain ⟨m, hm⟩ := hentry
    exact habsent m (List.mem_of_find?_eq_some hm) (by simpa using List.find?_some hm)

/-- A full link without a change to the modules ends in no defect, whatever the sources, the path
rule, the entry and the priority are, and finds whatever it looks up. -/
theorem link_no_defect (library : Library) (entry : String) {o : Options}
    (hplain : o.preprocess = none) :
    (∀ defect, library.link entry o ≠ .error (.internal defect)) ∧
      ∀ modules, library.load entry o = .ok modules →
        Provided (library.pathRule none entry) modules := by
  -- what has been found is what is linked
  have hsame : ∀ modules, o.applyPreprocess modules = modules := by
    intro modules
    rw [Options.applyPreprocess, hplain]
  constructor
  · refine (library.noDefect_survey entry o.fallbackPriority).bind fun modules hmodules => ?_
    rw [Options.link, hsame]
    exact noDefect_linkModules (noneRefused_never _) (Library.provided_of_survey hmodules).entry
  · intro modules hmodules
    cases hsurvey : library.survey entry o.fallbackPriority with
    | error e =>
      rw [Library.load, hsurvey] at hmodules
      cases hmodules
    | ok found =>
      rw [Library.load, hsurvey] at hmodules
      cases hmodules
      rw [hsame]
      exact Library.provided_of_survey hsurvey

/-- Modules in files that import themselves and each other, under several spellings. -/
def cyclicLibrary : Library where
  pathRule := FileLayout.resolve {}
  sources := .ofList [
    ("dir/main", .ok { grammar := {
      rules := .ofList [("top", [⟨"item", none, none⟩])]
      directives := ["%import { item } from \"./lib\"", "%import \"./main\""] } }),
    ("dir/lib", .ok { grammar := {
      rules := .ofList [("item", [⟨"WORD", none, none⟩])]
      directives := ["%export { item }", "%import \"../dir/./main\""] } })]

theorem cyclicLibrary_link_no_defect :
    ∃ modules, cyclicLibrary.load "./dir/main" {} = .ok modules ∧
      modules.map Module.name = ["dir/main", "dir/lib"] ∧ Provided "dir/main" modules ∧
      ∀ defect, cyclicLibrary.link "./dir/main" {} ≠ .error (.internal defect) := by
  have hnames : (cyclicLibrary.load "./dir/main" {}).toOption.map (List.map Module.name) =
      some ["dir/main", "dir/lib"] := by decide +kernel
  have hentry : cyclicLibrary.pathRule none "./dir/main" = "dir/main" := by decide +kernel
  have hnodefect := link_no_defect cyclicLibrary "./dir/main" (o := {}) rfl
  cases hload : cyclicLibrary.load "./dir/main" {} with
  | error e =>
    rw [hload] at hnames
    cases hnames
  | ok modules =>
    rw [hload] at hnames
    have hprovided := hnodefect.2 modules hload
    rw [hentry] at hprovided
    exact ⟨modules, rfl, Option.some.inj hnames, hprovided, hnodefect.1⟩

end ModularGrammar
