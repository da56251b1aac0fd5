import ModularGrammar.Proofs.Requests

/-!
# What a Survey Finds

A survey finds the modules that the entry reaches through imports, each of them once, and it fails
exactly if one of them cannot be had.

## Architecture

1. `Library.Holds`, `Library.Imports`, `Library.Reachable`: the modules of a library, what they
   import, and what is reached that way
2. `reachable_of_reaches`: what a survey knows of is reachable, at every level
3. `Surveyed`: a list of modules that is complete
4. `survey_reachable`: when a survey succeeds, and what it finds
-/

namespace ModularGrammar

namespace Library

/-! ## Reachable modules -/

/-- The documents at a path can be read, and are those of the module `m` with its imports as they
are written. -/
def Holds (library : Library) (fallback : Int64) (path : String) (m : Module) : Prop :=
  ∃ source, library.sources.get? path = some (.ok source) ∧
    Module.ofSource path source fallback = .ok m

/-- The module at a path imports the one at another path. -/
def Imports (library : Library) (fallback : Int64) (importer imported : String) : Prop :=
  ∃ m, library.Holds fallback importer m ∧
    ∃ i ∈ m.imports, library.pathRule (some importer) i.origin = imported

/-- A path is reached from another one through any number of imports. -/
def Reachable (library : Library) (fallback : Int64) : String → String → Prop :=
  Relation.ReflTransGen (library.Imports fallback)

variable {library : Library} {fallback : Int64} {root path : String} {m : Module}

theorem fetch_eq_ok_some_iff {source : Source} : library.fetch path = .ok (some source) ↔
    library.sources.get? path = some (.ok source) := by
  rw [fetch]
  split
  · next hget => simp [hget]
  · next found hget => simp [hget]
  · next failure hget => simp [hget]

theorem load_eq_ok_iff : (library.method fallback).load path = .ok m ↔
    ∃ written, library.Holds fallback path written ∧
      m = written.resolveImports library.pathRule := by
  rw [Survey.Method.load_eq_ok_iff]
  constructor
  · rintro ⟨source, written, hfetch, hwritten, rfl⟩
    exact ⟨written, ⟨source, fetch_eq_ok_some_iff.mp hfetch, hwritten⟩, rfl⟩
  · rintro ⟨written, ⟨source, hget, hwritten⟩, rfl⟩
    exact ⟨source, written, fetch_eq_ok_some_iff.mpr hget, hwritten, rfl⟩

theorem resolveImports_verbatim (m : Module) : m.resolveImports PathRule.verbatim = m := by
  simp [Module.resolveImports, PathRule.verbatim]

/-- If paths are names of modules, modules are had as they are held. -/
theorem load_eq_ok_iff_holds (hverbatim : library.pathRule = PathRule.verbatim) :
    (library.method fallback).load path = .ok m ↔ library.Holds fallback path m := by
  rw [load_eq_ok_iff, hverbatim]
  simp only [resolveImports_verbatim, exists_eq_right']

/-- A module that has been had imports what its imports have been resolved to. -/
theorem imports_iff_of_load {imported : String} (h : (library.method fallback).load path = .ok m) :
    library.Imports fallback path imported ↔ ∃ i ∈ m.imports, i.origin = imported := by
  obtain ⟨written, ⟨source, hget, hwritten⟩, rfl⟩ := load_eq_ok_iff.mp h
  have hname := Module.name_of_ofSource hwritten
  constructor
  · rintro ⟨other, ⟨source', hget', hother⟩, i, hi, rfl⟩
    -- there is only one module at the path
    rw [hget] at hget'
    cases hget'
    rw [hwritten] at hother
    cases hother
    refine ⟨_, List.mem_map_of_mem hi, ?_⟩
    rw [hname]
  · rintro ⟨i, hi, rfl⟩
    obtain ⟨j, hj, rfl⟩ := List.mem_map.mp hi
    refine ⟨written, ⟨source, hget, hwritten⟩, j, hj, ?_⟩
    rw [hname]

/-! ## What every level preserves -/

/-- What a level leads to is imported by one of its modules. -/
theorem exists_imports_of_steps {s s' : Survey}
    (h : Survey.Steps (library.method fallback) s s') (hpath : path ∈ s'.frontier) :
    ∃ importer ∈ s.frontier, library.Imports fallback importer path := by
  obtain ⟨ms, hms, -, hfrontier⟩ := Survey.exists_loadAll_of_steps h
  rw [hfrontier] at hpath
  obtain ⟨m, hm, hi⟩ := List.mem_flatMap.mp (Survey.mem_newPaths_iff.mp hpath).1
  have hload := Survey.Method.load_of_mem_loadAll hms hm
  exact ⟨m.name, ms.2 ▸ List.mem_map_of_mem hm,
    (imports_iff_of_load hload).mpr (List.mem_map.mp hi)⟩

/-- What a module imports that has been found is known. -/
theorem mem_known_of_imports {s : Survey} {importer : String}
    (hcovering : Survey.Covering (library.method fallback) root s)
    (hfound : importer ∈ s.loaded.map Module.name)
    (himports : library.Imports fallback importer path) : path ∈ s.known := by
  obtain ⟨m, hm, rfl⟩ := List.mem_map.mp hfound
  obtain ⟨i, hi, rfl⟩ := (imports_iff_of_load (hcovering.loads m hm)).mp himports
  exact hcovering.imports m hm i hi

/-- A survey knows of reachable paths only. -/
theorem reachable_of_reaches {s : Survey}
    (h : Survey.Reaches (library.method fallback) (.start root) s) :
    ∀ path ∈ s.known, library.Reachable fallback root path := by
  induction h with
  | refl =>
    intro path hpath
    cases List.mem_singleton.mp hpath
    exact .refl
  | tail _ hstep ih =>
    intro path hpath
    rw [Survey.known_of_steps hstep, List.mem_append] at hpath
    rcases hpath with hknown | hnew
    · exact ih path hknown
    · obtain ⟨importer, hlevel, himports⟩ := exists_imports_of_steps hstep hnew
      exact (ih importer (List.mem_append_right _ hlevel)).tail himports

/-! ## Surveys -/

/-- The modules are all that the entry needs. -/
structure Surveyed (library : Library) (fallback : Int64) (entry : String)
    (modules : List Module) : Prop where
  /-- The entry comes first. -/
  head : (modules.map Module.name).head? = some (library.pathRule none entry)
  distinct : (modules.map Module.name).Nodup
  reachable : ∀ path, path ∈ modules.map Module.name ↔
    library.Reachable fallback (library.pathRule none entry) path
  /-- Every module is the one that its documents give, with its imports resolved. -/
  contents : ∀ m ∈ modules, ∃ written, library.Holds fallback m.name written ∧
    m = written.resolveImports library.pathRule
  closed : ∀ m ∈ modules, ∀ i ∈ m.imports, i.origin ∈ modules.map Module.name
  /-- Every module has been asked for, and nothing else. -/
  requested : library.requests entry fallback = modules.map Module.name

theorem surveyed_of_survey {entry : String} {modules : List Module}
    (h : library.survey entry fallback = .ok modules) :
    library.Surveyed fallback entry modules := by
  obtain ⟨-, hclosed, hloads⟩ := closed_of_survey h
  have hrequests := requests_of_survey h
  have hdistinct := nodup_requests library entry fallback
  rw [hrequests] at hdistinct
  obtain ⟨s, hreaches, hempty, rfl⟩ := surveyFrom_eq_ok_iff.mp h
  have hcovering := (Survey.covering_start _ _).of_reaches hreaches
  -- nothing is waiting in the end, so what is known is what has been found
  have hknown := Survey.known_of_frontier hempty
  refine ⟨?_, hdistinct, ?_, ?_, hclosed, hrequests⟩
  · obtain ⟨rest, hrest⟩ := Survey.known_prefix_of_reaches hreaches
    rw [← hknown, ← hrest]
    rfl
  · intro path
    constructor
    · intro hpath
      rw [← hknown] at hpath
      exact reachable_of_reaches hreaches path hpath
    · intro hpath
      rw [← hknown]
      -- by induction on the path: the imports of what is known are known
      induction hpath with
      | refl => exact hcovering.entry
      | tail _ himports ih => exact mem_known_of_imports hcovering (hknown ▸ ih) himports
  · intro m hm
    exact load_eq_ok_iff.mp (hloads m hm)

/-- Surveying an entry ends after no more levels than the library has sources, and asks for no path
twice.  It succeeds exactly if the library holds a module at every path that the entry reaches, and
then finds exactly these modules. -/
theorem survey_reachable (library : Library) (entry : String) (fallback : Int64) :
    (∀ levels, library.sources.size < levels →
      Survey.within (library.method fallback) levels (.start (library.pathRule none entry)) =
        library.survey entry fallback) ∧
    (library.requests entry fallback).Nodup ∧
    ((∃ modules, library.survey entry fallback = .ok modules) ↔
      ∀ path, library.Reachable fallback (library.pathRule none entry) path →
        ∃ m, library.Holds fallback path m) ∧
    ∀ modules, library.survey entry fallback = .ok modules →
      library.Surveyed fallback entry modules := by
  refine ⟨fun levels => within_eq_survey library entry fallback,
    nodup_requests library entry fallback, ?_, fun modules => surveyed_of_survey⟩
  constructor
  · rintro ⟨modules, h⟩ path hpath
    have hsurveyed := surveyed_of_survey h
    obtain ⟨m, hm, rfl⟩ := List.mem_map.mp ((hsurveyed.reachable path).mpr hpath)
    obtain ⟨written, hwritten, -⟩ := hsurveyed.contents m hm
    exact ⟨written, hwritten⟩
  · intro hheld
    cases hsurvey : library.survey entry fallback with
    | ok modules => exact ⟨modules, rfl⟩
    | error e =>
      -- the survey would know of a path at which no module can be had
      obtain ⟨s, hreaches, -, hadvance⟩ := surveyFrom_eq_error_iff.mp hsurvey
      obtain ⟨path, hpath, hload⟩ :=
        Survey.Method.exists_load_eq_error (Survey.advance_eq_error_iff.mp hadvance)
      obtain ⟨written, hwritten⟩ :=
        hheld path (reachable_of_reaches hreaches path (List.mem_append_right _ hpath))
      rw [load_eq_ok_iff.mpr ⟨written, hwritten, rfl⟩] at hload
      cases hload

theorem diamondLibrary_survey_reachable :
    ∃ modules, diamondLibrary.survey "./main" defaultPriority = .ok modules ∧
      modules.map Module.name = ["main", "left", "right", "base"] ∧
      Survey.within (diamondLibrary.method defaultPriority) 5 (.start "main") = .ok modules ∧
      (∀ path, diamondLibrary.Reachable defaultPriority "main" path →
        ∃ m, diamondLibrary.Holds defaultPriority path m) ∧
      diamondLibrary.Surveyed defaultPriority "./main" modules := by
  obtain ⟨hwithin, -, hheld, hsurveyed⟩ :=
    survey_reachable diamondLibrary "./main" defaultPriority
  have hentry : diamondLibrary.pathRule none "./main" = "main" := by decide +kernel
  have hsize : diamondLibrary.sources.size < 5 := by decide +kernel
  rw [hentry] at hwithin hheld
  obtain ⟨modules, hmodules, hnames⟩ := exists_survey_diamondLibrary
  refine ⟨modules, hmodules, hnames, ?_, hheld.mp ⟨modules, hmodules⟩, hsurveyed modules hmodules⟩
  rw [hwithin 5 hsize, hmodules]

end Library

end ModularGrammar
