import Mathlib.Logic.Relation
import ModularGrammar.Survey

/-!
# Runs of Surveys

A survey goes level by level.  Here its levels are the steps of a relation, so that what one level
preserves holds of all that a survey can reach, and a search is told by where its steps lead: to a
survey with nothing left to fetch, or to a level that cannot be fetched.

## Architecture

1. `newPaths`, `Method.loadAll`: what one level is made of
2. `Survey.Steps`: one level
3. `Library.surveyFrom_eq_ok_iff`, `Library.surveyFrom_eq_error_iff`: a search by its steps
4. `Survey.Covering`: what holds at every level, one step and a whole run
-/

namespace ModularGrammar

namespace Survey

/-! ## One level -/

theorem mem_newPaths_iff {seen paths : List String} {path : String} :
    path ∈ newPaths seen paths ↔ path ∈ paths ∧ path ∉ seen := by
  induction paths generalizing seen with
  | nil => simp [newPaths]
  | cons p rest ih =>
    rw [newPaths]
    split
    · next hseen =>
      rw [ih, List.mem_cons]
      constructor
      · exact fun h => ⟨Or.inr h.1, h.2⟩
      · rintro ⟨rfl | hrest, hnew⟩
        · exact absurd hseen hnew
        · exact ⟨hrest, hnew⟩
    · next hnew =>
      rw [List.mem_cons, ih, List.mem_cons, List.mem_cons]
      -- the head is new, and the rest is new beside the head
      constructor
      · rintro (rfl | ⟨hrest, hother⟩)
        · exact ⟨Or.inl rfl, hnew⟩
        · exact ⟨Or.inr hrest, fun h => hother (Or.inr h)⟩
      · rintro ⟨rfl | hrest, hother⟩
        · exact Or.inl rfl
        · by_cases hp : path = p
          · exact Or.inl hp
          · exact Or.inr ⟨hrest, fun h => h.elim hp hother⟩

namespace Method

variable {method : Method} {paths : List String}

/-- The module at a path is the one that its documents give, with its imports resolved. -/
theorem load_eq_ok_iff {path : String} {m : Module} : method.load path = .ok m ↔
    ∃ source written, method.fetch path = .ok (some source) ∧
      Module.ofSource path source method.fallback = .ok written ∧
      m = written.resolveImports method.pathRule := by
  rw [load]
  split
  · next failure hfetch => simp [hfetch]
  · next hfetch => simp [hfetch]
  · next source hfetch =>
    cases hwritten : Module.ofSource path source method.fallback with
    | error e => simp [hfetch, hwritten, Except.map]
    | ok written => simp [hfetch, hwritten, Except.map, eq_comm]

/-- Some paths are fetched one after the other, until one of them cannot be. -/
theorem map_val_loadAll (method : Method) (paths : List String) :
    (method.loadAll paths).map Subtype.val = paths.mapM method.load := by
  induction paths with
  | nil => rfl
  | cons path rest ih =>
    rw [loadAll, List.mapM_cons, ← ih]
    split
    · next e hfirst => simp [hfirst, Except.map, bind, Except.bind]
    · next first hfirst =>
      simp only [hfirst, bind, Except.bind]
      cases method.loadAll rest with
      | error e => rfl
      | ok more => rfl

/-- What is fetched at some paths is what is fetched at each of them. -/
theorem load_of_mem_loadAll {ms : { ms : List Module // ms.map Module.name = paths }}
    (h : method.loadAll paths = .ok ms) {m : Module} (hm : m ∈ ms.1) :
    method.load m.name = .ok m := by
  induction paths with
  | nil =>
    -- the names of the modules are the paths, of which there is none
    have hnone : ms.1 = [] := List.map_eq_nil_iff.mp ms.2
    rw [hnone] at hm
    cases hm
  | cons path rest ih =>
    rw [loadAll] at h
    split at h
    · cases h
    · next first hfirst =>
      split at h
      · cases h
      · next more hmore =>
        cases h
        rcases List.mem_cons.mp hm with rfl | hm
        · rw [name_of_load hfirst, hfirst]
        · exact ih hmore hm

/-- Some paths cannot be fetched because one of them cannot. -/
theorem exists_load_eq_error {e : LinkError} (h : method.loadAll paths = .error e) :
    ∃ path ∈ paths, method.load path = .error e := by
  induction paths with
  | nil => cases h
  | cons path rest ih =>
    rw [loadAll] at h
    split at h
    · next e' hfirst =>
      cases h
      exact ⟨path, List.mem_cons_self .., hfirst⟩
    · split at h
      · next e' hmore =>
        cases h
        obtain ⟨p, hp, hload⟩ := ih hmore
        exact ⟨p, List.mem_cons_of_mem _ hp, hload⟩
      · cases h

end Method

theorem advance_eq_ok_iff {method : Method} {s s' : Survey} :
    s.advance method = .ok s' ↔
      ∃ ms, method.loadAll s.frontier = .ok ms ∧ s' = s.extend ms.1 ms.2 := by
  rw [advance]
  cases method.loadAll s.frontier with
  | error e => simp [Except.map]
  | ok ms => simp [Except.map, eq_comm]

theorem advance_eq_error_iff {method : Method} {s : Survey} {e : LinkError} :
    s.advance method = .error e ↔ method.loadAll s.frontier = .error e := by
  rw [advance]
  cases method.loadAll s.frontier with
  | error e' => simp [Except.map]
  | ok ms => simp [Except.map]

/-- A survey with something left to fetch goes one level further. -/
def Steps (method : Method) (s s' : Survey) : Prop :=
  s.frontier ≠ [] ∧ s.advance method = .ok s'

/-- A survey goes any number of levels further. -/
abbrev Reaches (method : Method) : Survey → Survey → Prop :=
  Relation.ReflTransGen (Steps method)

end Survey

/-! ## Searches -/

namespace Library

variable {library : Library} {fallback : Int64} {s s' : Survey} {e : LinkError}
  {modules : List Module}

theorem surveyFrom_of_frontier (h : s.frontier = []) :
    library.surveyFrom fallback s = .ok s.loaded := by
  rw [surveyFrom, dif_pos h]

theorem surveyFrom_of_error (hne : s.frontier ≠ [])
    (h : s.advance (library.method fallback) = .error e) :
    library.surveyFrom fallback s = .error e := by
  rw [surveyFrom, dif_neg hne]
  split
  · next e' he =>
    rw [h] at he
    rw [Except.error.inj he]
  · next s' hs =>
    rw [h] at hs
    cases hs

theorem surveyFrom_of_steps (h : Survey.Steps (library.method fallback) s s') :
    library.surveyFrom fallback s = library.surveyFrom fallback s' := by
  obtain ⟨hne, hadvance⟩ := h
  rw [surveyFrom, dif_neg hne]
  split
  · next e he =>
    rw [hadvance] at he
    cases he
  · next s'' hs =>
    rw [hadvance] at hs
    rw [Except.ok.inj hs]

theorem surveyFrom_of_reaches (h : Survey.Reaches (library.method fallback) s s') :
    library.surveyFrom fallback s = library.surveyFrom fallback s' := by
  induction h with
  | refl => rfl
  | tail _ hstep ih => rw [ih, surveyFrom_of_steps hstep]

/-- Every search goes on until nothing is left to fetch or a level cannot be fetched. -/
theorem exists_reaches (library : Library) (fallback : Int64) (s : Survey) :
    ∃ s', Survey.Reaches (library.method fallback) s s' ∧
      (s'.frontier = [] ∨
        s'.frontier ≠ [] ∧ ∃ e, s'.advance (library.method fallback) = .error e) := by
  -- the search itself is the induction: each case is one way in which it goes on or ends
  induction s using Library.surveyFrom.induct library fallback with
  | case1 s hempty => exact ⟨s, .refl, Or.inl hempty⟩
  | case2 s hne e he => exact ⟨s, .refl, Or.inr ⟨hne, e, he⟩⟩
  | case3 s hne s' hs ih =>
    obtain ⟨last, hreaches, hlast⟩ := ih
    exact ⟨last, .head ⟨hne, hs⟩ hreaches, hlast⟩

/-- A search finds modules exactly if it reaches a survey that has found them and has nothing left
to fetch. -/
theorem surveyFrom_eq_ok_iff : library.surveyFrom fallback s = .ok modules ↔
    ∃ s', Survey.Reaches (library.method fallback) s s' ∧ s'.frontier = [] ∧
      s'.loaded = modules := by
  constructor
  · intro h
    obtain ⟨s', hreaches, hempty | ⟨hne, e, he⟩⟩ := exists_reaches library fallback s
    · rw [surveyFrom_of_reaches hreaches, surveyFrom_of_frontier hempty] at h
      exact ⟨s', hreaches, hempty, Except.ok.inj h⟩
    · rw [surveyFrom_of_reaches hreaches, surveyFrom_of_error hne he] at h
      cases h
  · rintro ⟨s', hreaches, hempty, rfl⟩
    rw [surveyFrom_of_reaches hreaches, surveyFrom_of_frontier hempty]

/-- A search fails exactly if it reaches a level that cannot be fetched, and fails as this does. -/
theorem surveyFrom_eq_error_iff : library.surveyFrom fallback s = .error e ↔
    ∃ s', Survey.Reaches (library.method fallback) s s' ∧ s'.frontier ≠ [] ∧
      s'.advance (library.method fallback) = .error e := by
  constructor
  · intro h
    obtain ⟨s', hreaches, hempty | ⟨hne, e', he⟩⟩ := exists_reaches library fallback s
    · rw [surveyFrom_of_reaches hreaches, surveyFrom_of_frontier hempty] at h
      cases h
    · rw [surveyFrom_of_reaches hreaches, surveyFrom_of_error hne he] at h
      cases h
      exact ⟨s', hreaches, hne, he⟩
  · rintro ⟨s', hreaches, hne, he⟩
    rw [surveyFrom_of_reaches hreaches, surveyFrom_of_error hne he]

end Library

/-! ## What every level preserves -/

namespace Survey

/-- What has been found or is to be fetched next. -/
def known (s : Survey) : List String := s.loaded.map Module.name ++ s.frontier

/-- What holds of a survey, however far it has gone. -/
structure Covering (method : Method) (entry : String) (s : Survey) : Prop where
  /-- The entry has not been forgotten. -/
  entry : entry ∈ s.known
  /-- Nothing that a module imports has been forgotten. -/
  imports : ∀ m ∈ s.loaded, ∀ i ∈ m.imports, i.origin ∈ s.known
  /-- Every module is the one at its path. -/
  loads : ∀ m ∈ s.loaded, method.load m.name = .ok m

theorem covering_start (method : Method) (entry : String) :
    Covering method entry (start entry) where
  entry := List.mem_singleton_self entry
  imports := by
    intro m hm
    cases hm
  loads := by
    intro m hm
    cases hm

variable {method : Method} {entry : String} {s s' : Survey}

/-- If nothing is left to fetch, what is known has been found. -/
theorem known_of_frontier (h : s.frontier = []) : s.known = s.loaded.map Module.name := by
  rw [known, h, List.append_nil]

/-- One level finds the modules of the frontier, and is to fetch what these import next. -/
theorem exists_loadAll_of_steps (h : Steps method s s') :
    ∃ ms, method.loadAll s.frontier = .ok ms ∧ s'.loaded = s.loaded ++ ms.1 ∧
      s'.frontier = newPaths s.known (ms.1.flatMap fun m => m.imports.map Import.origin) := by
  obtain ⟨ms, hms, rfl⟩ := advance_eq_ok_iff.mp h.2
  have hseen : (s.loaded ++ ms.1).map Module.name = s.known := by
    rw [List.map_append, ms.2, known]
  refine ⟨ms, hms, rfl, ?_⟩
  rw [← hseen]
  rfl

/-- What was known has been found one level later. -/
theorem map_name_loaded_of_steps (h : Steps method s s') :
    s'.loaded.map Module.name = s.known := by
  obtain ⟨ms, -, hloaded, -⟩ := exists_loadAll_of_steps h
  rw [hloaded, List.map_append, ms.2, known]

/-- What was known stays known, and what a level leads to comes behind it. -/
theorem known_of_steps (h : Steps method s s') : s'.known = s.known ++ s'.frontier := by
  rw [known, map_name_loaded_of_steps h]

theorem known_prefix_of_reaches (h : Reaches method s s') : s.known <+: s'.known := by
  induction h with
  | refl => exact List.prefix_refl _
  | tail _ hstep ih =>
    rw [known_of_steps hstep]
    exact ih.trans (List.prefix_append _ _)

theorem Covering.of_steps (hcovering : Covering method entry s) (h : Steps method s s') :
    Covering method entry s' := by
  have hknown : s.known ⊆ s'.known := by
    rw [known_of_steps h]
    exact List.subset_append_left _ _
  obtain ⟨-, hadvance⟩ := h
  obtain ⟨ms, hms, rfl⟩ := advance_eq_ok_iff.mp hadvance
  constructor
  · exact hknown hcovering.entry
  · intro m hm i hi
    rcases List.mem_append.mp hm with hold | hnew
    · exact hknown (hcovering.imports m hold i hi)
    · -- an import of a new module has been seen before or is fetched next
      by_cases hseen : i.origin ∈ (s.loaded ++ ms.1).map Module.name
      · exact List.mem_append_left _ hseen
      · apply List.mem_append_right
        apply mem_newPaths_iff.mpr
        refine ⟨?_, hseen⟩
        exact List.mem_flatMap.mpr ⟨m, hnew, List.mem_map_of_mem hi⟩
  · intro m hm
    rcases List.mem_append.mp hm with hold | hnew
    · exact hcovering.loads m hold
    · exact Method.load_of_mem_loadAll hms hnew

theorem Covering.of_reaches (hcovering : Covering method entry s) (h : Reaches method s s') :
    Covering method entry s' := by
  induction h with
  | refl => exact hcovering
  | tail _ hstep ih => exact ih.of_steps hstep

end Survey

namespace Library

variable {library : Library} {entry : String} {fallback : Int64} {modules : List Module}

/-- What a survey finds is closed under imports: the entry is among the modules, and so is
everything that one of them imports.  Each module is the one at its path. -/
theorem closed_of_survey (h : library.survey entry fallback = .ok modules) :
    library.pathRule none entry ∈ modules.map Module.name ∧
      (∀ m ∈ modules, ∀ i ∈ m.imports, i.origin ∈ modules.map Module.name) ∧
      ∀ m ∈ modules, (library.method fallback).load m.name = .ok m := by
  obtain ⟨s, hreaches, hempty, rfl⟩ := surveyFrom_eq_ok_iff.mp h
  have hcovering := (Survey.covering_start _ _).of_reaches hreaches
  rw [← Survey.known_of_frontier hempty]
  exact ⟨hcovering.entry, hcovering.imports, hcovering.loads⟩

end Library

end ModularGrammar
