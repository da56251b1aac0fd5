import ModularGrammar.Library
import ModularGrammar.Module.Extraction

/-!
# Surveys

Finding all modules an entry needs: first the entry, then the modules its imports name, then those
that their imports name, level by level.  No module is asked for twice.

## Architecture

1. `Survey`: the modules found so far and those to be fetched next
2. `Survey.advance`: one level further
3. `Library.survey`: all levels, for a library; `Survey.within`: a bounded number of levels
-/

namespace ModularGrammar

/-! ## Fetching modules -/

/-- The module with its imports naming modules. -/
def Module.resolveImports (pathRule : PathRule) (m : Module) : Module :=
  { m with imports := m.imports.map fun i => { i with origin := pathRule (some m.name) i.origin } }

namespace Survey

/-- What is needed to find modules. -/
structure Method where
  pathRule : PathRule
  /-- The documents at a path. -/
  fetch : String → Except Failure (Option Source)
  /-- The priority of modules that declare none. -/
  fallback : Int64

/-- The module at a path. -/
def Method.load (method : Method) (path : String) : Except LinkError Module :=
  match method.fetch path with
  | .error failure => .error (.retrieval path failure)
  | .ok none => .error (.unknownModule path)
  | .ok (some source) =>
    (Module.ofSource path source method.fallback).map (Module.resolveImports method.pathRule)

/-- The module at a path has this path as its name. -/
theorem Method.name_of_load {method : Method} {path : String} {m : Module}
    (h : method.load path = .ok m) : m.name = path := by
  unfold Method.load at h
  split at h
  · simp at h
  · simp at h
  · next source _ =>
    cases hm : Module.ofSource path source method.fallback with
    | error e => simp [hm, Except.map] at h
    | ok m' =>
      simp only [hm, Except.map, Except.ok.injEq] at h
      subst h
      exact Module.name_of_ofSource (m := m') hm

/-- The modules at some paths, in the same order. -/
def Method.loadAll (method : Method) :
    (paths : List String) → Except LinkError { ms : List Module // ms.map Module.name = paths }
  | [] => .ok ⟨[], rfl⟩
  | path :: paths =>
    match h : method.load path with
    | .error e => .error e
    | .ok m =>
      match method.loadAll paths with
      | .error e => .error e
      | .ok ms => .ok ⟨m :: ms.1, by rw [List.map_cons, ms.2, Method.name_of_load h]⟩

/-- Modules are had at some paths only if one is had at each of them. -/
theorem Method.exists_load_of_loadAll {method : Method} {paths : List String}
    {ms : { ms : List Module // ms.map Module.name = paths }} (h : method.loadAll paths = .ok ms)
    {path : String} (hp : path ∈ paths) : ∃ m, method.load path = .ok m := by
  induction paths with
  | nil => simp at hp
  | cons p paths ih =>
    rw [Method.loadAll] at h
    split at h
    · simp at h
    · next m hm =>
      split at h
      · simp at h
      · next rest hr =>
        rcases List.mem_cons.1 hp with rfl | hp
        · exact ⟨m, hm⟩
        · exact ih hr hp

/-! ## Paths to be asked for -/

/-- The paths that have not been seen before, each once, in order. -/
def newPaths (seen : List String) : List String → List String
  | [] => []
  | path :: paths =>
    if path ∈ seen then newPaths seen paths else path :: newPaths (path :: seen) paths

/-- New paths have not been seen before. -/
theorem not_mem_of_mem_newPaths {seen paths : List String} {path : String}
    (h : path ∈ newPaths seen paths) : path ∉ seen := by
  induction paths generalizing seen with
  | nil => simp [newPaths] at h
  | cons p paths ih =>
    unfold newPaths at h
    split at h
    · exact ih h
    · next hp =>
      rcases List.mem_cons.1 h with rfl | hm
      · exact hp
      · exact fun hs => ih hm (List.mem_cons_of_mem _ hs)

/-- New paths are distinct. -/
theorem nodup_newPaths (seen paths : List String) : (newPaths seen paths).Nodup := by
  induction paths generalizing seen with
  | nil => simp [newPaths]
  | cons p paths ih =>
    unfold newPaths
    split
    · exact ih seen
    · refine List.nodup_cons.2 ⟨?_, ih _⟩
      intro hm
      exact not_mem_of_mem_newPaths hm (by simp)

end Survey

/-! ## Surveys -/

/-- The state of a search for modules. -/
structure Survey where
  /-- The modules found so far. -/
  loaded : List Module
  /-- The paths of the modules to be fetched next. -/
  frontier : List String
  /-- No path is asked for twice. -/
  distinct : (loaded.map Module.name ++ frontier).Nodup

namespace Survey

/-- What is to be fetched next has not been found. -/
theorem notMem_of_mem_frontier {s : Survey} {path : String} (h : path ∈ s.frontier) :
    path ∉ s.loaded.map Module.name := by
  intro hp
  exact (List.nodup_append.1 s.distinct).2.2 path hp path h rfl

/-- The survey that is to fetch the entry. -/
def start (entry : String) : Survey := ⟨[], [entry], by simp⟩

/-- The survey after the modules of the frontier have been fetched. -/
def extend (s : Survey) (ms : List Module) (h : ms.map Module.name = s.frontier) : Survey where
  loaded := s.loaded ++ ms
  frontier :=
    newPaths ((s.loaded ++ ms).map Module.name) (ms.flatMap fun m => m.imports.map Import.origin)
  distinct := by
    rw [List.nodup_append]
    refine ⟨?_, nodup_newPaths _ _, ?_⟩
    · rw [List.map_append, h]
      exact s.distinct
    · intro a ha b hb hab
      exact not_mem_of_mem_newPaths hb (hab ▸ ha)

/-- One level further. -/
def advance (method : Method) (s : Survey) : Except LinkError Survey :=
  (method.loadAll s.frontier).map fun ms => s.extend ms.1 ms.2

/-- At most the given number of levels. -/
def within (method : Method) : (levels : Nat) → Survey → Except LinkError (List Module)
  | 0, _ => .error (.internal .endlessSurvey)
  | levels + 1, s =>
    if s.frontier.isEmpty then .ok s.loaded else (s.advance method).bind (within method levels)

end Survey

/-! ## Libraries -/

namespace Library

def method (library : Library) (fallback : Int64) : Survey.Method :=
  ⟨library.pathRule, library.fetch, fallback⟩

/-- The paths of the library that have not been asked for. -/
def untouched (library : Library) (s : Survey) : List String :=
  library.sources.keys.filter fun path => path ∉ s.loaded.map Module.name

/-- A stricter filter that refuses a member the other one keeps leaves fewer members. -/
theorem length_filter_lt {α : Type} {p q : α → Bool} {l : List α} {a : α}
    (hpq : ∀ x, q x = true → p x = true) (ha : a ∈ l) (hp : p a = true) (hq : q a = false) :
    (l.filter q).length < (l.filter p).length := by
  induction l with
  | nil => simp at ha
  | cons x l ih =>
    have hle : (l.filter q).length ≤ (l.filter p).length := by
      rw [← List.countP_eq_length_filter, ← List.countP_eq_length_filter]
      exact List.countP_mono_left fun y _ => hpq y
    rcases List.mem_cons.1 ha with rfl | hm
    · simp only [List.filter_cons, hp, hq, if_true, Bool.false_eq_true, if_false,
        List.length_cons]
      omega
    · have hlt := ih hm
      by_cases hqx : q x = true
      · -- what the stricter filter keeps, the other one keeps as well
        simp only [List.filter_cons, hqx, hpq x hqx, if_true, List.length_cons]
        omega
      · simp only [List.filter_cons, hqx, Bool.false_eq_true, if_false]
        split
        · exact Nat.lt_succ_of_lt hlt
        · exact hlt

/-- A module can be had only at a path of the library. -/
theorem mem_keys_of_load {library : Library} {fallback : Int64} {path : String} {m : Module}
    (h : (library.method fallback).load path = .ok m) : path ∈ library.sources.keys := by
  unfold Survey.Method.load at h
  split at h
  · simp at h
  · simp at h
  · next source hs => exact mem_keys_of_fetch hs

/-- A survey that has found what another one was still to fetch has left fewer paths. -/
theorem untouched_lt {library : Library} {s s' : Survey} {path : String}
    (hkey : path ∈ library.sources.keys) (hpath : path ∈ s.frontier)
    (hkept : s.loaded.map Module.name ⊆ s'.loaded.map Module.name)
    (hfound : path ∈ s'.loaded.map Module.name) :
    (library.untouched s').length < (library.untouched s).length := by
  refine length_filter_lt (a := path) ?_ hkey ?_ ?_
  · intro x hx
    rw [decide_eq_true_eq] at hx ⊢
    exact fun hs => hx (hkept hs)
  · exact decide_eq_true (Survey.notMem_of_mem_frontier hpath)
  · exact decide_eq_false (not_not_intro hfound)

/-- Fetching a level that is not empty leaves fewer paths of the library. -/
theorem untouched_advance_lt {library : Library} {fallback : Int64} {s s' : Survey}
    (hne : s.frontier ≠ []) (h : s.advance (library.method fallback) = .ok s') :
    (library.untouched s').length < (library.untouched s).length := by
  obtain ⟨path, hpath⟩ := List.exists_mem_of_ne_nil _ hne
  cases hl : (library.method fallback).loadAll s.frontier with
  | error e => simp [Survey.advance, hl, Except.map] at h
  | ok ms =>
    simp only [Survey.advance, hl, Except.map, Except.ok.injEq] at h
    subst h
    obtain ⟨m, hm⟩ := Survey.Method.exists_load_of_loadAll hl hpath
    refine untouched_lt (mem_keys_of_load hm) hpath ?_ ?_
    · simp [Survey.extend]
    · simp [Survey.extend, ms.2, hpath]

/-- The modules found from a survey on, level by level until no path is left. -/
def surveyFrom (library : Library) (fallback : Int64) (s : Survey) :
    Except LinkError (List Module) :=
  if _hne : s.frontier = [] then .ok s.loaded
  else
    match _h : s.advance (library.method fallback) with
    | .error e => .error e
    | .ok s' => surveyFrom library fallback s'
termination_by (library.untouched s).length
decreasing_by exact untouched_advance_lt _hne _h

/-- All modules the entry needs, the entry first, in the order in which they are found. -/
def survey (library : Library) (entry : String) (fallback : Int64) :
    Except LinkError (List Module) :=
  library.surveyFrom fallback (.start (library.pathRule none entry))

end Library

end ModularGrammar
