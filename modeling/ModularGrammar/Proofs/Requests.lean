import ModularGrammar.Link.Load
import ModularGrammar.Proofs.SurveyRun

/-!
# What a Survey Asks For

The paths a survey asks a library for, in their order.  They are all different, there are at most as
many levels of them as the library has sources, and nothing but the answers to them decides what the
survey finds.  So neither does anything else decide what is linked.

## Architecture

1. `Library.requestsFrom`, `Library.requests`: the paths that are asked for
2. `nodup_requests`, `requests_of_survey`: none of them twice, and none in vain
3. `within_eq_surveyFrom`: a bound on the levels
4. `surveyFrom_congr`: other sources with the same answers
5. `CanFail`: how a survey can fail if a level is fetched in any order
6. `link_eq_of_same_answers`: linking
-/

namespace ModularGrammar

namespace Library

/-! ## Requests -/

/-- The paths that are asked for from a survey on.  A level is asked for as a whole, before it is
known whether all of its modules can be had. -/
def requestsFrom (library : Library) (fallback : Int64) (s : Survey) : List String :=
  if _hne : s.frontier = [] then []
  else
    match _h : s.advance (library.method fallback) with
    | .error _ => s.frontier
    | .ok s' => s.frontier ++ requestsFrom library fallback s'
termination_by (library.untouched s).length
decreasing_by exact untouched_advance_lt _hne _h

def requests (library : Library) (entry : String) (fallback : Int64) : List String :=
  library.requestsFrom fallback (.start (library.pathRule none entry))

variable {library : Library} {fallback : Int64} {s s' : Survey} {e : LinkError}
  {modules : List Module}

theorem requestsFrom_of_frontier (h : s.frontier = []) : library.requestsFrom fallback s = [] := by
  rw [requestsFrom, dif_pos h]

theorem requestsFrom_of_error (hne : s.frontier ≠ [])
    (h : s.advance (library.method fallback) = .error e) :
    library.requestsFrom fallback s = s.frontier := by
  rw [requestsFrom, dif_neg hne]
  split
  · rfl
  · next s' hs =>
    rw [h] at hs
    cases hs

theorem requestsFrom_of_steps (h : Survey.Steps (library.method fallback) s s') :
    library.requestsFrom fallback s = s.frontier ++ library.requestsFrom fallback s' := by
  obtain ⟨hne, hadvance⟩ := h
  rw [requestsFrom, dif_neg hne]
  split
  · next e he =>
    rw [hadvance] at he
    cases he
  · next s'' hs =>
    rw [hadvance] at hs
    rw [Except.ok.inj hs]

/-- What a survey has found, it has asked for before. -/
theorem loaded_append_requestsFrom (h : Survey.Reaches (library.method fallback) s s') :
    s.loaded.map Module.name ++ library.requestsFrom fallback s =
      s'.loaded.map Module.name ++ library.requestsFrom fallback s' := by
  induction h with
  | refl => rfl
  | tail _ hstep ih =>
    -- the level that was to be fetched has been found
    rw [ih, requestsFrom_of_steps hstep, Survey.map_name_loaded_of_steps hstep, Survey.known,
      List.append_assoc]

/-- A survey asks for what it knows of in the end. -/
theorem exists_known_eq_requests (library : Library) (entry : String) (fallback : Int64) :
    ∃ s, Survey.Reaches (library.method fallback) (.start (library.pathRule none entry)) s ∧
      library.requests entry fallback = s.known := by
  obtain ⟨s, hreaches, hlast⟩ :=
    exists_reaches library fallback (.start (library.pathRule none entry))
  refine ⟨s, hreaches, ?_⟩
  have hrequests : library.requestsFrom fallback s = s.frontier := by
    rcases hlast with hempty | ⟨hne, e, he⟩
    · rw [requestsFrom_of_frontier hempty, hempty]
    · exact requestsFrom_of_error hne he
  rw [Survey.known, ← hrequests, ← loaded_append_requestsFrom hreaches]
  rfl

/-- No path is asked for twice. -/
theorem nodup_requests (library : Library) (entry : String) (fallback : Int64) :
    (library.requests entry fallback).Nodup := by
  obtain ⟨s, -, hrequests⟩ := exists_known_eq_requests library entry fallback
  rw [hrequests]
  exact s.distinct

/-- A survey that succeeds has found a module at every path it asked for. -/
theorem requests_of_survey {entry : String} (h : library.survey entry fallback = .ok modules) :
    library.requests entry fallback = modules.map Module.name := by
  obtain ⟨s, hreaches, hempty, rfl⟩ := surveyFrom_eq_ok_iff.mp h
  have hall := loaded_append_requestsFrom hreaches
  rw [requestsFrom_of_frontier hempty, List.append_nil] at hall
  exact hall

/-! ## The number of levels -/

/-- More levels than there are paths left in the library are never needed. -/
theorem within_eq_surveyFrom {levels : Nat} (h : (library.untouched s).length < levels) :
    Survey.within (library.method fallback) levels s = library.surveyFrom fallback s := by
  induction levels generalizing s with
  | zero => exact absurd h (Nat.not_lt_zero _)
  | succ levels ih =>
    rw [Survey.within]
    by_cases hempty : s.frontier = []
    · simp [hempty, surveyFrom_of_frontier hempty]
    · simp only [List.isEmpty_iff, hempty, if_false]
      cases hadvance : s.advance (library.method fallback) with
      | error e => exact (surveyFrom_of_error hempty hadvance).symm
      | ok next =>
        -- the level has been found in the library, which has fewer paths left
        have hlt := untouched_advance_lt hempty hadvance
        rw [surveyFrom_of_steps ⟨hempty, hadvance⟩]
        exact ih (by omega)

theorem within_eq_survey (library : Library) (entry : String) (fallback : Int64) {levels : Nat}
    (h : library.sources.size < levels) :
    Survey.within (library.method fallback) levels (.start (library.pathRule none entry)) =
      library.survey entry fallback := by
  apply within_eq_surveyFrom
  have hle : (library.untouched (.start (library.pathRule none entry))).length ≤
      library.sources.keys.length := List.length_filter_le _ _
  have hsize : library.sources.keys.length = library.sources.size := List.length_map _
  omega

end Library

/-! ## The same answers -/

namespace Survey.Method

variable {method other : Method} {paths : List String}

theorem loadAll_congr (h : ∀ path ∈ paths, other.load path = method.load path) :
    other.loadAll paths = method.loadAll paths := by
  have hvalues : (other.loadAll paths).map Subtype.val =
      (method.loadAll paths).map Subtype.val := by
    rw [map_val_loadAll, map_val_loadAll]
    induction paths with
    | nil => rfl
    | cons path rest ih =>
      rw [List.mapM_cons, List.mapM_cons, h path (List.mem_cons_self ..),
        ih fun p hp => h p (List.mem_cons_of_mem _ hp)]
  -- the modules determine the level, so it is the same as well
  cases hother : other.loadAll paths with
  | error e =>
    cases hmethod : method.loadAll paths with
    | error e' => simpa [hother, hmethod, Except.map] using hvalues
    | ok ms => simp [hother, hmethod, Except.map] at hvalues
  | ok ms =>
    cases hmethod : method.loadAll paths with
    | error e => simp [hother, hmethod, Except.map] at hvalues
    | ok ms' => simpa [hother, hmethod, Except.map, Subtype.ext_iff] using hvalues

end Survey.Method

namespace Library

variable {library other : Library}

/-- How a module is had from a library. -/
theorem load_method (library : Library) (fallback : Int64) (path : String) :
    (library.method fallback).load path =
      match library.fetch path with
      | .error failure => .error (.retrieval path failure)
      | .ok none => .error (.unknownModule path)
      | .ok (some source) =>
        (Module.ofSource path source fallback).map (Module.resolveImports library.pathRule) := rfl

theorem load_congr (fallback : Int64) (hrule : other.pathRule = library.pathRule) {path : String}
    (h : other.fetch path = library.fetch path) :
    (other.method fallback).load path = (library.method fallback).load path := by
  rw [load_method, load_method, h, hrule]

/-- A level is fetched in the same way if the answers to it are the same. -/
theorem advance_congr (fallback : Int64) (hrule : other.pathRule = library.pathRule) {s : Survey}
    (h : ∀ path ∈ s.frontier, other.fetch path = library.fetch path) :
    s.advance (other.method fallback) = s.advance (library.method fallback) := by
  have hlevel : (other.method fallback).loadAll s.frontier =
      (library.method fallback).loadAll s.frontier :=
    Survey.Method.loadAll_congr fun path hpath => load_congr fallback hrule (h path hpath)
  rw [Survey.advance, Survey.advance, hlevel]

/-- Two libraries with the same answers are surveyed in step, level by level. -/
theorem surveyFrom_congr (fallback : Int64) (hrule : other.pathRule = library.pathRule)
    {s : Survey}
    (h : ∀ path ∈ library.requestsFrom fallback s, other.fetch path = library.fetch path) :
    other.surveyFrom fallback s = library.surveyFrom fallback s ∧
      other.requestsFrom fallback s = library.requestsFrom fallback s := by
  induction s using Library.surveyFrom.induct library fallback with
  | case1 s hempty =>
    rw [surveyFrom_of_frontier hempty, surveyFrom_of_frontier hempty,
      requestsFrom_of_frontier hempty, requestsFrom_of_frontier hempty]
    exact ⟨rfl, rfl⟩
  | case2 s hne e he =>
    rw [requestsFrom_of_error hne he] at h
    -- both fail at the same level
    have hother := (advance_congr fallback hrule h).trans he
    rw [surveyFrom_of_error hne he, surveyFrom_of_error hne hother,
      requestsFrom_of_error hne he, requestsFrom_of_error hne hother]
    exact ⟨rfl, rfl⟩
  | case3 s hne s' hs ih =>
    have hstep : Survey.Steps (library.method fallback) s s' := ⟨hne, hs⟩
    rw [requestsFrom_of_steps hstep] at h
    -- the level asks for what it asked for, and then the rest goes on alike
    have hother : Survey.Steps (other.method fallback) s s' := by
      refine ⟨hne, (advance_congr fallback hrule ?_).trans hs⟩
      exact fun path hp => h path (List.mem_append_left _ hp)
    obtain ⟨hsurvey, hrequests⟩ := ih fun path hp => h path (List.mem_append_right _ hp)
    rw [surveyFrom_of_steps hstep, surveyFrom_of_steps hother, requestsFrom_of_steps hstep,
      requestsFrom_of_steps hother, hsurvey, hrequests]
    exact ⟨rfl, rfl⟩

/-! ## Levels in any order -/

/-- The errors with which a survey can end if the modules of a level are fetched in any order. -/
def CanFail (library : Library) (entry : String) (fallback : Int64) (e : LinkError) : Prop :=
  ∃ s, Survey.Reaches (library.method fallback) (.start (library.pathRule none entry)) s ∧
    ∃ path ∈ s.frontier, (library.method fallback).load path = .error e

theorem frontier_subset_requestsFrom (library : Library) (fallback : Int64) (s : Survey) :
    s.frontier ⊆ library.requestsFrom fallback s := by
  by_cases hempty : s.frontier = []
  · simp [hempty]
  · cases hadvance : s.advance (library.method fallback) with
    | error e =>
      rw [requestsFrom_of_error hempty hadvance]
      exact List.Subset.refl _
    | ok s' =>
      rw [requestsFrom_of_steps ⟨hempty, hadvance⟩]
      exact List.subset_append_left _ _

/-- What one library reaches, another one with the same answers reaches as well, and has the same
answers from there on. -/
theorem reaches_congr {fallback : Int64} (hrule : other.pathRule = library.pathRule)
    {s t : Survey} (hreaches : Survey.Reaches (library.method fallback) s t)
    (h : ∀ path ∈ library.requestsFrom fallback s, other.fetch path = library.fetch path) :
    Survey.Reaches (other.method fallback) s t ∧
      ∀ path ∈ library.requestsFrom fallback t, other.fetch path = library.fetch path := by
  induction hreaches with
  | refl => exact ⟨.refl, h⟩
  | tail _ hstep ih =>
    obtain ⟨hother, hrest⟩ := ih
    have hfrontier := fun path hp => hrest path (frontier_subset_requestsFrom library fallback _ hp)
    rw [requestsFrom_of_steps hstep] at hrest
    refine ⟨hother.tail ⟨hstep.1, ?_⟩, fun path hp => hrest path (List.mem_append_right _ hp)⟩
    exact (advance_congr fallback hrule hfrontier).trans hstep.2

theorem CanFail.congr {entry : String} {fallback : Int64} {e : LinkError}
    (hrule : other.pathRule = library.pathRule)
    (h : ∀ path ∈ library.requests entry fallback, other.fetch path = library.fetch path)
    (hfail : library.CanFail entry fallback e) : other.CanFail entry fallback e := by
  obtain ⟨s, hreaches, path, hpath, hload⟩ := hfail
  obtain ⟨hother, hrest⟩ := reaches_congr hrule hreaches h
  refine ⟨s, hrule ▸ hother, path, hpath, ?_⟩
  rw [← hload]
  apply load_congr fallback hrule
  exact hrest path (frontier_subset_requestsFrom library fallback s hpath)

/-! ## Linking -/

/-- What is linked depends on the answers to what is asked for, and on no other source.  Neither do
other sources matter to how a survey can fail, in whatever order the modules of a level arrive. -/
theorem link_eq_of_same_answers (entry : String) (o : Options) (refusal : MacroReference.Refusal)
    (hrule : other.pathRule = library.pathRule)
    (h : ∀ path ∈ library.requests entry o.fallbackPriority,
      other.fetch path = library.fetch path) :
    other.link entry o refusal = library.link entry o refusal ∧
      ∀ e, other.CanFail entry o.fallbackPriority e ↔
        library.CanFail entry o.fallbackPriority e := by
  obtain ⟨hsurvey, hrequests⟩ := surveyFrom_congr o.fallbackPriority hrule h
  constructor
  · rw [link, link, survey, survey, hrule, hsurvey]
  · intro e
    constructor
    · -- the other library asks for the same, so the two can change places
      have hback : ∀ path ∈ other.requests entry o.fallbackPriority,
          library.fetch path = other.fetch path := by
        intro path hpath
        rw [requests, hrule, hrequests] at hpath
        exact (h path hpath).symm
      exact CanFail.congr hrule.symm hback
    · exact CanFail.congr hrule h

/-- Modules that import each other, some of them twice and under several spellings. -/
def diamondLibrary : Library where
  pathRule := FileLayout.resolve {}
  sources := .ofList [
    ("main", .ok { grammar := {
      rules := .ofList [("top", [⟨"item", none, none⟩])]
      directives := ["%import { item } from \"./left\"", "%import \"./right\""] } }),
    ("left", .ok { grammar := {
      rules := .ofList [("item", [⟨"WORD", none, none⟩])]
      directives := ["%export { item }", "%import \"./base\""] } }),
    ("right", .ok { grammar := { rules := .empty, directives := ["%import \"./sub/../base\""] } }),
    ("base", .ok { grammar := { rules := .empty, directives := ["%import \"./main\""] } })]

theorem exists_survey_diamondLibrary :
    ∃ modules, diamondLibrary.survey "./main" defaultPriority = .ok modules ∧
      modules.map Module.name = ["main", "left", "right", "base"] := by
  have hnames : (diamondLibrary.survey "./main" defaultPriority).toOption.map
      (List.map Module.name) = some ["main", "left", "right", "base"] := by decide +kernel
  cases hsurvey : diamondLibrary.survey "./main" defaultPriority with
  | error e =>
    rw [hsurvey] at hnames
    cases hnames
  | ok modules =>
    rw [hsurvey] at hnames
    exact ⟨modules, rfl, Option.some.inj hnames⟩

/-- The same modules beside one whose grammar cannot be read. -/
def strayLibrary : Library :=
  { diamondLibrary with
    sources := diamondLibrary.sources.insert "stray" (.error (.undecodable .grammar)) }

theorem strayLibrary_link_eq :
    diamondLibrary.requests "./main" defaultPriority = ["main", "left", "right", "base"] ∧
      strayLibrary.fetch "stray" = .error (.undecodable .grammar) ∧
      diamondLibrary.fetch "stray" = .ok none ∧
      strayLibrary.link "./main" {} = diamondLibrary.link "./main" {} := by
  obtain ⟨modules, hsurvey, hnames⟩ := exists_survey_diamondLibrary
  have hrequests := (requests_of_survey hsurvey).trans hnames
  -- the two libraries differ at one path, and nobody asks for it
  have hsame : ∀ path ≠ "stray", strayLibrary.fetch path = diamondLibrary.fetch path := by
    intro path hpath
    simp [fetch, strayLibrary, Table.get?_insert, hpath]
  have hrule : strayLibrary.pathRule = diamondLibrary.pathRule := rfl
  refine ⟨hrequests, rfl, rfl, ?_⟩
  refine (link_eq_of_same_answers "./main" {} MacroReference.Refusal.never hrule ?_).1
  intro path hpath
  apply hsame
  rintro rfl
  have hmem : "stray" ∈ ["main", "left", "right", "base"] := hrequests ▸ hpath
  simp at hmem

end Library

end ModularGrammar
