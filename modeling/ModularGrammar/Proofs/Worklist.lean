import Mathlib.Order.Bounds.Basic
import ModularGrammar.Proofs.Reachability

/-!
# Surveys as a Queue

A survey fetches level by level.  A queue takes one path at a time and puts what the module at this
path imports behind everything that is waiting already.  Both find the same modules in the same
order, which is told by the modules themselves: the entry, and then whatever they import, each
module where it is named first.  The order is one of increasing distance from the entry.

## Architecture

1. `newPaths`: without repetitions, and one piece after the other
2. `Survey.take`, `Library.queue`: one path at a time
3. `queue_eq_survey`: a level is taken path by path
4. `known_eq_eraseDups`: the order, told by the modules
5. `Library.Distance`, `Leveled`: how far a level is from the entry
6. `survey_breadth_first`: the order of a survey
-/

namespace ModularGrammar

namespace Survey

/-! ## New paths -/

theorem newPaths_eq_eraseDups (seen paths : List String) :
    newPaths seen paths = (paths.filter fun path => path ∉ seen).eraseDups := by
  induction paths generalizing seen with
  | nil => simp [newPaths]
  | cons p rest ih =>
    rw [newPaths]
    by_cases hseen : p ∈ seen
    · simp [hseen, ih]
    · -- the head has been seen from here on, so its repetitions are left out
      simp [hseen, ih, List.eraseDups_cons, List.filter_filter, beq_eq_decide]

theorem newPaths_congr {seen seen' : List String} (paths : List String)
    (h : ∀ path, path ∈ seen ↔ path ∈ seen') : newPaths seen paths = newPaths seen' paths := by
  simp only [newPaths_eq_eraseDups, h]

theorem newPaths_append (seen before behind : List String) :
    newPaths seen (before ++ behind) =
      newPaths seen before ++ newPaths (seen ++ newPaths seen before) behind := by
  induction before generalizing seen with
  | nil => simp [newPaths]
  | cons p rest ih =>
    rw [List.cons_append, newPaths, newPaths]
    by_cases hseen : p ∈ seen
    · simp only [hseen, if_true, ih]
    · simp only [hseen, if_false, ih, List.cons_append]
      congr 2
      apply newPaths_congr
      intro path
      simp only [List.mem_append, List.mem_cons]
      tauto

/-! ## One path at a time -/

/-- The survey after the module at the first path has been found: what it imports waits behind
everything else. -/
def take (s : Survey) (m : Module) (rest : List String) (h : s.frontier = m.name :: rest) :
    Survey where
  loaded := s.loaded ++ [m]
  frontier := rest ++ newPaths s.known (m.imports.map Import.origin)
  distinct := by
    have hknown : (s.loaded ++ [m]).map Module.name ++ rest = s.known := by simp [known, h]
    rw [← List.append_assoc, hknown, List.nodup_append]
    refine ⟨s.distinct, nodup_newPaths _ _, ?_⟩
    rintro a ha b hb rfl
    exact not_mem_of_mem_newPaths hb ha

theorem known_take {s : Survey} {m : Module} {rest : List String}
    (h : s.frontier = m.name :: rest) :
    (s.take m rest h).known = s.known ++ newPaths s.known (m.imports.map Import.origin) := by
  simp [known, take, h]

theorem eq_of_loaded_of_frontier {s t : Survey} (hloaded : s.loaded = t.loaded)
    (hfrontier : s.frontier = t.frontier) : s = t := by
  cases s
  cases t
  subst hloaded hfrontier
  rfl

end Survey

namespace Library

theorem untouched_take_lt {library : Library} {fallback : Int64} {s : Survey} {m : Module}
    {rest : List String} {path : String} (h : (library.method fallback).load path = .ok m)
    (hfirst : s.frontier = m.name :: rest) :
    (library.untouched (s.take m rest hfirst)).length < (library.untouched s).length := by
  have hname := Survey.Method.name_of_load h
  refine untouched_lt (mem_keys_of_load h) ?_ ?_ ?_
  · simp [hfirst, hname]
  · simp [Survey.take]
  · simp [Survey.take, hname]

/-- The modules found from a survey on, one path after the other until none is waiting. -/
def queueFrom (library : Library) (fallback : Int64) (s : Survey) :
    Except LinkError (List Module) :=
  match hfrontier : s.frontier with
  | [] => .ok s.loaded
  | path :: rest =>
    match hload : (library.method fallback).load path with
    | .error e => .error e
    | .ok m =>
      queueFrom library fallback
        (s.take m rest (by rw [hfrontier, Survey.Method.name_of_load hload]))
termination_by (library.untouched s).length
decreasing_by exact untouched_take_lt hload _

/-- All modules the entry needs, in the order in which a queue finds them. -/
def queue (library : Library) (entry : String) (fallback : Int64) :
    Except LinkError (List Module) :=
  library.queueFrom fallback (.start (library.pathRule none entry))

variable {library : Library} {fallback : Int64} {s : Survey} {e : LinkError}

theorem queueFrom_of_frontier (h : s.frontier = []) :
    library.queueFrom fallback s = .ok s.loaded := by
  rw [queueFrom]
  split
  · rfl
  · next path rest hfrontier =>
    rw [h] at hfrontier
    cases hfrontier

theorem queueFrom_of_error {path : String} {rest : List String} (h : s.frontier = path :: rest)
    (he : (library.method fallback).load path = .error e) :
    library.queueFrom fallback s = .error e := by
  rw [queueFrom]
  -- the function splits the frontier itself; only one of its cases is possible
  split
  · next hfrontier =>
    rw [h] at hfrontier
    cases hfrontier
  · next p more hfrontier =>
    rw [h] at hfrontier
    cases hfrontier
    split
    · next e' he' =>
      rw [he] at he'
      rw [Except.error.inj he']
    · next m hload =>
      rw [he] at hload
      cases hload

theorem queueFrom_of_load {path : String} {rest : List String} {m : Module}
    (h : s.frontier = path :: rest) (hload : (library.method fallback).load path = .ok m) :
    library.queueFrom fallback s = library.queueFrom fallback
      (s.take m rest (by rw [h, Survey.Method.name_of_load hload])) := by
  rw [queueFrom]
  split
  · next hfrontier =>
    rw [h] at hfrontier
    cases hfrontier
  · next p more hfrontier =>
    -- the function splits the frontier itself, in the same way
    have hsame := h.symm.trans hfrontier
    cases hsame
    split
    · next e he =>
      rw [hload] at he
      cases he
    · next m' hload' =>
      rw [hload] at hload'
      cases hload'
      rfl

/-! ## A level, path by path -/

/-- A queue that has taken a whole level has found its modules, and what they import waits behind
what was waiting behind the level. -/
theorem exists_queueFrom_of_loadAll {paths behind : List String}
    {ms : { ms : List Module // ms.map Module.name = paths }}
    (hfrontier : s.frontier = paths ++ behind)
    (h : (library.method fallback).loadAll paths = .ok ms) :
    ∃ t : Survey, library.queueFrom fallback s = library.queueFrom fallback t ∧
      t.loaded = s.loaded ++ ms.1 ∧
      t.frontier = behind ++
        Survey.newPaths s.known (ms.1.flatMap fun m => m.imports.map Import.origin) := by
  induction paths generalizing s behind with
  | nil =>
    have hnone : ms.1 = [] := List.map_eq_nil_iff.mp ms.2
    exact ⟨s, rfl, by simp [hnone], by simp [hnone, hfrontier, Survey.newPaths]⟩
  | cons path rest ih =>
    rw [Survey.Method.loadAll] at h
    split at h
    · cases h
    · next m hload =>
      split at h
      · cases h
      · next more hmore =>
        cases h
        have hfirst : s.frontier = m.name :: (rest ++ behind) := by
          rw [hfrontier, Survey.Method.name_of_load hload, List.cons_append]
        -- the imports of the first module wait behind the rest of the level
        obtain ⟨t, hqueue, hloaded, hlast⟩ := ih (s := s.take m (rest ++ behind) hfirst)
          (List.append_assoc ..) hmore
        refine ⟨t, ?_, ?_, ?_⟩
        · rw [queueFrom_of_load hfrontier hload]
          exact hqueue
        · rw [hloaded]
          simp [Survey.take]
        · rw [hlast, Survey.known_take, List.append_assoc, ← Survey.newPaths_append,
            List.flatMap_cons]

theorem queueFrom_of_loadAll_eq_error {paths behind : List String}
    (hfrontier : s.frontier = paths ++ behind)
    (h : (library.method fallback).loadAll paths = .error e) :
    library.queueFrom fallback s = .error e := by
  -- by induction on the paths of the level: those before the failing one can be had
  induction paths generalizing s behind with
  | nil => cases h
  | cons path rest ih =>
    rw [Survey.Method.loadAll] at h
    split at h
    · next e' he =>
      cases h
      exact queueFrom_of_error hfrontier he
    · next m hload =>
      split at h
      · next e' hmore =>
        cases h
        rw [queueFrom_of_load hfrontier hload]
        exact ih (List.append_assoc ..) hmore
      · cases h

theorem queueFrom_of_steps {s' : Survey} (h : Survey.Steps (library.method fallback) s s') :
    library.queueFrom fallback s = library.queueFrom fallback s' := by
  obtain ⟨ms, hms, hloaded', hfrontier'⟩ := Survey.exists_loadAll_of_steps h
  obtain ⟨t, hqueue, hloaded, hfrontier⟩ :=
    exists_queueFrom_of_loadAll (List.append_nil _).symm hms
  have ht : t = s' := by
    apply Survey.eq_of_loaded_of_frontier
    · rw [hloaded, hloaded']
    · rw [hfrontier, hfrontier', List.nil_append]
  rw [hqueue, ht]

/-- A queue finds what a survey finds, and fails as it does. -/
theorem queueFrom_eq_surveyFrom (s : Survey) :
    library.queueFrom fallback s = library.surveyFrom fallback s := by
  induction s using Library.surveyFrom.induct library fallback with
  | case1 s hempty => rw [queueFrom_of_frontier hempty, surveyFrom_of_frontier hempty]
  | case2 s hne e he =>
    rw [surveyFrom_of_error hne he]
    exact queueFrom_of_loadAll_eq_error (List.append_nil _).symm
      (Survey.advance_eq_error_iff.mp he)
  | case3 s hne s' hs ih =>
    have hstep : Survey.Steps (library.method fallback) s s' := ⟨hne, hs⟩
    rw [queueFrom_of_steps hstep, surveyFrom_of_steps hstep, ih]

theorem queue_eq_survey (library : Library) (entry : String) (fallback : Int64) :
    library.queue entry fallback = library.survey entry fallback :=
  queueFrom_eq_surveyFrom _

end Library

/-! ## The order, told by the modules -/

namespace Survey

/-- What is known is the entry and what the modules found so far import, each where it is named
first. -/
theorem known_eq_newPaths {method : Method} {root : String} {s : Survey}
    (h : Reaches method (start root) s) :
    s.known = newPaths []
      (root :: s.loaded.flatMap fun m => m.imports.map Import.origin) := by
  induction h with
  | refl => simp [known, start, newPaths]
  | tail _ hstep ih =>
    obtain ⟨ms, -, hloaded, hfrontier⟩ := exists_loadAll_of_steps hstep
    rw [known_of_steps hstep, hfrontier, hloaded, List.flatMap_append, ← List.cons_append,
      newPaths_append, ← ih, List.nil_append]

theorem known_eq_eraseDups {method : Method} {root : String} {s : Survey}
    (h : Reaches method (start root) s) :
    s.known = (root :: s.loaded.flatMap fun m => m.imports.map Import.origin).eraseDups := by
  rw [known_eq_newPaths h, newPaths_eq_eraseDups, List.filter_eq_self.mpr]
  simp

end Survey

/-! ## Distances -/

namespace Library

/-- A path is reached from another one through the given number of imports. -/
inductive ReachedIn (library : Library) (fallback : Int64) (root : String) : Nat → String → Prop
  | root : ReachedIn library fallback root 0 root
  | imported {n : Nat} {importer path : String} :
      ReachedIn library fallback root n importer → library.Imports fallback importer path →
        ReachedIn library fallback root (n + 1) path

/-- The least number of imports through which a path is reached from another one. -/
def Distance (library : Library) (fallback : Int64) (root path : String) (d : Nat) : Prop :=
  IsLeast {n | library.ReachedIn fallback root n path} d

/-- A survey that is as many levels away from the entry as its frontier is. -/
structure Leveled (library : Library) (fallback : Int64) (root : String) (k : Nat) (s : Survey) :
    Prop where
  /-- What is fetched next has this distance. -/
  frontier : ∀ path ∈ s.frontier, library.Distance fallback root path k
  /-- Nothing that is known is further away. -/
  near : ∀ path ∈ s.known, ∃ d ≤ k, library.Distance fallback root path d
  /-- Everything that is not further away is known. -/
  complete : ∀ n ≤ k, ∀ path, library.ReachedIn fallback root n path → path ∈ s.known
  /-- What comes later is not nearer. -/
  ascending : s.known.Pairwise fun a b => ∀ i j,
    library.Distance fallback root a i → library.Distance fallback root b j → i ≤ j

variable {library : Library} {fallback : Int64} {root : String}

theorem leveled_start (library : Library) (fallback : Int64) (root : String) :
    library.Leveled fallback root 0 (.start root) := by
  have hroot : library.Distance fallback root root 0 := ⟨.root, fun n _ => Nat.zero_le n⟩
  have hknown : (Survey.start root).known = [root] := rfl
  constructor
  · intro path hpath
    cases List.mem_singleton.mp hpath
    exact hroot
  · intro path hpath
    rw [hknown, List.mem_singleton] at hpath
    exact ⟨0, le_rfl, hpath ▸ hroot⟩
  · intro n hn path hpath
    cases Nat.le_zero.mp hn
    cases hpath
    -- no path is nearer than the entry
    simp [hknown]
  · rw [hknown]
    exact List.pairwise_singleton _ _

/-- One level further is one import further. -/
theorem Leveled.of_steps {k : Nat} {s s' : Survey} (hleveled : library.Leveled fallback root k s)
    (hcovering : Survey.Covering (library.method fallback) root s')
    (h : Survey.Steps (library.method fallback) s s') :
    library.Leveled fallback root (k + 1) s' := by
  have hknown := Survey.known_of_steps h
  -- what was known has been found one level later
  have hfound := Survey.map_name_loaded_of_steps h
  have hfrontier : ∀ path ∈ s'.frontier, library.Distance fallback root path (k + 1) := by
    intro path hpath
    have hnew : path ∉ s.known := by
      rw [← hfound]
      exact Survey.notMem_of_mem_frontier hpath
    constructor
    · obtain ⟨importer, hlevel, himports⟩ := exists_imports_of_steps h hpath
      exact .imported (hleveled.frontier importer hlevel).1 himports
    · intro n hn
      -- a path that is nearer has been known before
      by_contra hlt
      exact hnew (hleveled.complete n (by omega) path hn)
  have hnear : ∀ path ∈ s'.known, ∃ d ≤ k + 1, library.Distance fallback root path d := by
    intro path hpath
    rw [hknown, List.mem_append] at hpath
    rcases hpath with hold | hnew
    · obtain ⟨d, hd, hdistance⟩ := hleveled.near path hold
      exact ⟨d, by omega, hdistance⟩
    · exact ⟨k + 1, le_rfl, hfrontier path hnew⟩
  refine ⟨hfrontier, hnear, ?_, ?_⟩
  · intro n hn path hpath
    rcases Nat.le_succ_iff.mp hn with hle | rfl
    · rw [hknown]
      exact List.mem_append_left _ (hleveled.complete n hle path hpath)
    · cases hpath with
      | imported himporter himports =>
        have hold := hleveled.complete k le_rfl _ himporter
        rw [← hfound] at hold
        exact mem_known_of_imports hcovering hold himports
  · rw [hknown, List.pairwise_append]
    refine ⟨hleveled.ascending, ?_, ?_⟩
    · apply List.pairwise_of_forall_mem_list
      intro a ha b hb i j hi hj
      rw [hi.unique (hfrontier a ha), hj.unique (hfrontier b hb)]
    · intro a ha b hb i j hi hj
      obtain ⟨d, hd, hdistance⟩ := hleveled.near a ha
      rw [hi.unique hdistance, hj.unique (hfrontier b hb)]
      omega

theorem exists_leveled_of_reaches {s : Survey}
    (h : Survey.Reaches (library.method fallback) (.start root) s) :
    ∃ k, library.Leveled fallback root k s := by
  induction h with
  | refl => exact ⟨0, leveled_start library fallback root⟩
  | tail hreaches hstep ih =>
    obtain ⟨k, hleveled⟩ := ih
    have hcovering := (Survey.covering_start _ _).of_reaches (hreaches.tail hstep)
    exact ⟨k + 1, hleveled.of_steps hcovering hstep⟩

/-! ## The order of a survey -/

/-- A survey finds what a queue finds, in the same order.  If it succeeds, the names of the modules
are the entry and what the modules import, each where it is named first, and the distance from the
entry never decreases. -/
theorem survey_breadth_first (library : Library) (entry : String) (fallback : Int64) :
    library.survey entry fallback = library.queue entry fallback ∧
    ∀ modules, library.survey entry fallback = .ok modules →
      modules.map Module.name = (library.pathRule none entry ::
        modules.flatMap fun m => m.imports.map Import.origin).eraseDups ∧
      (∀ m ∈ modules, ∃ d,
        library.Distance fallback (library.pathRule none entry) m.name d) ∧
      (modules.map Module.name).Pairwise fun a b => ∀ i j,
        library.Distance fallback (library.pathRule none entry) a i →
        library.Distance fallback (library.pathRule none entry) b j → i ≤ j := by
  refine ⟨(queue_eq_survey library entry fallback).symm, ?_⟩
  intro modules h
  obtain ⟨s, hreaches, hempty, rfl⟩ := surveyFrom_eq_ok_iff.mp h
  have hknown := Survey.known_of_frontier hempty
  obtain ⟨k, hleveled⟩ := exists_leveled_of_reaches hreaches
  rw [← hknown]
  refine ⟨Survey.known_eq_eraseDups hreaches, ?_, hleveled.ascending⟩
  intro m hm
  obtain ⟨d, -, hdistance⟩ := hleveled.near m.name (by
    rw [hknown]
    exact List.mem_map_of_mem hm)
  exact ⟨d, hdistance⟩

theorem diamondLibrary_breadth_first :
    ∃ modules, diamondLibrary.queue "./main" defaultPriority = .ok modules ∧
      modules.map Module.name = ["main", "left", "right", "base"] ∧
      modules.map Module.name =
        ("main" :: modules.flatMap fun m => m.imports.map Import.origin).eraseDups ∧
      ["main", "left", "right", "base"].Pairwise fun a b => ∀ i j,
        diamondLibrary.Distance defaultPriority "main" a i →
        diamondLibrary.Distance defaultPriority "main" b j → i ≤ j := by
  obtain ⟨hqueue, hsurvey⟩ := survey_breadth_first diamondLibrary "./main" defaultPriority
  have hentry : diamondLibrary.pathRule none "./main" = "main" := by decide +kernel
  rw [hentry] at hsurvey
  obtain ⟨modules, hmodules, hnames⟩ := exists_survey_diamondLibrary
  obtain ⟨horder, -, hascending⟩ := hsurvey modules hmodules
  rw [hnames] at hascending
  exact ⟨modules, hqueue ▸ hmodules, hnames, horder, hascending⟩

end Library

end ModularGrammar
