import Mathlib.Data.List.Nodup
import ModularGrammar.FileTree
import ModularGrammar.Link.Load
import ModularGrammar.Proofs.NormalPath
import ModularGrammar.Proofs.SurveyRun

/-!
# Canonical Names of Modules in Files

The name of a module is a path that names it again.  A path is put into normal form to become a
name, except for a path that is looked up in a base directory, which is its own name as it stands.
So two spellings of one path are two names, and stand for two modules, exactly if there is a base
directory and neither of them is explicitly relative or absolute.

## Architecture

1. `Survey.Resolved`: every name that a survey knows of comes from the path rule
2. `FileLayout.resolve_stable`: names are resolved to themselves
3. `FileLayout.bare_spellings_agree_iff`: when two spellings are one name
-/

namespace ModularGrammar

/-! ## Names that a survey knows of -/

namespace Survey

variable {method : Method} {s s' : Survey}

/-- A search that ends after some levels has nothing left to fetch. -/
theorem exists_reaches_of_within {levels : Nat} {modules : List Module}
    (h : within method levels s = .ok modules) :
    ∃ s', Reaches method s s' ∧ s'.frontier = [] ∧ s'.loaded = modules := by
  -- by induction on the bound: one level has been gone each time
  induction levels generalizing s with
  | zero => cases h
  | succ levels ih =>
    rw [within] at h
    split at h
    · next hempty => exact ⟨s, .refl, List.isEmpty_iff.mp hempty, Except.ok.inj h⟩
    · next hne =>
      cases hadvance : s.advance method with
      | error e =>
        rw [hadvance] at h
        cases h
      | ok next =>
        rw [hadvance] at h
        obtain ⟨last, hreaches, hlast⟩ := ih h
        have hstep : Steps method s next :=
          ⟨fun hnil => hne (List.isEmpty_iff.mpr hnil), hadvance⟩
        exact ⟨last, .head hstep hreaches, hlast⟩

/-- Every name that is known is one that the path rule gives. -/
def Resolved (method : Method) (s : Survey) : Prop :=
  ∀ name ∈ s.known, ∃ importer path, method.pathRule importer path = name

theorem resolved_start (method : Method) (importer : Option String) (entry : String) :
    Resolved method (start (method.pathRule importer entry)) := by
  intro name hname
  exact ⟨importer, entry, (List.mem_singleton.mp hname).symm⟩

/-- What a fetched module imports has been resolved. -/
theorem Method.exists_pathRule_of_load {path : String} {m : Module}
    (h : method.load path = .ok m) {i : Import} (hi : i ∈ m.imports) :
    ∃ importer written, method.pathRule importer written = i.origin := by
  obtain ⟨_, written, -, -, rfl⟩ := Method.load_eq_ok_iff.mp h
  obtain ⟨j, -, rfl⟩ := List.mem_map.mp hi
  exact ⟨some written.name, j.origin, rfl⟩

theorem Resolved.of_steps (hresolved : Resolved method s) (h : Steps method s s') :
    Resolved method s' := by
  intro name hname
  rw [known_of_steps h, List.mem_append] at hname
  rcases hname with hknown | hnew
  · exact hresolved name hknown
  · -- a new name is imported by a module of the level
    obtain ⟨ms, hms, -, hfrontier⟩ := exists_loadAll_of_steps h
    rw [hfrontier] at hnew
    obtain ⟨m, hm, himport⟩ := List.mem_flatMap.mp (mem_newPaths_iff.mp hnew).1
    obtain ⟨i, hi, rfl⟩ := List.mem_map.mp himport
    exact Method.exists_pathRule_of_load (Method.load_of_mem_loadAll hms hm) hi

theorem Resolved.of_reaches (hresolved : Resolved method s) (h : Reaches method s s') :
    Resolved method s' := by
  induction h with
  | refl => exact hresolved
  | tail _ hstep ih => exact ih.of_steps hstep

end Survey

namespace FileLayout

open ModularGrammar.Path

variable {layout : FileLayout} {importer : Option String} {path : String}

/-! ## Surveys of files -/

/-- What a survey of files finds. -/
structure Found (layout : FileLayout) (readFile : String → Except FileError String) (o : Options)
    (modules : List Module) : Prop where
  distinct : (modules.map Module.name).Nodup
  resolved : ∀ m ∈ modules, ∃ importer path, layout.resolve importer path = m.name
  loads : ∀ m ∈ modules, (layout.method readFile o).load m.name = .ok m
  closed : ∀ m ∈ modules, ∀ i ∈ m.imports, i.origin ∈ modules.map Module.name

theorem found_of_survey {readFile : String → Except FileError String} {entry : String}
    {o : Options} {modules : List Module} (h : layout.survey readFile entry o = .ok modules) :
    layout.Found readFile o modules := by
  obtain ⟨s, hreaches, hempty, rfl⟩ := Survey.exists_reaches_of_within h
  -- nothing is left to be fetched, so the survey knows what it has found
  have hknown := Survey.known_of_frontier hempty
  have hcovering := (Survey.covering_start _ _).of_reaches hreaches
  have hresolved :=
    (Survey.resolved_start (layout.method readFile o) none entry).of_reaches hreaches
  constructor
  · have hdistinct := s.distinct
    rwa [hempty, List.append_nil] at hdistinct
  · intro m hm
    exact hresolved m.name (hknown ▸ List.mem_map_of_mem hm)
  · exact hcovering.loads
  · rw [← hknown]
    exact hcovering.imports

/-! ## Names are resolved to themselves -/

/-- A path is resolved to a normal form, or there is a base directory and it is kept as it is. -/
theorem resolve_cases (layout : FileLayout) (importer : Option String) (path : String) :
    (∃ written, layout.resolve importer path = normalize written) ∨
      layout.resolve importer path = path ∧ isRelative path = false ∧
        isAbsolute path = false ∧ layout.baseDirectory.isSome = true := by
  simp only [resolve]
  split
  · exact Or.inl ⟨_, rfl⟩
  · next hrelative =>
    split
    · exact Or.inl ⟨_, rfl⟩
    · next habsolute =>
      split
      · next hbase =>
        rw [Bool.not_eq_true] at hrelative habsolute
        exact Or.inr ⟨rfl, hrelative, habsolute, hbase⟩
      · exact Or.inl ⟨_, rfl⟩

/-- An entry in normal form is its own name, whichever rule applies to it. -/
theorem resolve_none_normalize (layout : FileLayout) (written : String) :
    layout.resolve none (normalize written) = normalize written := by
  have hbeside : normalize (join "" (normalize written)) = normalize written :=
    normalize_normalize written
  simp only [resolve, Option.elim_none, hbeside, normalize_normalize]
  split
  · rfl
  · split
    · rfl
    · split <;> rfl

theorem resolve_none_resolve (layout : FileLayout) (importer : Option String) (path : String) :
    layout.resolve none (layout.resolve importer path) = layout.resolve importer path := by
  rcases resolve_cases layout importer path with
    ⟨written, hnormal⟩ | ⟨hkept, hrelative, habsolute, hbase⟩
  · rw [hnormal, resolve_none_normalize]
  · rw [hkept]
    simp [resolve, hrelative, habsolute, hbase]

/-- What a path is resolved to is resolved to itself as an entry.  So every module that is found in
files is named by its name again, and is found there. -/
theorem resolve_stable (layout : FileLayout) :
    (∀ importer path,
      layout.resolve none (layout.resolve importer path) = layout.resolve importer path) ∧
    ∀ readFile entry o modules, layout.survey readFile entry o = .ok modules →
      ∀ m ∈ modules, layout.resolve none m.name = m.name ∧
        (layout.method readFile o).load (layout.resolve none m.name) = .ok m := by
  refine ⟨resolve_none_resolve layout, ?_⟩
  intro readFile entry o modules hsurvey m hm
  have hfound := found_of_survey hsurvey
  obtain ⟨importer, path, hname⟩ := hfound.resolved m hm
  have hstable : layout.resolve none m.name = m.name := by
    rw [← hname, resolve_none_resolve]
  rw [hstable]
  exact ⟨rfl, hfound.loads m hm⟩

/-- Modules are looked up in a directory. -/
def anchoredLayout : FileLayout := { baseDirectory := some "grammars" }

/-- The files of two modules, one of which imports the other under two spellings. -/
def spelledTree : FileTree :=
  let main := "\x7b\"bnf\": \x7b\x7d, " ++
    "\"unknownDecls\": [\"%import 'lib//tokens'\", \"%import 'lib/tokens'\"]\x7d"
  let tokens := "\x7b\"bnf\": \x7b\x7d\x7d"
  (({} : FileTree).addFile "grammars/main.y.json" main.toUTF8).addFile
    "grammars/lib/tokens.y.json" tokens.toUTF8

/-- What some layout finds among the files: the modules, each with what it imports. -/
theorem exists_survey_spelledTree {layout : FileLayout} {entry : String}
    {found : List (String × List String)}
    (h : (layout.survey spelledTree.readText entry {}).toOption.map
      (List.map fun m => (m.name, m.imports.map Import.origin)) = some found) :
    ∃ modules, layout.survey spelledTree.readText entry {} = .ok modules ∧
      modules.map (fun m => (m.name, m.imports.map Import.origin)) = found := by
  cases hsurvey : layout.survey spelledTree.readText entry {} with
  | error e =>
    rw [hsurvey] at h
    cases h
  | ok modules =>
    rw [hsurvey] at h
    exact ⟨modules, rfl, Option.some.inj h⟩

theorem survey_anchoredLayout :
    (anchoredLayout.survey spelledTree.readText "main" {}).toOption.map
        (List.map fun m => (m.name, m.imports.map Import.origin)) =
      some [("main", ["lib//tokens", "lib/tokens"]), ("lib//tokens", []), ("lib/tokens", [])] := by
  decide +kernel

theorem anchoredLayout_resolve_stable :
    anchoredLayout.resolve none (anchoredLayout.resolve (some "lib/expr") "../ws//./all") =
        anchoredLayout.resolve (some "lib/expr") "../ws//./all" ∧
      ∃ modules, anchoredLayout.survey spelledTree.readText "main" {} = .ok modules ∧
        modules ≠ [] ∧ ∀ m ∈ modules, anchoredLayout.resolve none m.name = m.name ∧
          (anchoredLayout.method spelledTree.readText {}).load
            (anchoredLayout.resolve none m.name) = .ok m := by
  obtain ⟨hstable, hnames⟩ := resolve_stable anchoredLayout
  obtain ⟨modules, hsurvey, hfound⟩ := exists_survey_spelledTree survey_anchoredLayout
  refine ⟨hstable _ _, modules, hsurvey, ?_, hnames _ _ _ _ hsurvey⟩
  rintro rfl
  cases hfound

/-! ## Spellings of one path -/

/-- A path that is neither absolute nor begins with `./` or `../`. -/
def IsBare (path : String) : Prop :=
  isAbsolute path = false ∧ Text.begins "./" path = false ∧ Text.begins "../" path = false

instance (path : String) : Decidable (IsBare path) :=
  inferInstanceAs (Decidable (isAbsolute path = false ∧ Text.begins "./" path = false ∧
    Text.begins "../" path = false))

/-- A bare path that is explicitly relative has nothing but its `.` or `..`. -/
theorem IsBare.normalize_of_isRelative (h : IsBare path) (hrelative : isRelative path = true) :
    normalize path = path := by
  obtain ⟨-, hhere, habove⟩ := h
  simp only [isRelative, hhere, habove, Bool.or_false, Bool.or_eq_true, beq_iff_eq] at hrelative
  rcases hrelative with rfl | rfl <;> decide

/-- Without a base directory a bare path is seen from the importing module. -/
theorem IsBare.resolve_of_none (h : IsBare path) (hbase : layout.baseDirectory = none) :
    layout.resolve importer path = normalize (join (importer.elim "" parent) path) := by
  simp [resolve, h.1, hbase]

/-- With a base directory a bare path is kept as it is, or it is a normal form that is seen from the
importing module. -/
theorem IsBare.resolve_of_isSome (h : IsBare path) (importer : Option String)
    (hbase : layout.baseDirectory.isSome = true) :
    layout.resolve importer path = path ∨
      normalize path = path ∧
        normalize (layout.resolve importer path) = layout.resolve importer path := by
  by_cases hrelative : isRelative path = true
  · refine Or.inr ⟨h.normalize_of_isRelative hrelative, ?_⟩
    rw [resolve, if_pos hrelative]
    exact normalize_normalize _
  · exact Or.inl (by simp [resolve, hrelative, h.1, hbase])

section Spellings

variable {p q : String} (hp : IsBare p) (hq : IsBare q) (hnormal : normalize p = normalize q)

include hp hq hnormal

theorem resolve_eq_of_none (hbase : layout.baseDirectory = none) :
    layout.resolve importer p = layout.resolve importer q := by
  rw [hp.resolve_of_none hbase, hq.resolve_of_none hbase,
    ← normalize_join_normalize_right hp.1, hnormal, normalize_join_normalize_right hq.1]

theorem eq_of_resolve_eq (hbase : layout.baseDirectory.isSome = true)
    (h : layout.resolve importer p = layout.resolve importer q) : p = q := by
  -- of two spellings with one normal form only one can be normal
  rcases hp.resolve_of_isSome importer hbase with hkept | ⟨hpnormal, hpname⟩ <;>
    rcases hq.resolve_of_isSome importer hbase with hkept' | ⟨hqnormal, hqname⟩
  · rw [← hkept, h, hkept']
  · rw [← h, hkept] at hqname
    rw [← hqname, hnormal, hqnormal]
  · rw [h, hkept'] at hpname
    rw [← hpnormal, hnormal, hpname]
  · rw [← hpnormal, hnormal, hqnormal]

theorem resolve_eq_iff : layout.resolve importer p = layout.resolve importer q ↔
    layout.baseDirectory = none ∨ p = q := by
  constructor
  · intro h
    cases hbase : layout.baseDirectory with
    | none => exact Or.inl rfl
    | some base => exact Or.inr (eq_of_resolve_eq hp hq hnormal (by rw [hbase]; rfl) h)
  · rintro (hbase | rfl)
    · exact resolve_eq_of_none hp hq hnormal hbase
    · rfl

end Spellings

theorem countP_pair {names : List String} {a b : String} (hne : a ≠ b) :
    names.countP (fun name => name = a ∨ name = b) = names.count a + names.count b := by
  induction names with
  | nil => rfl
  | cons name names ih =>
    rw [List.countP_cons, List.count_cons, List.count_cons, ih]
    by_cases ha : name = a
    · simp [ha, hne]
      omega
    · by_cases hb : name = b
      · simp [hb, Ne.symm hne]
        omega
      · simp [ha, hb]

/-- Of distinct names, two that are both there are one if they are alike, and two if not. -/
theorem countP_of_nodup {names : List String} (hdistinct : names.Nodup) {a b : String}
    (ha : a ∈ names) (hb : b ∈ names) :
    names.countP (fun name => name = a ∨ name = b) = if a = b then 1 else 2 := by
  split
  · next heq =>
    subst heq
    simp only [or_self]
    exact List.count_eq_one_of_mem hdistinct ha
  · next hne =>
    rw [countP_pair hne, List.count_eq_one_of_mem hdistinct ha,
      List.count_eq_one_of_mem hdistinct hb]

/-- Two bare spellings with one normal form are one name exactly if there is no base directory or
they are the same text.  A survey that finds a module which imports both has one module for the two
in this case, and two modules in every other. -/
theorem bare_spellings_agree_iff (layout : FileLayout) (importer : Option String) {p q : String}
    (hp : IsBare p) (hq : IsBare q) (hnormal : normalize p = normalize q) :
    (layout.resolve importer p = layout.resolve importer q ↔
      layout.baseDirectory = none ∨ p = q) ∧
    ∀ readFile entry o modules, layout.survey readFile entry o = .ok modules →
      ∀ m ∈ modules, layout.resolve importer p ∈ m.imports.map Import.origin →
        layout.resolve importer q ∈ m.imports.map Import.origin →
        (modules.map Module.name).countP
            (fun name => name = layout.resolve importer p ∨ name = layout.resolve importer q) =
          if layout.baseDirectory = none ∨ p = q then 1 else 2 := by
  have hagree : layout.resolve importer p = layout.resolve importer q ↔
      layout.baseDirectory = none ∨ p = q := resolve_eq_iff hp hq hnormal
  refine ⟨hagree, ?_⟩
  intro readFile entry o modules hsurvey m hm hpimport hqimport
  have hfound := found_of_survey hsurvey
  have himported : ∀ name ∈ m.imports.map Import.origin, name ∈ modules.map Module.name := by
    intro name hname
    obtain ⟨i, hi, rfl⟩ := List.mem_map.mp hname
    exact hfound.closed m hm i hi
  rw [countP_of_nodup hfound.distinct (himported _ hpimport) (himported _ hqimport)]
  simp only [hagree]

theorem survey_plainLayout :
    (FileLayout.survey {} spelledTree.readText "grammars/main" {}).toOption.map
        (List.map fun m => (m.name, m.imports.map Import.origin)) =
      some [("grammars/main", ["grammars/lib/tokens", "grammars/lib/tokens"]),
        ("grammars/lib/tokens", [])] := by
  decide +kernel

theorem spelledTree_spellings_agree_iff :
    IsBare "lib//tokens" ∧ IsBare "lib/tokens" ∧
    normalize "lib//tokens" = normalize "lib/tokens" ∧
    (∃ modules, FileLayout.survey {} spelledTree.readText "grammars/main" {} = .ok modules ∧
      (modules.map Module.name).countP (fun name =>
        name = FileLayout.resolve {} (some "grammars/main") "lib//tokens" ∨
          name = FileLayout.resolve {} (some "grammars/main") "lib/tokens") = 1) ∧
    ∃ modules, anchoredLayout.survey spelledTree.readText "main" {} = .ok modules ∧
      (modules.map Module.name).countP (fun name =>
        name = anchoredLayout.resolve (some "main") "lib//tokens" ∨
          name = anchoredLayout.resolve (some "main") "lib/tokens") = 2 := by
  have hdoubled : IsBare "lib//tokens" := by decide
  have hsingle : IsBare "lib/tokens" := by decide
  have hnormal : normalize "lib//tokens" = normalize "lib/tokens" := by decide +kernel
  refine ⟨hdoubled, hsingle, hnormal, ?_, ?_⟩
  · -- without a directory the two spellings are one module
    obtain ⟨modules, hsurvey, hfound⟩ := exists_survey_spelledTree survey_plainLayout
    obtain ⟨m, rest, rfl, hm, -⟩ := List.map_eq_cons_iff.mp hfound
    have himports := (Prod.mk.inj hm).2
    refine ⟨_, hsurvey, ?_⟩
    exact (bare_spellings_agree_iff {} (some "grammars/main") hdoubled hsingle hnormal).2 _ _ _ _
      hsurvey m (List.mem_cons_self ..) (by rw [himports]; decide +kernel)
      (by rw [himports]; decide +kernel)
  · -- with a directory they are two
    obtain ⟨modules, hsurvey, hfound⟩ := exists_survey_spelledTree survey_anchoredLayout
    obtain ⟨m, rest, rfl, hm, -⟩ := List.map_eq_cons_iff.mp hfound
    have himports := (Prod.mk.inj hm).2
    refine ⟨_, hsurvey, ?_⟩
    exact (bare_spellings_agree_iff anchoredLayout (some "main") hdoubled hsingle hnormal).2 _ _ _ _
      hsurvey m (List.mem_cons_self ..) (by rw [himports]; decide +kernel)
      (by rw [himports]; decide +kernel)

/-- With a base directory, one file is found as two modules. -/
theorem anchoredLayout_spellings_differ :
    IsBare "lib//tokens" ∧ IsBare "lib/tokens" ∧
    normalize "lib//tokens" = normalize "lib/tokens" ∧
    anchoredLayout.resolve (some "main") "lib//tokens" ≠
      anchoredLayout.resolve (some "main") "lib/tokens" ∧
    normalize (anchoredLayout.filePath "lib//tokens" "y.json") =
      normalize (anchoredLayout.filePath "lib/tokens" "y.json") ∧
    ∃ modules, anchoredLayout.survey spelledTree.readText "main" {} = .ok modules ∧
      modules.map Module.name = ["main", "lib//tokens", "lib/tokens"] := by
  refine ⟨by decide, by decide, by decide +kernel, by decide +kernel, by decide +kernel, ?_⟩
  obtain ⟨modules, hsurvey, hfound⟩ := exists_survey_spelledTree survey_anchoredLayout
  have hnames := congrArg (List.map Prod.fst) hfound
  rw [List.map_map] at hnames
  exact ⟨modules, hsurvey, hnames⟩

end FileLayout

end ModularGrammar
