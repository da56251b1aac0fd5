import Mathlib.Data.List.Nodup
import ModularGrammar.Proofs.Linking

/-!
# Only the Relative Order of Modules Counts

The composition uses the priorities of modules for nothing but their order.  Where a module stands
among modules of other priorities makes no difference, nor do the priorities themselves, as long as
lower ones stay lower.  The entry is looked up by its name, which only one module has.

## Architecture

1. `Rearrangement`: the same modules, those of each priority in their order
2. `Module.reprioritize`: the same module under another priority
3. `compose_eq_of_rearrangement`, `compose_map_reprioritize`: the composition is the same
4. `compose_relative_order`: all of it, and distinct priorities
-/

namespace ModularGrammar

/-! ## Other orders -/

/-- `others` are the same modules, perhaps in another order, but for each priority the modules that
have it stand as they did before. -/
structure Rearrangement (modules others : List Module) : Prop where
  perm : others.Perm modules
  stable : ∀ p, others.filter (fun m => decide (m.priority = p)) =
    modules.filter fun m => decide (m.priority = p)

namespace Rearrangement

variable {modules others : List Module}

theorem byPriority_eq (h : Rearrangement modules others) :
    Composition.byPriority others = Composition.byPriority modules := by
  have hothers := Composition.byPriority_priorityOrder others
  have horder : PriorityOrder modules (Composition.byPriority others) :=
    ⟨hothers.perm.trans h.perm, hothers.ascending, fun p => (hothers.stable p).trans (h.stable p)⟩
  exact horder.unique (Composition.byPriority_priorityOrder modules)

/-- Modules of distinct priorities may stand in any order. -/
theorem of_nodup (hpriorities : (modules.map Module.priority).Nodup)
    (hperm : others.Perm modules) : Rearrangement modules others where
  perm := hperm
  stable := by
    intro p
    have hfilter := hperm.filter fun m => decide (m.priority = p)
    -- at most one module has the priority
    have hdistinct : ((modules.filter fun m => decide (m.priority = p)).map
        Module.priority).Nodup := hpriorities.sublist (List.filter_sublist.map _)
    have hall : ∀ m ∈ modules.filter (fun m => decide (m.priority = p)), m.priority = p :=
      fun m hm => of_decide_eq_true (List.mem_filter.mp hm).2
    match hshape : modules.filter fun m => decide (m.priority = p) with
    | [] =>
      rw [hshape] at hfilter
      rw [hfilter.eq_nil, hshape]
    | [m] =>
      rw [hshape] at hfilter
      rw [List.perm_singleton.mp hfilter, hshape]
    | a :: b :: rest =>
      rw [hshape] at hall hdistinct
      have hab : a.priority = b.priority :=
        (hall a (by simp)).trans (hall b (by simp)).symm
      exact absurd hdistinct (by simp [hab])

end Rearrangement

/-- Among modules of distinct names, whichever has a name is found, wherever it stands. -/
theorem find?_name_of_perm {modules others : List Module}
    (hnames : (modules.map Module.name).Nodup) (hperm : others.Perm modules) (name : String) :
    others.find? (fun m => m.name == name) = modules.find? fun m => m.name == name := by
  -- among distinct names, what is found does not depend on the order
  have hfound : ∀ l : List Module, (l.map Module.name).Nodup → ∀ m,
      l.find? (fun m => m.name == name) = some m ↔ m ∈ l ∧ m.name = name := by
    intro l hl m
    constructor
    · intro h
      exact ⟨List.mem_of_find?_eq_some h, by simpa using List.find?_some h⟩
    · rintro ⟨hm, hname⟩
      cases hfind : l.find? fun m => m.name == name with
      | none => exact absurd (List.find?_eq_none.mp hfind m hm) (by simp [hname])
      | some found =>
        have hother : found.name = name := by simpa using List.find?_some hfind
        rw [List.inj_on_of_nodup_map hl (List.mem_of_find?_eq_some hfind) hm
          (hother.trans hname.symm)]
  have hothers := (hperm.map Module.name).nodup_iff.mpr hnames
  apply Option.ext
  intro m
  rw [hfound others hothers, hfound modules hnames, hperm.mem_iff]

/-! ## Other priorities -/

def Module.reprioritize (f : Int64 → Int64) (m : Module) : Module :=
  { m with priority := f m.priority }

/-- The priorities of the modules stay in their order. -/
def PreservesOrder (f : Int64 → Int64) (modules : List Module) : Prop :=
  ∀ a ∈ modules, ∀ b ∈ modules, a.priority < b.priority → f a.priority < f b.priority

theorem PreservesOrder.le_iff {f : Int64 → Int64} {modules : List Module}
    (hf : PreservesOrder f modules) {a b : Module} (ha : a ∈ modules) (hb : b ∈ modules) :
    f a.priority ≤ f b.priority ↔ a.priority ≤ b.priority := by
  constructor
  · intro h
    apply Int64.not_lt.mp
    intro hlt
    exact Int64.not_lt.mpr h (hf b hb a ha hlt)
  · intro h
    rcases Int64.lt_or_eq_of_le h with hlt | heq
    · exact Int64.le_iff_lt_or_eq.mpr (Or.inl (hf a ha b hb hlt))
    · rw [heq]
      exact Int64.le_refl _

namespace Composition

variable {helper entry : String} {modules : List Module}

/-! ## The composition -/

theorem compose_eq_of_rearrangement (hnames : (modules.map Module.name).Nodup)
    {others : List Module} (h : Rearrangement modules others) :
    compose helper entry others = compose helper entry modules := by
  have hstart : startRule entry others = startRule entry modules := by
    rw [startRule, startRule, find?_name_of_perm hnames h.perm]
  rw [compose, compose, h.byPriority_eq, hstart]

section Reprioritized

variable (f : Int64 → Int64) (ordered : List Module)

theorem mergeRules_map_reprioritize :
    mergeRules (ordered.map (Module.reprioritize f)) = mergeRules ordered := by
  rw [mergeRules, mergeRules, List.foldlM_map]
  rfl

theorem startRule_map_reprioritize :
    startRule entry (ordered.map (Module.reprioritize f)) = startRule entry ordered := by
  have hname : ((fun m : Module => m.name == entry) ∘ Module.reprioritize f) =
      fun m => m.name == entry := rfl
  rw [startRule, startRule, List.find?_map, hname]
  cases ordered.find? fun m => m.name == entry with
  | none => rfl
  | some m => rfl

theorem mergeLexicons_map_reprioritize :
    mergeLexicons helper (ordered.map (Module.reprioritize f)) = mergeLexicons helper ordered := by
  rw [mergeLexicons, mergeLexicons, List.foldlM_map, List.filterMap_map]
  rfl

end Reprioritized

theorem compose_map_reprioritize {f : Int64 → Int64} (hf : PreservesOrder f modules) :
    compose helper entry (modules.map (Module.reprioritize f)) = compose helper entry modules := by
  -- the modules are put in the same order, and nothing else is made of their priorities
  have hordered : byPriority (modules.map (Module.reprioritize f)) =
      (byPriority modules).map (Module.reprioritize f) :=
    byPriority_map fun _ ha _ hb => hf.le_iff ha hb
  rw [compose, compose, hordered, mergeRules_map_reprioritize, startRule_map_reprioritize,
    mergeLexicons_map_reprioritize, List.flatMap_map, List.map_map]
  rfl

/-- Modules of distinct names make the same composite grammar, or fail for the same reason, however
they are arranged among modules of other priorities, and under whatever priorities of the same
order.  If no two of them have the same priority, they may stand in any order. -/
theorem compose_relative_order (helper entry : String) {modules : List Module}
    (hnames : (modules.map Module.name).Nodup) :
    (∀ others, Rearrangement modules others →
      compose helper entry others = compose helper entry modules) ∧
    (∀ f, PreservesOrder f modules →
      compose helper entry (modules.map (Module.reprioritize f)) =
        compose helper entry modules) ∧
    ((modules.map Module.priority).Nodup → ∀ others, others.Perm modules →
      compose helper entry others = compose helper entry modules) := by
  refine ⟨?_, ?_, ?_⟩
  · intro others h
    exact compose_eq_of_rearrangement hnames h
  · intro f hf
    exact compose_map_reprioritize hf
  · intro hpriorities others hperm
    exact compose_eq_of_rearrangement hnames (.of_nodup hpriorities hperm)

/-- A grammar, and two modules that stand before it and share a priority. -/
def tiedModules : List Module := [
  { name := "main"
    priority := 20
    grammar := { rules := .ofList [("main__top", [⟨"lib__item", none, none⟩])] } },
  { name := "lib"
    priority := 10
    grammar := { rules := .ofList [("lib__item", [⟨"lib__WORD", none, none⟩])] }
    lexicon := some { macros := .ofList [("lib__w", "[a-z]")] } },
  { name := "lex"
    priority := 10
    grammar := {}
    lexicon := some { macros := .ofList [("lex__d", "[0-9]")] } }]

/-- The grammar between the two others, which stay in their order. -/
def movedModules : List Module := [tiedModules[1], tiedModules[0], tiedModules[2]]

theorem movedModules_compose_relative_order :
    Rearrangement tiedModules movedModules ∧
    PreservesOrder (fun p => p * p) tiedModules ∧
    ((tiedModules.take 2).map Module.priority).Nodup ∧
    ∃ grammar, compose "wrap" "main" tiedModules = .ok grammar ∧
      compose "wrap" "main" movedModules = .ok grammar ∧
      compose "wrap" "main" (tiedModules.map (Module.reprioritize fun p => p * p)) =
        .ok grammar ∧
      compose "wrap" "main" (tiedModules.take 2).reverse =
        compose "wrap" "main" (tiedModules.take 2) := by
  have hmoved : Rearrangement tiedModules movedModules := by
    refine ⟨List.Perm.swap _ _ _, ?_⟩
    intro p
    -- the grammar that has moved is the only module of its priority
    by_cases hp : p = 20
    · subst hp
      decide
    · simp [movedModules, tiedModules, List.filter_cons, Ne.symm hp]
  have hsquares : PreservesOrder (fun p => p * p) tiedModules := by
    unfold PreservesOrder
    decide
  have hdistinct : ((tiedModules.take 2).map Module.priority).Nodup := by decide
  -- only the names that are defined are computed, not the whole grammar
  have hordered : byPriority tiedModules = [tiedModules[1], tiedModules[2], tiedModules[0]] :=
    PriorityOrder.byPriority_eq (by decide +kernel)
  have hrules : ∃ rules, mergeRules (byPriority tiedModules) = .ok rules := by
    rw [hordered]
    exact exists_mergeRules (by decide)
  have hlexicon : ∃ lexicon, mergeLexicons "wrap" (byPriority tiedModules) = .ok lexicon := by
    rw [hordered]
    exact exists_mergeLexicons "wrap" (by decide) (by decide)
  obtain ⟨rules, hrules⟩ := hrules
  obtain ⟨lexicon, hlexicon⟩ := hlexicon
  have hcompose : ∃ grammar, compose "wrap" "main" tiedModules = .ok grammar :=
    ⟨⟨rules, "main__top", _, _, lexicon⟩,
      compose_eq_ok_iff.mpr ⟨hrules, rfl, hlexicon, rfl, rfl⟩⟩
  obtain ⟨grammar, hgrammar⟩ := hcompose
  have hnames : (tiedModules.map Module.name).Nodup := by decide
  have hfront : ((tiedModules.take 2).map Module.name).Nodup := by decide
  obtain ⟨hrearranged, hreprioritized, -⟩ := compose_relative_order "wrap" "main" hnames
  obtain ⟨-, -, hany⟩ := compose_relative_order "wrap" "main" hfront
  refine ⟨hmoved, hsquares, hdistinct, grammar, hgrammar, ?_, ?_, ?_⟩
  · exact (hrearranged movedModules hmoved).trans hgrammar
  · exact (hreprioritized _ hsquares).trans hgrammar
  · exact hany hdistinct _ (List.reverse_perm _)

end Composition

end ModularGrammar
