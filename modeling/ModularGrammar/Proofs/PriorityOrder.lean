import ModularGrammar.Composition

/-!
# The Order of Modules

Modules are put together by ascending priority, and those of equal priority stay in the order in
which they were given.
-/

namespace ModularGrammar

/-- `ordered` holds the modules by ascending priority, and for each priority the modules that have
it stand as they did before. -/
structure PriorityOrder (modules ordered : List Module) : Prop where
  perm : ordered.Perm modules
  ascending : ordered.Pairwise fun a b => a.priority ≤ b.priority
  stable : ∀ p, ordered.filter (fun m => decide (m.priority = p)) =
    modules.filter fun m => decide (m.priority = p)

/-- Sorting leaves those things in their order of which each may stand before each other. -/
theorem filter_mergeSort {α : Type} {le : α → α → Bool} {kept : α → Bool} {l : List α}
    (htrans : ∀ a b c, le a b = true → le b c = true → le a c = true)
    (htotal : ∀ a b, (le a b || le b a) = true)
    (hkept : ∀ a ∈ l, ∀ b ∈ l, kept a = true → kept b = true → le a b = true) :
    (l.mergeSort le).filter kept = l.filter kept := by
  have hsorted : (l.filter kept).Pairwise fun a b => le a b = true := by
    apply List.pairwise_of_forall_mem_list
    intro a ha b hb
    obtain ⟨ha, hkepta⟩ := List.mem_filter.mp ha
    obtain ⟨hb, hkeptb⟩ := List.mem_filter.mp hb
    exact hkept a ha b hb hkepta hkeptb
  -- what is kept is sorted already, so it comes through in its order
  have hsub := List.sublist_mergeSort htrans htotal hsorted List.filter_sublist
  have hfilter := hsub.filter kept
  simp only [List.filter_filter, Bool.and_self] at hfilter
  have hlength := ((List.mergeSort_perm l le).filter kept).length_eq
  exact (hfilter.eq_of_length hlength.symm).symm

namespace Composition

theorem perm_byPriority (modules : List Module) : (byPriority modules).Perm modules :=
  List.mergeSort_perm modules _

theorem mem_byPriority {modules : List Module} {m : Module} :
    m ∈ byPriority modules ↔ m ∈ modules :=
  (perm_byPriority modules).mem_iff

private theorem priority_trans (a b c : Module) (hab : decide (a.priority ≤ b.priority) = true)
    (hbc : decide (b.priority ≤ c.priority) = true) :
    decide (a.priority ≤ c.priority) = true :=
  decide_eq_true (Int64.le_trans (of_decide_eq_true hab) (of_decide_eq_true hbc))

private theorem priority_total (a b : Module) :
    (decide (a.priority ≤ b.priority) || decide (b.priority ≤ a.priority)) = true := by
  rw [Bool.or_eq_true, decide_eq_true_iff, decide_eq_true_iff]
  exact Int64.le_total a.priority b.priority

/-- Sorting by priority keeps the modules of each priority in their order. -/
theorem filter_byPriority (modules : List Module) (p : Int64) :
    (byPriority modules).filter (fun m => decide (m.priority = p)) =
      modules.filter fun m => decide (m.priority = p) := by
  apply filter_mergeSort priority_trans priority_total
  intro a _ b _ ha hb
  rw [of_decide_eq_true ha, of_decide_eq_true hb]
  exact decide_eq_true (Int64.le_refl p)

/-- Modules are composed in the order of their priorities. -/
theorem byPriority_priorityOrder (modules : List Module) :
    PriorityOrder modules (byPriority modules) where
  perm := perm_byPriority modules
  ascending := (List.pairwise_mergeSort priority_trans priority_total modules).imp
    fun h => of_decide_eq_true h
  stable := filter_byPriority modules

/-- Modules that change without changing the order of their priorities keep their places. -/
theorem byPriority_map {f : Module → Module} {modules : List Module}
    (hf : ∀ a ∈ modules, ∀ b ∈ modules,
      ((f a).priority ≤ (f b).priority ↔ a.priority ≤ b.priority)) :
    byPriority (modules.map f) = (byPriority modules).map f := by
  refine (List.map_mergeSort ?_).symm
  intro a ha b hb
  exact decide_eq_decide.mpr (hf a ha b hb).symm

end Composition

/-! ## Uniqueness -/

private theorem mem_of_filter_eq {a b : List Module}
    (hsame : ∀ p, a.filter (fun m => decide (m.priority = p)) =
      b.filter fun m => decide (m.priority = p)) {m : Module} (hm : m ∈ b) : m ∈ a := by
  have hown : m ∈ b.filter fun x => decide (x.priority = m.priority) :=
    List.mem_filter.mpr ⟨hm, decide_eq_true rfl⟩
  rw [← hsame] at hown
  exact (List.mem_filter.mp hown).1

private theorem head_priority_le {m x : Module} {rest : List Module}
    (hascending : (m :: rest).Pairwise fun a b => a.priority ≤ b.priority)
    (hx : x ∈ m :: rest) : m.priority ≤ x.priority := by
  rcases List.mem_cons.mp hx with rfl | hrest
  · exact Int64.le_refl _
  · exact List.rel_of_pairwise_cons hascending hrest

/-- Modules by ascending priority are determined by the modules of each priority, in their order. -/
private theorem eq_of_ascending {a b : List Module}
    (ha : a.Pairwise fun x y => x.priority ≤ y.priority)
    (hb : b.Pairwise fun x y => x.priority ≤ y.priority)
    (hsame : ∀ p, a.filter (fun m => decide (m.priority = p)) =
      b.filter fun m => decide (m.priority = p)) : a = b := by
  induction a generalizing b with
  | nil =>
    cases b with
    | nil => rfl
    | cons y others => cases mem_of_filter_eq hsame (List.mem_cons_self ..)
  | cons x rest ih =>
    cases b with
    | nil => cases mem_of_filter_eq (fun p => (hsame p).symm) (List.mem_cons_self ..)
    | cons y others =>
      -- both lists begin with the lowest priority, and so with the first module that has it
      have hxy := head_priority_le ha (mem_of_filter_eq hsame (List.mem_cons_self ..))
      have hyx := head_priority_le hb
        (mem_of_filter_eq (fun p => (hsame p).symm) (List.mem_cons_self ..))
      have hpriority : y.priority = x.priority := Int64.le_antisymm hyx hxy
      have hfirst := hsame x.priority
      simp only [List.filter_cons, hpriority, decide_true, if_true, List.cons.injEq] at hfirst
      obtain ⟨rfl, hbehind⟩ := hfirst
      have hrest : rest = others := by
        apply ih ha.of_cons hb.of_cons
        intro p
        by_cases hp : x.priority = p
        · rw [← hp]
          exact hbehind
        · simpa [List.filter_cons, hp] using hsame p
      rw [hrest]

/-- There is only one order of the modules by their priorities. -/
theorem PriorityOrder.unique {modules a b : List Module} (ha : PriorityOrder modules a)
    (hb : PriorityOrder modules b) : a = b :=
  eq_of_ascending ha.ascending hb.ascending fun p => (ha.stable p).trans (hb.stable p).symm

theorem PriorityOrder.byPriority_eq {modules ordered : List Module}
    (h : PriorityOrder modules ordered) : Composition.byPriority modules = ordered :=
  (Composition.byPriority_priorityOrder modules).unique h

/-! ## Decidability -/

/-- Only priorities that some module has need to be looked at. -/
theorem priorityOrder_iff {modules ordered : List Module} : PriorityOrder modules ordered ↔
    ordered.Perm modules ∧ (ordered.Pairwise fun a b => a.priority ≤ b.priority) ∧
      ∀ q ∈ modules, ordered.filter (fun m => decide (m.priority = q.priority)) =
        modules.filter fun m => decide (m.priority = q.priority) := by
  constructor
  · intro h
    exact ⟨h.perm, h.ascending, fun q _ => h.stable q.priority⟩
  · rintro ⟨hperm, hascending, hstable⟩
    refine ⟨hperm, hascending, fun p => ?_⟩
    by_cases hp : ∃ q ∈ modules, q.priority = p
    · obtain ⟨q, hq, rfl⟩ := hp
      exact hstable q hq
    · -- no module is left on either side
      have hnone : ∀ m ∈ modules, ¬ decide (m.priority = p) = true := fun m hm h =>
        hp ⟨m, hm, of_decide_eq_true h⟩
      rw [List.filter_eq_nil_iff.mpr hnone,
        List.filter_eq_nil_iff.mpr fun m hm => hnone m (hperm.mem_iff.mp hm)]

instance {modules ordered : List Module} : Decidable (PriorityOrder modules ordered) :=
  decidable_of_iff _ priorityOrder_iff.symm

end ModularGrammar
