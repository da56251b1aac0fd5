import Mathlib.Data.List.Basic
import ModularGrammar.Proofs.Linking

/-!
# The Precedence Table

A precedence table has one row for each priority that is declared, lowest first.  The row of a
priority holds the tokens of its left declarations, then of its nonassoc ones, then of its right
ones, each in the order in which they are declared; its associativity is the first of the three that
is declared at all.  No token is lost or repeated, and only declarations that agree in priority and
associativity have to stay in their order.

## Architecture

1. `declaredAs`, `rowAt`: the declarations of one kind, and the row of a priority
2. `Levels`: the priorities that are declared
3. `exists_addInFront_rows`, `foldr_addInFront`: one declaration more, and by induction a sorted
   list
4. `exists_mergeRows`, `perm_tokens_mergeRows`, `mergeRows_eq_of_reordered`: the table of any list
5. `precedence_table_merged`: the table of any list, and of linked modules
-/

namespace ModularGrammar

namespace Precedence

variable {declarations rest a b : List Precedence} {d e : Precedence} {p : Int64}
  {levels : List Int64}

/-! ## Rows -/

/-- The declarations of a priority and an associativity, in order. -/
def declaredAs (declarations : List Precedence) (p : Int64) (associativity : Associativity) :
    List Precedence :=
  declarations.filter fun d => d.priority = p ∧ d.associativity = associativity

def rowAt (declarations : List Precedence) (p : Int64) : PrecedenceRow where
  associativity :=
    if declaredAs declarations p .left ≠ [] then .left
    else if declaredAs declarations p .nonassoc ≠ [] then .nonassoc
    else .right
  tokens := (declaredAs declarations p .left ++ declaredAs declarations p .nonassoc ++
    declaredAs declarations p .right).flatMap tokens

/-- The priorities that are declared, by ascending priority. -/
structure Levels (declarations : List Precedence) (levels : List Int64) : Prop where
  ascending : levels.Pairwise fun p q => p < q
  mem_iff : ∀ p, p ∈ levels ↔ ∃ d ∈ declarations, d.priority = p

/-- `b` holds the declarations of `a`, and those that agree in priority and associativity stand in
the same order. -/
structure Reordered (a b : List Precedence) : Prop where
  perm : a.Perm b
  stable : ∀ p associativity, declaredAs a p associativity = declaredAs b p associativity

theorem mem_declaredAs {associativity : Associativity} :
    d ∈ declaredAs declarations p associativity ↔
    d ∈ declarations ∧ d.priority = p ∧ d.associativity = associativity := by
  simp [declaredAs]

theorem declaredAs_cons (d : Precedence) (rest : List Precedence) (p : Int64)
    (associativity : Associativity) : declaredAs (d :: rest) p associativity =
      if d.priority = p ∧ d.associativity = associativity then
        d :: declaredAs rest p associativity
      else declaredAs rest p associativity := by
  simp [declaredAs, List.filter_cons]

/-- Rows depend only on the declarations of each kind. -/
theorem rowAt_congr (h : ∀ associativity, declaredAs a p associativity =
    declaredAs b p associativity) : rowAt a p = rowAt b p := by
  simp only [rowAt, h]

/-- The row of a priority does not depend on declarations of other priorities. -/
theorem rowAt_cons_of_ne (h : d.priority ≠ p) : rowAt (d :: rest) p = rowAt rest p := by
  apply rowAt_congr
  intro associativity
  rw [declaredAs_cons, if_neg fun heq => h heq.1]

/-! ## Order -/

theorem before_iff : before d e = true ↔ d.priority < e.priority ∨
    d.priority = e.priority ∧ d.associativity.rank ≤ e.associativity.rank := by
  simp [before]

private theorem before_trans (a b c : Precedence) (hab : before a b = true)
    (hbc : before b c = true) : before a c = true := by
  rw [before_iff] at hab hbc ⊢
  grind

private theorem before_total (a b : Precedence) : (before a b || before b a) = true := by
  rw [Bool.or_eq_true, before_iff, before_iff]
  grind

/-- Sorting keeps the declarations of each kind in their order. -/
theorem reordered_mergeSort (declarations : List Precedence) :
    Reordered (declarations.mergeSort before) declarations where
  perm := List.mergeSort_perm declarations before
  stable := by
    intro p associativity
    apply filter_mergeSort before_trans before_total
    intro a _ b _ ha hb
    obtain ⟨hpa, haa⟩ := of_decide_eq_true ha
    obtain ⟨hpb, hab⟩ := of_decide_eq_true hb
    rw [before_iff, hpa, hpb, haa, hab]
    exact Or.inr ⟨rfl, Nat.le_refl _⟩

/-! ## One declaration more -/

/-- A declaration that comes before all others decides the associativity of its row, and its tokens
stand first in it. -/
theorem rowAt_cons_of_before (h : ∀ e ∈ rest, before d e = true) :
    rowAt (d :: rest) d.priority =
      ⟨d.associativity, d.tokens ++ (rowAt rest d.priority).tokens⟩ := by
  -- of the same priority there are only declarations that may come later
  have hnone : ∀ associativity, associativity.rank < d.associativity.rank →
      declaredAs rest d.priority associativity = [] := by
    intro associativity hrank
    apply List.eq_nil_iff_forall_not_mem.mpr
    intro e he
    obtain ⟨hrest, hpriority, rfl⟩ := mem_declaredAs.mp he
    rcases before_iff.mp (h e hrest) with hlt | ⟨-, hle⟩
    · rw [hpriority] at hlt
      exact Int64.lt_irrefl hlt
    · omega
  cases hd : d.associativity with
  | left => simp [rowAt, declaredAs_cons, hd]
  | nonassoc =>
    have hleft := hnone .left (by rw [hd]; decide)
    simp [rowAt, declaredAs_cons, hd, hleft]
  | right =>
    have hleft := hnone .left (by rw [hd]; decide)
    have hnonassoc := hnone .nonassoc (by rw [hd]; decide)
    simp [rowAt, declaredAs_cons, hd, hleft, hnonassoc]

/-- A priority that is not declared has no tokens. -/
theorem tokens_rowAt_of_ne (h : ∀ e ∈ rest, e.priority ≠ p) : (rowAt rest p).tokens = [] := by
  have hnone : ∀ associativity, declaredAs rest p associativity = [] := by
    intro associativity
    apply List.eq_nil_iff_forall_not_mem.mpr
    intro e he
    exact h e (mem_declaredAs.mp he).1 (mem_declaredAs.mp he).2.1
  simp [rowAt, hnone]

/-- The rows of some declarations with their priorities. -/
def taggedRows (declarations : List Precedence) (levels : List Int64) :
    List (Int64 × PrecedenceRow) :=
  levels.map fun p => (p, rowAt declarations p)

/-- Declarations of a lower priority leave the rows as they are. -/
theorem taggedRows_cons_of_lt (h : ∀ p ∈ levels, d.priority < p) :
    taggedRows (d :: rest) levels = taggedRows rest levels := by
  apply List.map_congr_left
  intro p hp
  rw [rowAt_cons_of_ne]
  rintro rfl
  exact Int64.lt_irrefl (h _ hp)

section Front

variable (hfirst : ∀ e ∈ rest, before d e = true) (hlevels : Levels rest levels)

include hfirst hlevels

/-- No priority is lower than that of a declaration that comes before all others. -/
theorem priority_le_of_mem : ∀ p ∈ levels, d.priority ≤ p := by
  intro p hp
  obtain ⟨e, he, rfl⟩ := (hlevels.mem_iff p).mp hp
  rcases before_iff.mp (hfirst e he) with hlt | ⟨heq, -⟩
  · exact Int64.le_of_lt hlt
  · exact Int64.le_of_eq heq

/-- A declaration whose priority is there already is put into the first row. -/
theorem addInFront_rows_of_mem (hmem : d.priority ∈ levels) : Levels (d :: rest) levels ∧
    addInFront d (taggedRows rest levels) = taggedRows (d :: rest) levels := by
  have hle := priority_le_of_mem hfirst hlevels
  match levels with
  | [] => cases hmem
  | p :: higher =>
    obtain ⟨hlowest, -⟩ := List.pairwise_cons.mp hlevels.ascending
    -- nothing is declared below `d`, so the lowest priority is its own
    have hp : p = d.priority := by
      rcases List.mem_cons.mp hmem with heq | hin
      · exact heq.symm
      · exact absurd (hlowest _ hin) (Int64.not_lt.mpr (hle p List.mem_cons_self))
    subst hp
    refine ⟨⟨hlevels.ascending, ?_⟩, ?_⟩
    · intro q
      rw [hlevels.mem_iff]
      have hown : d.priority = q → ∃ e ∈ rest, e.priority = q := by
        rintro rfl
        exact (hlevels.mem_iff _).mp hmem
      simp only [List.exists_mem_cons_iff]
      exact ⟨Or.inr, fun h => h.elim hown id⟩
    · -- the rows above are those of the other declarations
      have hothers : taggedRows (d :: rest) higher = taggedRows rest higher :=
        taggedRows_cons_of_lt hlowest
      rw [taggedRows] at hothers
      simp only [taggedRows, List.map_cons, addInFront, if_true, rowAt_cons_of_before hfirst,
        hothers]

/-- A declaration of a new priority opens a row. -/
theorem addInFront_rows_of_notMem (hmem : d.priority ∉ levels) :
    Levels (d :: rest) (d.priority :: levels) ∧
      addInFront d (taggedRows rest levels) = taggedRows (d :: rest) (d.priority :: levels) := by
  have hnew : ∀ e ∈ rest, e.priority ≠ d.priority := by
    intro e he heq
    exact hmem ((hlevels.mem_iff _).mpr ⟨e, he, heq⟩)
  have hne : ∀ p ∈ levels, d.priority ≠ p := by
    rintro p hp rfl
    exact hmem hp
  have hlt : ∀ p ∈ levels, d.priority < p := fun p hp =>
    Int64.lt_of_le_of_ne (priority_le_of_mem hfirst hlevels p hp) (hne p hp)
  -- no row has the priority of `d`, so one is opened for it
  have hopened : addInFront d (taggedRows rest levels) =
      (d.priority, ⟨d.associativity, d.tokens⟩) :: taggedRows rest levels := by
    cases levels with
    | nil => rfl
    | cons p higher => simp [taggedRows, addInFront, (hne p List.mem_cons_self).symm]
  refine ⟨⟨List.pairwise_cons.mpr ⟨hlt, hlevels.ascending⟩, ?_⟩, ?_⟩
  · intro q
    rw [List.mem_cons, hlevels.mem_iff, List.exists_mem_cons_iff, eq_comm]
  · rw [hopened, ← taggedRows_cons_of_lt hlt, taggedRows, taggedRows, List.map_cons,
      rowAt_cons_of_before hfirst, tokens_rowAt_of_ne hnew, List.append_nil]

/-- A declaration that comes before all others leaves rows for all priorities. -/
theorem exists_addInFront_rows : ∃ levels', Levels (d :: rest) levels' ∧
    addInFront d (taggedRows rest levels) = taggedRows (d :: rest) levels' := by
  by_cases hmem : d.priority ∈ levels
  · exact ⟨_, addInFront_rows_of_mem hfirst hlevels hmem⟩
  · exact ⟨_, addInFront_rows_of_notMem hfirst hlevels hmem⟩

end Front

/-- Sorted declarations are put into the rows of their priorities. -/
theorem foldr_addInFront (hsorted : declarations.Pairwise fun d e => before d e = true) :
    ∃ levels, Levels declarations levels ∧
      declarations.foldr addInFront [] = taggedRows declarations levels := by
  induction declarations with
  | nil => exact ⟨[], ⟨List.Pairwise.nil, by simp⟩, rfl⟩
  | cons d rest ih =>
    obtain ⟨hfirst, hrest⟩ := List.pairwise_cons.mp hsorted
    obtain ⟨levels, hlevels, hrows⟩ := ih hrest
    rw [List.foldr_cons, hrows]
    exact exists_addInFront_rows hfirst hlevels

/-! ## The table -/

theorem Levels.of_perm (h : Levels a levels) (hperm : a.Perm b) : Levels b levels where
  ascending := h.ascending
  mem_iff := by
    intro p
    rw [h.mem_iff]
    simp only [hperm.mem_iff]

/-- The priorities that are declared are determined by the declarations. -/
theorem Levels.unique {levels' : List Int64} (h : Levels declarations levels)
    (h' : Levels declarations levels') : levels = levels' := by
  have hnodup : ∀ {l : List Int64}, l.Pairwise (fun p q => p < q) → l.Nodup :=
    List.Pairwise.imp Int64.ne_of_lt
  have hperm : levels.Perm levels' := by
    rw [List.perm_ext_iff_of_nodup (hnodup h.ascending) (hnodup h'.ascending)]
    intro p
    rw [h.mem_iff, h'.mem_iff]
  apply hperm.eq_of_pairwise _ h.ascending h'.ascending
  intro p q _ _ hpq hqp
  exact absurd (Int64.lt_trans hpq hqp) Int64.lt_irrefl

/-- The table has one row for each priority that is declared, lowest first. -/
theorem exists_mergeRows (declarations : List Precedence) :
    ∃ levels, Levels declarations levels ∧
      mergeRows declarations = levels.map (rowAt declarations) := by
  have hsame := reordered_mergeSort declarations
  obtain ⟨levels, hlevels, hrows⟩ := foldr_addInFront
    (List.pairwise_mergeSort before_trans before_total declarations)
  refine ⟨levels, hlevels.of_perm hsame.perm, ?_⟩
  rw [mergeRows, hrows, taggedRows, List.map_map]
  apply List.map_congr_left
  intro p _
  exact rowAt_congr (hsame.stable p)

theorem flatMap_tokens_addInFront (d : Precedence) (rows : List (Int64 × PrecedenceRow)) :
    (addInFront d rows).flatMap (fun row => row.2.tokens) =
      d.tokens ++ rows.flatMap fun row => row.2.tokens := by
  match rows with
  | [] => simp [addInFront]
  | (p, row) :: rows =>
    rw [addInFront]
    split <;> simp

/-- The rows hold the tokens of all declarations, each as often as it is declared. -/
theorem perm_tokens_mergeRows (declarations : List Precedence) :
    ((mergeRows declarations).flatMap PrecedenceRow.tokens).Perm
      (declarations.flatMap tokens) := by
  have hsorted : ∀ l : List Precedence,
      (l.foldr addInFront []).flatMap (fun row => row.2.tokens) = l.flatMap tokens := by
    intro l
    induction l with
    | nil => rfl
    | cons d rest ih =>
      rw [List.foldr_cons, flatMap_tokens_addInFront, ih, List.flatMap_cons]
  rw [mergeRows, List.flatMap_map, hsorted]
  exact (List.mergeSort_perm declarations before).flatMap_right tokens

/-- Declarations that differ in priority or associativity may change places. -/
theorem mergeRows_eq_of_reordered (h : Reordered a b) : mergeRows a = mergeRows b := by
  obtain ⟨levels, hlevels, hrows⟩ := exists_mergeRows a
  obtain ⟨levels', hlevels', hrows'⟩ := exists_mergeRows b
  obtain rfl := (hlevels.of_perm h.perm).unique hlevels'
  rw [hrows, hrows']
  apply List.map_congr_left
  intro p _
  exact rowAt_congr (h.stable p)

end Precedence

/-! ## The table of a link -/

/-- The table of any declarations has one row for each priority, by ascending priority, with the
tokens of the left, the nonassoc and the right declarations of the priority, each in order.  It
holds every token as often as it is declared, and depends only on the order of declarations of one
kind.  The table of linked modules is that of the declarations of all modules in the order of the
priorities of the modules, where a token is written as it is in the productions of its module. -/
theorem precedence_table_merged :
    (∀ declarations, ∃ levels, Precedence.Levels declarations levels ∧
      Precedence.mergeRows declarations = levels.map (Precedence.rowAt declarations)) ∧
    (∀ declarations, ((Precedence.mergeRows declarations).flatMap PrecedenceRow.tokens).Perm
      (declarations.flatMap Precedence.tokens)) ∧
    (∀ a b, Precedence.Reordered a b → Precedence.mergeRows a = Precedence.mergeRows b) ∧
    ∀ helper entry modules refusal out, linkModules helper entry modules refusal = .ok out →
      ∃ ordered, PriorityOrder modules ordered ∧
        out.grammar.rules.entries = ordered.flatMap (Module.globalRules modules) ∧
        out.grammar.precedence =
          Precedence.mergeRows (ordered.flatMap (Module.globalPrecedence modules)) := by
  refine ⟨Precedence.exists_mergeRows, Precedence.perm_tokens_mergeRows,
    fun _ _ h => Precedence.mergeRows_eq_of_reordered h, ?_⟩
  intro helper entry modules refusal out hlinked
  exact ⟨Composition.byPriority modules, Composition.byPriority_priorityOrder modules,
    rules_of_linkModules hlinked, precedence_of_linkModules hlinked⟩

/-- Operators of two modules at one priority, one of them a token that is imported. -/
def operatorModules : List Module := [
  { name := "main"
    grammar := { rules := .ofList [("top", [⟨"NUM", none, some "POW"⟩])] }
    imports := [⟨"lib", "NUMBER", "NUM", true⟩]
    precedence := [⟨3, .right, ["POW", "NUM"]⟩, ⟨1, .nonassoc, ["EQ"]⟩] },
  { name := "lib"
    priority := 10
    grammar := {}
    exports := [⟨"NUMBER", "NUMBER", true⟩]
    precedence := [⟨3, .left, ["PLUS"]⟩, ⟨Int64.minValue, .right, ["X"]⟩] }]

theorem operatorModules_precedence_table :
    Precedence.Reordered [⟨3, .right, ["POW"]⟩, ⟨3, .left, ["PLUS"]⟩]
      [⟨3, .left, ["PLUS"]⟩, ⟨3, .right, ["POW"]⟩] ∧
    Precedence.mergeRows [⟨3, .right, ["POW"]⟩, ⟨3, .left, ["PLUS"]⟩] =
      Precedence.mergeRows [⟨3, .left, ["PLUS"]⟩, ⟨3, .right, ["POW"]⟩] ∧
    ∃ out, linkModules "wrap" "main" operatorModules = .ok out ∧
      out.grammar.precedence = [⟨.right, ["lib__X"]⟩, ⟨.nonassoc, ["main__EQ"]⟩,
        ⟨.left, ["lib__PLUS", "main__POW", "lib__NUMBER"]⟩] := by
  obtain ⟨htable, -, hreordered, hlink⟩ := precedence_table_merged
  have hswapped : Precedence.Reordered [⟨3, .right, ["POW"]⟩, ⟨3, .left, ["PLUS"]⟩]
      [⟨3, .left, ["PLUS"]⟩, ⟨3, .right, ["POW"]⟩] := by
    refine ⟨List.Perm.swap .., fun p associativity => ?_⟩
    -- the two are of different kinds, so at most one of them is of the kind asked for
    by_cases hp : p = 3 <;> cases associativity <;> simp [Precedence.declaredAs, hp, eq_comm]
  have hlinks : ∃ out, linkModules "wrap" "main" operatorModules = .ok out := by
    apply (exists_linkModules_iff (noneRefused_never _)).mpr
    exact ⟨by decide, by decide +kernel, by decide, by decide, _, rfl, Or.inr (by decide)⟩
  obtain ⟨out, hlinked⟩ := hlinks
  obtain ⟨ordered, hordered, -, hprecedence⟩ := hlink _ _ _ _ _ hlinked
  refine ⟨hswapped, hreordered _ _ hswapped, out, hlinked, ?_⟩
  have horder : ordered = operatorModules.reverse := hordered.unique (by decide +kernel)
  have hdeclared : operatorModules.reverse.flatMap (Module.globalPrecedence operatorModules) =
      [⟨3, .left, ["lib__PLUS"]⟩, ⟨Int64.minValue, .right, ["lib__X"]⟩,
        ⟨3, .right, ["main__POW", "lib__NUMBER"]⟩, ⟨1, .nonassoc, ["main__EQ"]⟩] := by
    decide +kernel
  -- the table is read off the priorities that are declared, without sorting anything
  obtain ⟨levels, hlevels, hrows⟩ :=
    htable (operatorModules.reverse.flatMap (Module.globalPrecedence operatorModules))
  rw [hprecedence, horder, hrows]
  rw [hdeclared] at hlevels ⊢
  have hthree : levels = [Int64.minValue, 1, 3] := by
    apply hlevels.unique
    refine ⟨by decide, fun p => ?_⟩
    simp only [List.mem_cons, List.not_mem_nil, or_false, exists_eq_or_imp, exists_eq_left]
    tauto
  rw [hthree]
  decide +kernel

end ModularGrammar
