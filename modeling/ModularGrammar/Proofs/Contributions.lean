import Mathlib.Data.Nat.Init
import Mathlib.Order.Nat
import ModularGrammar.Proofs.LinkedLexicon
import ModularGrammar.Summary

/-!
# What Summaries Count

A summary knows modules by their qualifiers only, and a global name counts for the longest qualifier
that it begins with.  Where no name of a module goes on, behind the module's qualifier, like the
qualifier of another module, that is the module that defines the name.  Otherwise some module gets
less than it defines: of the modules whose names count elsewhere, the one with the shortest
qualifier can get nothing in return.

## Architecture

1. `owner?_eq_some_iff`: which qualifier a name counts for
2. `Referent.CountsFor`, `Referent.Captured`: the same, said of modules
3. `contributed_exact_iff`: when names of one kind are counted rightly
4. `contributions_exact_iff`: when the whole summary is right
-/

namespace ModularGrammar

/-! ## The longest qualifier -/

namespace Summary

/-- The longer one of two qualifiers, or the second of equally long ones. -/
def longer (longest : Option String) (q : String) : Option String :=
  match longest with
  | none => some q
  | some l => some (if l.utf8ByteSize ≤ q.utf8ByteSize then q else l)

theorem owner?_eq_foldl (qualifiers : List String) (name : String) :
    owner? qualifiers name =
      (qualifiers.filter fun q => Text.begins q name).foldl longer none :=
  rfl

theorem exists_foldl_longer (qualifiers : List String) (l : String) :
    ∃ q ∈ l :: qualifiers, qualifiers.foldl longer (some l) = some q ∧
      ∀ q' ∈ l :: qualifiers, q'.utf8ByteSize ≤ q.utf8ByteSize := by
  induction qualifiers generalizing l with
  | nil => exact ⟨l, List.mem_singleton_self l, rfl, by simp⟩
  | cons next rest ih =>
    rw [List.foldl_cons, longer]
    split
    · -- the next one is at least as long
      next hle =>
      obtain ⟨q, hq, hfold, hlongest⟩ := ih next
      refine ⟨q, List.mem_cons_of_mem _ hq, hfold, ?_⟩
      rintro q' (_ | ⟨_, hq'⟩)
      · exact hle.trans (hlongest next List.mem_cons_self)
      · exact hlongest q' hq'
    · next hlt =>
      obtain ⟨q, hq, hfold, hlongest⟩ := ih l
      have hl := hlongest l List.mem_cons_self
      refine ⟨q, ?_, hfold, ?_⟩
      · rcases List.mem_cons.mp hq with rfl | hrest
        · exact List.mem_cons_self
        · exact List.mem_cons_of_mem _ (List.mem_cons_of_mem _ hrest)
      · intro q' hq'
        rcases List.mem_cons.mp hq' with rfl | hq'
        · exact hl
        · rcases List.mem_cons.mp hq' with rfl | hrest
          · omega
          · exact hlongest q' (List.mem_cons_of_mem _ hrest)

/-- Of two beginnings of a name the one that is not longer stands at the beginning of the other. -/
theorem exists_append_of_le {name q q' : String} (hq : ∃ rest, name = q ++ rest)
    (hq' : ∃ rest, name = q' ++ rest) (hle : q'.utf8ByteSize ≤ q.utf8ByteSize) :
    ∃ part, q = q' ++ part := by
  obtain ⟨rest, rfl⟩ := hq
  obtain ⟨rest', heq⟩ := hq'
  rcases Text.append_eq_append_cases heq with ⟨part, rfl, -⟩ | ⟨part, rfl, -⟩
  · -- nothing is left for what the other one has more
    rw [String.utf8ByteSize_append] at hle
    have hempty : part = "" := String.utf8ByteSize_eq_zero_iff.mp (by omega)
    rw [hempty, String.append_empty]
    exact ⟨"", String.append_empty.symm⟩
  · exact ⟨part, rfl⟩

/-- A name counts for a qualifier that it begins with and that begins with all other qualifiers the
name begins with. -/
theorem owner?_eq_some_iff {qualifiers : List String} {name q : String} :
    owner? qualifiers name = some q ↔
      q ∈ qualifiers ∧ (∃ rest, name = q ++ rest) ∧
        ∀ q' ∈ qualifiers, (∃ rest, name = q' ++ rest) → ∃ part, q = q' ++ part := by
  have hmem : ∀ q', q' ∈ qualifiers.filter (fun q => Text.begins q name) ↔
      q' ∈ qualifiers ∧ ∃ rest, name = q' ++ rest := by
    intro q'
    rw [List.mem_filter, Text.begins_iff]
  rw [owner?_eq_foldl]
  cases hbeginning : qualifiers.filter fun q => Text.begins q name with
  | nil =>
    rw [hbeginning] at hmem
    simp only [List.foldl_nil, reduceCtorEq, false_iff]
    rintro ⟨hq, hrest, -⟩
    exact List.not_mem_nil ((hmem q).mpr ⟨hq, hrest⟩)
  | cons first others =>
    rw [hbeginning] at hmem
    obtain ⟨longest, hlongest, hfold, hsize⟩ := exists_foldl_longer others first
    have hbegins := (hmem longest).mp hlongest
    have hstart : (first :: others).foldl longer none = others.foldl longer (some first) := rfl
    rw [hstart, hfold, Option.some.injEq]
    constructor
    · rintro rfl
      refine ⟨hbegins.1, hbegins.2, fun q' hq' hrest => ?_⟩
      exact exists_append_of_le hbegins.2 hrest (hsize q' ((hmem q').mpr ⟨hq', hrest⟩))
    · rintro ⟨hq, hrest, hall⟩
      -- each of the two begins with the other
      obtain ⟨part, hpart⟩ := hall longest hbegins.1 hbegins.2
      obtain ⟨part', hpart'⟩ :=
        exists_append_of_le hbegins.2 hrest (hsize q ((hmem q).mpr ⟨hq, hrest⟩))
      have hsizes := congrArg String.utf8ByteSize hpart
      have hsizes' := congrArg String.utf8ByteSize hpart'
      rw [String.utf8ByteSize_append] at hsizes hsizes'
      have hempty : part = "" := String.utf8ByteSize_eq_zero_iff.mp (by omega)
      rw [hpart, hempty, String.append_empty]

end Summary

/-! ## Counting for modules -/

/-- What modules define, of the kind whose names are given. -/
def definitionsOf (defined : Module → List String) (modules : List Module) : List Referent :=
  modules.flatMap fun m => (defined m).map (Referent.mk m.name)

namespace Referent

/-- The module for which a referent counts: its qualifier stands at the beginning of the global
name, and is the longest one that does. -/
structure CountsFor (modules : List Module) (p : Referent) (counted : String) : Prop where
  begins : ∃ rest, p.globalName modules = linkQualifier modules counted ++ rest
  longest : ∀ m ∈ modules,
    (∃ rest, p.globalName modules = linkQualifier modules m.name ++ rest) →
      ∃ part, linkQualifier modules counted = linkQualifier modules m.name ++ part

/-- The name of a referent begins with what the qualifier of some module has behind the qualifier
of the owner. -/
def Captured (modules : List Module) (p : Referent) : Prop :=
  ∃ m ∈ modules, ∃ rest, p.Extends modules ⟨m.name, rest⟩

section CountsFor

variable {modules : List Module} {p : Referent} {counted counted' : String}

theorem owner?_globalName_iff (hcounted : counted ∈ modules.map Module.name) :
    Summary.owner? (modules.map fun m => linkQualifier modules m.name) (p.globalName modules) =
        some (linkQualifier modules counted) ↔ p.CountsFor modules counted := by
  have hmem : linkQualifier modules counted ∈
      modules.map fun m => linkQualifier modules m.name := by
    obtain ⟨m, hm, rfl⟩ := List.mem_map.mp hcounted
    exact List.mem_map.mpr ⟨m, hm, rfl⟩
  rw [Summary.owner?_eq_some_iff]
  constructor
  · rintro ⟨-, hbegins, hall⟩
    exact ⟨hbegins, fun m hm hrest => hall _ (List.mem_map.mpr ⟨m, hm, rfl⟩) hrest⟩
  · rintro ⟨hbegins, hlongest⟩
    refine ⟨hmem, hbegins, fun q' hq' hrest => ?_⟩
    obtain ⟨m, hm, rfl⟩ := List.mem_map.mp hq'
    exact hlongest m hm hrest

/-- A referent counts for one module at most. -/
theorem CountsFor.unique (hcounted : counted ∈ modules.map Module.name)
    (hcounted' : counted' ∈ modules.map Module.name) (h : p.CountsFor modules counted)
    (h' : p.CountsFor modules counted') : counted = counted' := by
  have heq := (owner?_globalName_iff hcounted).mpr h
  rw [(owner?_globalName_iff hcounted').mpr h'] at heq
  exact (linkQualifier_inj hcounted' hcounted (Option.some.inj heq)).symm

/-- A referent that counts for another module than its owner counts for one with a longer
qualifier. -/
theorem CountsFor.length_lt (howner : p.owner ∈ modules.map Module.name)
    (hcounted : counted ∈ modules.map Module.name) (h : p.CountsFor modules counted)
    (hne : counted ≠ p.owner) :
    (linkQualifier modules p.owner).length < (linkQualifier modules counted).length := by
  obtain ⟨m, hm, hname⟩ := List.mem_map.mp howner
  obtain ⟨part, hpart⟩ := h.longest m hm ⟨p.name, by rw [hname]; rfl⟩
  rw [hname] at hpart
  have hnonempty : part.length ≠ 0 := by
    intro hzero
    rw [String.length_eq_zero_iff.mp hzero, String.append_empty] at hpart
    exact hne (linkQualifier_inj hcounted howner hpart)
  rw [hpart, String.length_append]
  omega

/-- A referent counts for its owner unless it is captured. -/
theorem countsFor_owner_iff : p.CountsFor modules p.owner ↔ ¬ p.Captured modules := by
  constructor
  · rintro h ⟨m, hm, rest, part, hne, hqualifier, hname⟩
    -- the longer qualifier would have to stand at the beginning of the shorter one
    have hbegins : ∃ rest, p.globalName modules = linkQualifier modules m.name ++ rest :=
      ⟨rest, by rw [hqualifier, globalName, hname, String.append_assoc]⟩
    obtain ⟨more, hmore⟩ := h.longest m hm hbegins
    have hlengths := congrArg String.length hmore
    rw [hqualifier, String.length_append, String.length_append] at hlengths
    exact hne (String.length_eq_zero_iff.mp (by omega))
  · intro hfree
    refine ⟨⟨p.name, rfl⟩, fun m hm hbegins => ?_⟩
    obtain ⟨rest, hrest⟩ := hbegins
    rw [globalName] at hrest
    rcases Text.append_eq_append_cases hrest with ⟨part, hqualifier, hname⟩ | ⟨part, hqualifier, -⟩
    · -- nothing may follow the qualifier of the owner
      have hempty : part = "" := by
        by_contra hne
        exact hfree ⟨m, hm, rest, part, hne, hqualifier, hname⟩
      rw [hqualifier, hempty, String.append_empty]
      exact ⟨"", String.append_empty.symm⟩
    · exact ⟨part, hqualifier⟩

end CountsFor

end Referent

/-! ## One kind of names -/

/-- How many names of a kind count for a module. -/
def contributed (defined : Module → List String) (modules : List Module) (counted : String) : Nat :=
  Summary.countOwned (modules.map fun m => linkQualifier modules m.name)
    (globalNames modules defined) (linkQualifier modules counted)

section Kind

variable {defined : Module → List String} {modules : List Module}

theorem mem_definitionsOf {p : Referent} : p ∈ definitionsOf defined modules ↔
    ∃ m ∈ modules, m.name = p.owner ∧ p.name ∈ defined m := by
  obtain ⟨owner, name⟩ := p
  simp [definitionsOf, and_comm]

theorem owner_of_definitionsOf {p : Referent} (h : p ∈ definitionsOf defined modules) :
    p.owner ∈ modules.map Module.name := by
  obtain ⟨m, hm, hname, -⟩ := mem_definitionsOf.mp h
  exact List.mem_map.mpr ⟨m, hm, hname⟩

theorem contributed_eq_countP (defined : Module → List String) (modules : List Module)
    (counted : String) : contributed defined modules counted =
      (definitionsOf defined modules).countP fun p =>
        Summary.owner? (modules.map fun m => linkQualifier modules m.name)
          (p.globalName modules) == some (linkQualifier modules counted) := by
  have hnames : globalNames modules defined =
      (definitionsOf defined modules).map (Referent.globalName modules) := by
    simp [globalNames, definitionsOf, List.map_flatMap, Function.comp_def]
  rw [contributed, Summary.countOwned, hnames, List.countP_map]
  rfl

/-- Of all names those of one module are as many as the module defines. -/
theorem countP_owner (hdistinct : (modules.map Module.name).Nodup) {m : Module}
    (hm : m ∈ modules) :
    (definitionsOf defined modules).countP (fun p => p.owner == m.name) = (defined m).length := by
  induction modules with
  | nil => cases hm
  | cons n rest ih =>
    rw [List.map_cons, List.nodup_cons] at hdistinct
    rw [definitionsOf, List.flatMap_cons, List.countP_append, List.countP_map]
    rcases List.mem_cons.mp hm with rfl | hrest
    · -- no other module has this name
      have hothers : (definitionsOf defined rest).countP (fun p => p.owner == m.name) = 0 := by
        rw [List.countP_eq_zero]
        intro p hp hname
        rw [← eq_of_beq hname] at hdistinct
        exact hdistinct.1 (owner_of_definitionsOf hp)
      rw [definitionsOf] at hothers
      simp [hothers, Function.comp_def]
    · have hne : n.name ≠ m.name := fun h => hdistinct.1 (h ▸ List.mem_map_of_mem hrest)
      have hrestCount := ih hdistinct.2 hrest
      rw [definitionsOf] at hrestCount
      simp [hrestCount, hne, Function.comp_def]

/-- If what is counted is part of something else and as much, it is all of it. -/
theorem forall_of_countP_eq {α : Type} {l : List α} {p q : α → Bool}
    (hpart : ∀ a ∈ l, p a = true → q a = true) (hcount : l.countP p = l.countP q) :
    ∀ a ∈ l, q a = true → p a = true := by
  induction l with
  | nil => simp
  | cons b rest ih =>
    have hb := hpart b List.mem_cons_self
    have hrest : ∀ a ∈ rest, p a = true → q a = true :=
      fun a ha => hpart a (List.mem_cons_of_mem _ ha)
    have hle := List.countP_mono_left hrest
    rw [List.countP_cons, List.countP_cons] at hcount
    -- the rest has no more of the part, so the first element cannot make up for it
    have hfirst : q b = true → p b = true := by
      intro hq
      by_contra hp
      rw [if_pos hq, if_neg hp] at hcount
      omega
    have heq : p b = q b := Bool.eq_iff_iff.mpr ⟨hb, hfirst⟩
    rw [heq, Nat.add_right_cancel_iff] at hcount
    rintro a (_ | ⟨_, ha⟩)
    · exact hfirst
    · exact ih hrest hcount a ha

section Distinct

variable (hdistinct : (modules.map Module.name).Nodup)

include hdistinct

/-- Without captured names every module gets what it defines. -/
theorem contributed_eq_length
    (hfree : ∀ p ∈ definitionsOf defined modules, ¬ p.Captured modules) {m : Module}
    (hm : m ∈ modules) : contributed defined modules m.name = (defined m).length := by
  have hname : m.name ∈ modules.map Module.name := List.mem_map_of_mem hm
  rw [contributed_eq_countP, ← countP_owner hdistinct hm]
  apply List.countP_congr
  intro p hp
  have howner := Referent.countsFor_owner_iff.mpr (hfree p hp)
  rw [beq_iff_eq, beq_iff_eq, Referent.owner?_globalName_iff hname]
  constructor
  · exact fun h => howner.unique (owner_of_definitionsOf hp) hname h
  · rintro h
    exact h ▸ howner

/-- If every module gets what it defines, no name is captured. -/
theorem not_captured_of_contributed
    (hexact : ∀ m ∈ modules, contributed defined modules m.name = (defined m).length)
    {p : Referent} (hp : p ∈ definitionsOf defined modules) : ¬ p.Captured modules := by
  -- by induction on the length of the owner's qualifier
  induction hlength : (linkQualifier modules p.owner).length using Nat.strong_induction_on
    generalizing p with
  | _ length ih =>
  obtain ⟨m, hm, howner, -⟩ := mem_definitionsOf.mp hp
  have hname : m.name ∈ modules.map Module.name := List.mem_map_of_mem hm
  have hcount := hexact m hm
  rw [contributed_eq_countP, ← countP_owner hdistinct hm] at hcount
  -- the owner gets nothing from others: their qualifiers would be shorter
  have hown : ∀ p' ∈ definitionsOf defined modules,
      (Summary.owner? (modules.map fun m => linkQualifier modules m.name)
        (p'.globalName modules) == some (linkQualifier modules m.name)) = true →
      (p'.owner == m.name) = true := by
    intro p' hp' hcounts
    rw [beq_iff_eq, Referent.owner?_globalName_iff hname] at hcounts
    rw [beq_iff_eq]
    by_contra hne
    have hshorter := hcounts.length_lt (owner_of_definitionsOf hp') hname (Ne.symm hne)
    rw [howner, hlength] at hshorter
    have hfree := Referent.countsFor_owner_iff.mpr (ih _ hshorter hp' rfl)
    exact hne (hfree.unique (owner_of_definitionsOf hp') hname hcounts)
  have hcounts := forall_of_countP_eq hown hcount p hp (beq_iff_eq.mpr howner.symm)
  rw [beq_iff_eq, Referent.owner?_globalName_iff hname, howner] at hcounts
  exact Referent.countsFor_owner_iff.mp hcounts

/-- All modules get what they define exactly if no name is captured. -/
theorem contributed_exact_iff :
    (∀ m ∈ modules, contributed defined modules m.name = (defined m).length) ↔
      ∀ m ∈ modules, ∀ name ∈ defined m, ¬ (⟨m.name, name⟩ : Referent).Captured modules := by
  constructor
  · intro hexact m hm name hname
    exact not_captured_of_contributed hdistinct hexact
      (mem_definitionsOf.mpr ⟨m, hm, rfl, hname⟩)
  · intro hfree m hm
    apply contributed_eq_length hdistinct _ hm
    rintro ⟨owner, name⟩ hp
    obtain ⟨n, hn, rfl, hname⟩ := mem_definitionsOf.mp hp
    exact hfree n hn name hname

end Distinct

end Kind

/-! ## The summary -/

/-- What a module itself defines. -/
def Module.contribution (modules : List Module) (m : Module) : Contribution where
  module := m.name
  qualifier := linkQualifier modules m.name
  rules := m.grammar.rules.size
  macros := m.macros.size
  startConditions := m.startConditions.size

def Module.definedNames (m : Module) : List String :=
  m.grammar.rules.keys ++ m.macros.keys ++ m.startConditions.keys

section Linked

variable {helper entry : String} {modules : List Module} {refusal : MacroReference.Refusal}
  {out : LinkOutput} (hdistinct : (modules.map Module.name).Nodup)
  (hlinked : linkModules helper entry modules refusal = .ok out)

/-- A composite table counts as the names that modules define. -/
private theorem countOwned_eq_contributed {α : Type} {t : Table α}
    {defined : Module → List String} {counted : String}
    (hperm : t.keys.Perm (globalNames modules defined)) :
    Summary.countOwned (modules.map fun m => linkQualifier modules m.name) t.keys
      (linkQualifier modules counted) = contributed defined modules counted :=
  hperm.countP_eq _

include hdistinct hlinked

/-- The report lists the modules as they were given. -/
theorem report_of_linkModules : out.report.modules.entries = modules.map fun m =>
    (m.name, ⟨linkQualifier modules m.name, m.exports, m.grammarLines, m.lexiconLines⟩) := by
  have hreport := (linkModules_eq_ok_iff.mp hlinked).2.2.1
  rw [LinkReport.ofModules, List.map_map] at hreport
  -- renaming leaves the names of modules as they are
  rw [hreport, Table.entries_ofList (by rw [List.map_map]; exact hdistinct)]
  rfl

/-- A row for each module, with the names that count for it. -/
theorem ofReport_of_linkModules : Summary.ofReport out.grammar out.report = modules.map fun m => {
    module := m.name
    qualifier := linkQualifier modules m.name
    rules := contributed (fun m => m.grammar.rules.keys) modules m.name
    macros := contributed (fun m => m.macros.keys) modules m.name
    startConditions := contributed (fun m => m.startConditions.keys) modules m.name } := by
  have hreport := report_of_linkModules hdistinct hlinked
  have hqualifiers : out.report.modules.values.map ModuleReport.qualifier =
      modules.map fun m => linkQualifier modules m.name := by
    rw [Table.values, hreport]
    simp [Function.comp_def]
  -- the order of the names does not matter where they are counted
  have hrules := perm_globalNames (rules_of_linkModules hlinked) (keys_globalRules modules)
  have hmacros := perm_globalNames (macros_of_linkModules hlinked) (keys_globalMacros modules)
  have hconditions := perm_globalNames (startConditions_of_linkModules hlinked)
    (keys_globalStartConditions modules)
  rw [Summary.ofReport, hqualifiers, hreport, List.map_map]
  apply List.map_congr_left
  intro m _
  simp only [Function.comp_apply, countOwned_eq_contributed hrules,
    countOwned_eq_contributed hmacros, countOwned_eq_contributed hconditions]

/-- The summary of linked modules has a row for each of them, in their order.  All rows say what the
modules themselves define exactly if no name of a module goes on, behind the qualifier of the
module, like the qualifier of another module. -/
theorem contributions_exact_iff :
    ((Summary.ofReport out.grammar out.report).map fun row => (row.module, row.qualifier)) =
      (modules.map fun m => (m.name, linkQualifier modules m.name)) ∧
    (Summary.ofReport out.grammar out.report = modules.map (Module.contribution modules) ↔
      ∀ m ∈ modules, ∀ name ∈ m.definedNames,
        ¬ (⟨m.name, name⟩ : Referent).Captured modules) := by
  rw [ofReport_of_linkModules hdistinct hlinked]
  refine ⟨by simp, ?_⟩
  have hsize : ∀ {α : Type} (t : Table α), t.size = t.keys.length := by
    intro α t
    rw [Table.size, Table.keys, List.length_map]
  -- rows agree kind by kind, and each kind is counted for itself
  simp only [List.map_inj_left, Module.contribution, Contribution.mk.injEq, true_and, hsize,
    imp_and, forall_and, contributed_exact_iff hdistinct]
  simp only [Module.definedNames, List.mem_append, or_imp, imp_and, forall_and, and_assoc]

end Linked

theorem twoModules_contributions_exact :
    (twoModules.map Module.name).Nodup ∧ ∃ out, linkModules "wrap" "main" twoModules = .ok out ∧
      ((Summary.ofReport out.grammar out.report).map fun row => (row.module, row.qualifier)) =
        (twoModules.map fun m => (m.name, linkQualifier twoModules m.name)) ∧
      (Summary.ofReport out.grammar out.report = twoModules.map (Module.contribution twoModules) ↔
        ∀ m ∈ twoModules, ∀ name ∈ m.definedNames,
          ¬ (⟨m.name, name⟩ : Referent).Captured twoModules) := by
  have hdistinct : (twoModules.map Module.name).Nodup := by decide
  obtain ⟨out, hlinked⟩ := exists_linkModules_twoModules
  exact ⟨hdistinct, out, hlinked, contributions_exact_iff hdistinct hlinked⟩

/-! ## Capture -/

/-- The rule of the first module begins with what the qualifier of the second has behind that of the
first. -/
def nestedModules : List Module := [
  { name := "a"
    grammar := { rules := .ofList [("b__x", [⟨"A", none, none⟩])] }
    imports := [⟨"a__b", "", "", false⟩] },
  { name := "a__b"
    grammar := { rules := .ofList [("y", [⟨"B", none, none⟩])] } }]

/-- Each module defines one rule, and the second module gets both of them. -/
theorem nestedModules_miscounted :
    (nestedModules.map Module.name).Nodup ∧ ∃ out, linkModules "wrap" "a" nestedModules = .ok out ∧
      Summary.ofReport out.grammar out.report =
        [⟨"a", "a__", 0, 0, 0⟩, ⟨"a__b", "a__b__", 2, 0, 0⟩] ∧
      nestedModules.map (Module.contribution nestedModules) =
        [⟨"a", "a__", 1, 0, 0⟩, ⟨"a__b", "a__b__", 1, 0, 0⟩] := by
  have hdistinct : (nestedModules.map Module.name).Nodup := by decide
  have hlinks : ∃ out, linkModules "wrap" "a" nestedModules = .ok out := by
    apply (exists_linkModules_iff (noneRefused_never _)).mpr
    exact ⟨by decide, by decide +kernel, by decide, by decide, _, rfl, Or.inr (by decide)⟩
  obtain ⟨out, hlinked⟩ := hlinks
  refine ⟨hdistinct, out, hlinked, ?_, by decide +kernel⟩
  rw [ofReport_of_linkModules hdistinct hlinked]
  decide +kernel

end ModularGrammar
