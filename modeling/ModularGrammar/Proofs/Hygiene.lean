import ModularGrammar.Proofs.Occurrence

/-!
# Hygiene

Whether names that stand for different things can come out as one name.  Qualifiers are put before
names without anything reserved between them, so one qualifier may go on into a name: linking
notices this where two rules meet, and nowhere else.

## Architecture

1. `WritesReferents`: how the names of modules are written in the composite grammar
2. `Hygienic`: names that are written alike stand for the same
3. `hygienic_iff_not_overlaps`: what hygiene comes down to
-/

namespace ModularGrammar

/-! ## Statements -/

/-- Every name of the modules is written as the global name of what it stands for. -/
structure WritesReferents (entry : String) (modules : List Module) (grammar : CompositeGrammar) :
    Prop where
  rules : grammar.rules.entries =
    (Composition.byPriority modules).flatMap (Module.globalRules modules)
  precedence : grammar.precedence = Precedence.mergeRows
    ((Composition.byPriority modules).flatMap (Module.globalPrecedence modules))
  start : ∀ m, modules.find? (fun m => m.name == entry) = some m →
    ∀ s, m.grammar.start = some s → grammar.start = m.globalName modules s

/-- All that names in the composite grammar stand for: what is defined, and what is used. -/
def mentionedReferents (entry : String) (modules : List Module) : List Referent :=
  definedReferents modules ++ usedReferents entry modules

/-- Whatever is written alike is the same. -/
def Hygienic (entry : String) (modules : List Module) : Prop :=
  ∀ p ∈ mentionedReferents entry modules, ∀ q ∈ mentionedReferents entry modules,
    p.globalName modules = q.globalName modules → p = q

/-! ## Linked modules -/

section Linked

variable {helper entry : String} {modules : List Module} {refusal : MacroReference.Refusal}
  {out : LinkOutput} (hlinked : linkModules helper entry modules refusal = .ok out)

include hlinked

theorem writesReferents_of_linkModules : WritesReferents entry modules out.grammar where
  rules := rules_of_linkModules hlinked
  precedence := precedence_of_linkModules hlinked
  start := by
    intro m hm s hs
    obtain ⟨entryModule, hfind, hstart⟩ := start_of_linkModules hlinked
    rw [hm] at hfind
    cases hfind
    rcases hstart with ⟨s', hs', hstart⟩ | ⟨hnone, -⟩
    · rw [hs] at hs'
      cases hs'
      exact hstart
    · rw [hs] at hnone
      cases hnone

theorem owner_of_mentionedReferents {p : Referent} (h : p ∈ mentionedReferents entry modules) :
    p.owner ∈ modules.map Module.name := by
  rcases List.mem_append.mp h with hdefined | hused
  · exact owner_of_definedReferents hdefined
  · exact owner_of_usedReferents (valid_of_linkModules hlinked) hused

/-- Names that are written alike although they stand for different things overlap, and one of them
at least is not the name of a rule where it is defined. -/
theorem overlaps_of_globalName_eq {p q : Referent} (hp : p ∈ mentionedReferents entry modules)
    (hq : q ∈ mentionedReferents entry modules)
    (h : p.globalName modules = q.globalName modules) (hne : p ≠ q) :
    p.Overlaps modules q ∧
      (p ∈ usedReferents entry modules ∨ q ∈ usedReferents entry modules) := by
  have hcases := (Referent.globalName_eq_iff (owner_of_mentionedReferents hlinked hp)
    (owner_of_mentionedReferents hlinked hq)).mp h
  refine ⟨hcases.resolve_left hne, ?_⟩
  rcases List.mem_append.mp hp with hpdefined | hpused
  · rcases List.mem_append.mp hq with hqdefined | hqused
    · -- two rules under one name would have been refused
      exact absurd (definedReferents_inj hlinked hpdefined hqdefined h) hne
    · exact Or.inr hqused
  · exact Or.inl hpused

/-- Linked modules are hygienic exactly if no name that is used overlaps with another name that is
used or defined. -/
theorem hygienic_iff_not_overlaps :
    WritesReferents entry modules out.grammar ∧
      (Hygienic entry modules ↔ ∀ p ∈ usedReferents entry modules,
        ∀ q ∈ mentionedReferents entry modules, ¬ p.Overlaps modules q) := by
  refine ⟨writesReferents_of_linkModules hlinked, ?_, ?_⟩
  · -- what overlaps is written alike, so it would be one thing, which does not overlap with itself
    intro hhygienic p hp q hq hoverlaps
    have hpmentioned : p ∈ mentionedReferents entry modules := List.mem_append_right _ hp
    have heq := hhygienic p hpmentioned q hq hoverlaps.globalName_eq
    rw [heq] at hoverlaps
    exact Referent.not_overlaps_self q hoverlaps
  · -- what is written alike and differs overlaps, and not both of it are rules
    intro hapart p hp q hq hglobal
    by_contra hne
    obtain ⟨hoverlaps, hused⟩ := overlaps_of_globalName_eq hlinked hp hq hglobal hne
    rcases hused with hpused | hqused
    · exact hapart p hpused q hq hoverlaps
    · exact hapart q hqused p hp (Or.symm hoverlaps)

end Linked

theorem twoModules_hygienic_iff :
    ∃ out, linkModules "wrap" "main" twoModules = .ok out ∧
      WritesReferents "main" twoModules out.grammar ∧
      (Hygienic "main" twoModules ↔ ∀ p ∈ usedReferents "main" twoModules,
        ∀ q ∈ mentionedReferents "main" twoModules, ¬ p.Overlaps twoModules q) := by
  obtain ⟨out, hlinked⟩ := exists_linkModules_twoModules
  exact ⟨out, hlinked, hygienic_iff_not_overlaps hlinked⟩

/-! ## Capture -/

/-- The qualifier of the second module is that of the first with `b__` behind it, and the first
module uses a token whose name begins with `b__`. -/
def overlappingModules : List Module := [
  { name := "entry"
    grammar := { rules := .ofList [("top", [⟨"b__X", none, none⟩])] }
    imports := [⟨"entry__b", "", "", false⟩] },
  { name := "entry__b"
    grammar := { rules := .ofList [("c", [⟨"X", none, none⟩])] } }]

/-- Two tokens of two modules are linked into one, though neither module imports it. -/
theorem overlappingModules_not_hygienic :
    ∃ out, linkModules "wrap" "entry" overlappingModules = .ok out ∧
      out.grammar.rules.entries = [("entry__top", [⟨"entry__b__X", none, none⟩]),
        ("entry__b__c", [⟨"entry__b__X", none, none⟩])] ∧
      ¬ Hygienic "entry" overlappingModules := by
  have hlinks : ∃ out, linkModules "wrap" "entry" overlappingModules = .ok out := by
    apply (exists_linkModules_iff (noneRefused_never _)).mpr
    exact ⟨by decide, by decide +kernel, by decide, by decide, _, rfl, Or.inr (by decide)⟩
  obtain ⟨out, hlinked⟩ := hlinks
  have horder : Composition.byPriority overlappingModules = overlappingModules :=
    PriorityOrder.byPriority_eq (by decide +kernel)
  refine ⟨out, hlinked, ?_, ?_⟩
  · rw [rules_of_linkModules hlinked, horder]
    decide +kernel
  · -- the two tokens differ in their owners
    intro hhygienic
    have hmentioned : mentionedReferents "entry" overlappingModules =
        [⟨"entry", "top"⟩, ⟨"entry__b", "c"⟩, ⟨"entry", "b__X"⟩, ⟨"entry__b", "X"⟩] := by
      decide +kernel
    have hglobal : (⟨"entry", "b__X"⟩ : Referent).globalName overlappingModules =
        (⟨"entry__b", "X"⟩ : Referent).globalName overlappingModules := by decide +kernel
    have heq := hhygienic ⟨"entry", "b__X"⟩ (by simp [hmentioned]) ⟨"entry__b", "X"⟩
      (by simp [hmentioned]) hglobal
    exact absurd heq (by decide)

end ModularGrammar
