import Mathlib.Data.List.Forall2
import ModularGrammar.Proofs.Linking
import ModularGrammar.Proofs.Segment

/-!
# Renaming a Whole Link

The composite rule table is the rule tables of the modules, one after the other in the order of
their priorities, with every name replaced by the global name of what it stands for and nothing
else changed.

## Architecture

1. `Alternative.RenamedBy`, `Module.RuleRenamed`: what may change in a rule
2. `mapNames_renamedBy`: renaming symbol by symbol keeps the places of all spaces
3. `composite_rules_renamed`: the composite rule table
-/

namespace ModularGrammar

/-! ## Renamed rules -/

/-- `b` is `a` with its names replaced: between the same spaces stand the new names, and what is
empty stays empty. -/
structure Alternative.RenamedBy (f : String → String) (a b : Alternative) : Prop where
  symbols : Text.split ' ' b.symbols =
    (Text.split ' ' a.symbols).map fun s => if s = "" then "" else f s
  precedence : b.precedence = a.precedence.map f
  action : b.action = a.action

/-- `target` is the rule `source` of a module, defined under the module's qualifier, with the names
in its alternatives replaced. -/
structure Module.RuleRenamed (modules : List Module) (m : Module)
    (source target : String × List Alternative) : Prop where
  name : target.1 = linkQualifier modules m.name ++ source.1
  alternatives :
    List.Forall₂ (Alternative.RenamedBy (m.globalName modules)) source.2 target.2

/-- As long as no new name holds a space, replacing names leaves all spaces in their places. -/
theorem mapNames_renamedBy {f : String → String} {a : Alternative}
    (h : ∀ s ∈ Text.split ' ' a.symbols, s ≠ "" → ' ' ∉ (f s).toList) :
    a.RenamedBy f (a.mapNames f) := by
  refine ⟨?_, rfl, rfl⟩
  apply Text.split_join
  · intro hnil
    exact Text.split_ne_nil ' ' a.symbols (List.map_eq_nil_iff.mp hnil)
  · -- no part brings a space in, whether it stays empty or is replaced
    intro part hpart
    obtain ⟨s, hs, rfl⟩ := List.mem_map.mp hpart
    by_cases hempty : s = ""
    · simp [hempty]
    · rw [if_neg hempty]
      exact h s hs hempty

/-! ## Global names -/

section Names

variable {modules : List Module} {m : Module}

/-- A name that no import binds gets the qualifier of its module. -/
theorem globalName_of_local {name : String} (h : ∀ i ∈ m.boundImports, i.localName ≠ name) :
    m.globalName modules name = linkQualifier modules m.name ++ name := by
  have hnone : m.importOf? name = none := by
    rw [Module.importOf?, List.find?_eq_none]
    intro i hi
    simpa using h i (List.mem_reverse.mp hi)
  rw [Module.globalName, Module.referent, hnone]
  rfl

/-- In valid modules any other name gets the qualifier of the exporter and the name the export has
there. -/
theorem globalName_cases (hvalid : ExportIndex.problems (ExportIndex.ofModules modules) modules = [])
    (hm : m ∈ modules) (name : String) :
    (∃ i e, m.importOf? name = some i ∧ i.export? modules = some e ∧
        m.globalName modules name = linkQualifier modules i.origin ++ e.localName) ∨
      ((∀ i ∈ m.boundImports, i.localName ≠ name) ∧
        m.globalName modules name = linkQualifier modules m.name ++ name) := by
  cases himport : m.importOf? name with
  | some i =>
    obtain ⟨-, -, e, -, -, -, he, hreferent⟩ := Module.exists_export_of_importOf? hvalid hm himport
    refine Or.inl ⟨i, e, rfl, he, ?_⟩
    rw [Module.globalName, hreferent]
    rfl
  | none =>
    have hlocal : ∀ i ∈ m.boundImports, i.localName ≠ name := by
      intro i hi
      have hfalse := List.find?_eq_none.mp himport i (List.mem_reverse.mpr hi)
      simpa using hfalse
    exact Or.inr ⟨hlocal, globalName_of_local hlocal⟩

/-- Names without spaces stay without spaces, if what is exported has none. -/
theorem space_notMem_globalName
    (hvalid : ExportIndex.problems (ExportIndex.ofModules modules) modules = [])
    (hspaces : ∀ m ∈ modules, ∀ e ∈ m.exports, ' ' ∉ e.localName.toList) (hm : m ∈ modules)
    {name : String} (hname : ' ' ∉ name.toList) : ' ' ∉ (m.globalName modules name).toList := by
  have hqualified : ∀ {path s : String}, ' ' ∉ s.toList →
      ' ' ∉ (linkQualifier modules path ++ s).toList := by
    intro path s hs hmem
    rw [String.toList_append, List.mem_append] at hmem
    rcases hmem with hq | hn
    · exact notMem_linkQualifier (by decide) (by decide) modules path hq
    · exact hs hn
  -- a local name has no space by assumption, an imported one because exports have none
  rcases globalName_cases hvalid hm name with ⟨i, e, -, he, hglobal⟩ | ⟨-, hglobal⟩
  · obtain ⟨x, hx, -, hex, -⟩ := Import.export?_eq_some he
    rw [hglobal]
    exact hqualified (hspaces x hx e hex)
  · rw [hglobal]
    exact hqualified hname

end Names

/-! ## The composite rule table -/

/-- The rules of modules, each with the module it stands in. -/
def ownedRules (modules : List Module) : List (Module × String × List Alternative) :=
  modules.flatMap fun m => m.grammar.rules.entries.map (Prod.mk m)

theorem flatMap_globalRules (modules ordered : List Module) :
    ordered.flatMap (Module.globalRules modules) = (ownedRules ordered).map fun owned =>
      ((⟨owned.1.name, owned.2.1⟩ : Referent).globalName modules,
        owned.2.2.map (Alternative.mapNames (owned.1.globalName modules))) := by
  simp only [ownedRules, List.map_flatMap, List.map_map]
  rfl

/-- Every rule of every module comes through once, in the order of the priorities, renamed and
otherwise unchanged. -/
theorem composite_rules_renamed {helper entry : String} {modules : List Module}
    {refusal : MacroReference.Refusal} {out : LinkOutput}
    (hspaces : ∀ m ∈ modules, ∀ e ∈ m.exports, ' ' ∉ e.localName.toList)
    (hlinked : linkModules helper entry modules refusal = .ok out) :
    (∀ m ∈ modules, ∀ name,
      (∃ i e, m.importOf? name = some i ∧ i.export? modules = some e ∧
          m.globalName modules name = linkQualifier modules i.origin ++ e.localName) ∨
        ((∀ i ∈ m.boundImports, i.localName ≠ name) ∧
          m.globalName modules name = linkQualifier modules m.name ++ name)) ∧
    ∃ ordered, PriorityOrder modules ordered ∧
      List.Forall₂ (fun source target => source.1.RuleRenamed modules source.2 target)
        (ownedRules ordered) out.grammar.rules.entries := by
  have hvalid := valid_of_linkModules hlinked
  refine ⟨fun m hm name => globalName_cases hvalid hm name, Composition.byPriority modules,
    Composition.byPriority_priorityOrder modules, ?_⟩
  -- both lists come from the same rules, so they are compared rule by rule
  rw [rules_of_linkModules hlinked, flatMap_globalRules, List.forall₂_map_right_iff,
    List.forall₂_same]
  intro owned howned
  obtain ⟨m, hm, hrule⟩ := List.mem_flatMap.mp howned
  obtain ⟨rule, -, rfl⟩ := List.mem_map.mp hrule
  refine ⟨rfl, ?_⟩
  show List.Forall₂ _ rule.2 (rule.2.map _)
  rw [List.forall₂_map_right_iff, List.forall₂_same]
  intro a _
  -- the symbols are what stands between spaces, so only exports could bring spaces in
  apply mapNames_renamedBy
  intro s hs _
  exact space_notMem_globalName hvalid hspaces (Composition.mem_byPriority.mp hm)
    (Text.notMem_of_mem_split hs)

theorem twoModules_rules_renamed :
    ∃ out, linkModules "wrap" "main" twoModules = .ok out ∧
      (∀ m ∈ twoModules, ∀ e ∈ m.exports, ' ' ∉ e.localName.toList) ∧
      ∃ ordered, PriorityOrder twoModules ordered ∧
        List.Forall₂ (fun source target => source.1.RuleRenamed twoModules source.2 target)
          (ownedRules ordered) out.grammar.rules.entries := by
  obtain ⟨out, hlinked⟩ := exists_linkModules_twoModules
  have hspaces : ∀ m ∈ twoModules, ∀ e ∈ m.exports, ' ' ∉ e.localName.toList := by decide
  exact ⟨out, hlinked, hspaces, (composite_rules_renamed hspaces hlinked).2⟩

end ModularGrammar
