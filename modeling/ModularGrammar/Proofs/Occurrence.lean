import Mathlib.Data.List.Nodup
import ModularGrammar.Proofs.Linking

/-!
# Definitions and Occurrences

The referents of a link: those its rules define, and those the names in its modules stand for.  Two
rules never come out under one name, since linking refuses that; other names are not looked at.

## Architecture

1. `definedReferents`: the rules, and how their names stand in the composite rule table
2. `symbolReferents`, `usedReferents`: what symbols stand for, and what all names stand for
-/

namespace ModularGrammar

/-! ## Rules -/

/-- What the rules of the modules define. -/
def definedReferents (modules : List Module) : List Referent :=
  modules.flatMap fun m => m.grammar.rules.keys.map (Referent.mk m.name)

theorem mem_definedReferents {modules : List Module} {p : Referent} :
    p ∈ definedReferents modules ↔
      ∃ m ∈ modules, m.name = p.owner ∧ p.name ∈ m.grammar.rules.keys := by
  obtain ⟨owner, name⟩ := p
  constructor
  · intro h
    obtain ⟨m, hm, hkey⟩ := List.mem_flatMap.mp h
    obtain ⟨key, hk, heq⟩ := List.mem_map.mp hkey
    cases heq
    exact ⟨m, hm, rfl, hk⟩
  · intro h
    obtain ⟨m, hm, rfl, hk⟩ := h
    exact List.mem_flatMap.mpr ⟨m, hm, List.mem_map_of_mem hk⟩

theorem globalNames_rules (modules : List Module) :
    (globalNames modules fun m => m.grammar.rules.keys) =
      (definedReferents modules).map (Referent.globalName modules) := by
  simp [globalNames, definedReferents, List.map_flatMap, Function.comp_def]

section Linked

variable {helper entry : String} {modules : List Module} {refusal : MacroReference.Refusal}
  {out : LinkOutput} (hlinked : linkModules helper entry modules refusal = .ok out)

include hlinked

/-- The names of the composite rule table are the global names of the rules. -/
theorem mem_keys_of_linkModules {name : String} : name ∈ out.grammar.rules.keys ↔
    ∃ p ∈ definedReferents modules, p.globalName modules = name := by
  have hperm := perm_globalNames (rules_of_linkModules hlinked) (keys_globalRules modules)
  rw [hperm.mem_iff, globalNames_rules]
  exact List.mem_map

/-- Different rules have different global names. -/
theorem definedReferents_inj {p q : Referent} (hp : p ∈ definedReferents modules)
    (hq : q ∈ definedReferents modules) (h : p.globalName modules = q.globalName modules) :
    p = q := by
  -- linking would have refused two rules under one name
  have haccepted := noneRefused_of_linkModules hlinked
  have hnodup := ((exists_linkModules_iff haccepted).mp ⟨out, hlinked⟩).2.1
  rw [globalNames_rules] at hnodup
  exact List.inj_on_of_nodup_map hnodup hp hq h

end Linked

theorem owner_of_definedReferents {modules : List Module} {p : Referent}
    (h : p ∈ definedReferents modules) : p.owner ∈ modules.map Module.name := by
  obtain ⟨m, hm, hname, -⟩ := mem_definedReferents.mp h
  exact List.mem_map.mpr ⟨m, hm, hname⟩

/-! ## Names that are used -/

/-- The symbols of an alternative. -/
def Alternative.names (a : Alternative) : List String :=
  (Text.split ' ' a.symbols).filter fun s => s ≠ ""

def Module.alternatives (m : Module) : List Alternative := m.grammar.rules.values.flatten

/-- What the symbols in the productions of the modules stand for. -/
def symbolReferents (modules : List Module) : List Referent :=
  modules.flatMap fun m => (m.alternatives.flatMap Alternative.names).map (m.referent modules)

/-- The tokens a module names for the sake of their precedence. -/
def Module.precedenceNames (m : Module) : List String :=
  m.alternatives.filterMap Alternative.precedence ++ m.precedence.flatMap Precedence.tokens

/-- What a module starts from: what it names for that, or else its first rule. -/
def Module.startReferent? (modules : List Module) (m : Module) : Option Referent :=
  match m.grammar.start with
  | some s => some (m.referent modules s)
  | none => m.grammar.rules.keys.head?.map (Referent.mk m.name)

/-- The composite grammar starts from what the entry starts from. -/
theorem startReferent_of_linkModules {helper entry : String} {modules : List Module}
    {refusal : MacroReference.Refusal} {out : LinkOutput}
    (hlinked : linkModules helper entry modules refusal = .ok out) :
    ∃ m p, modules.find? (fun m => m.name == entry) = some m ∧
      m.startReferent? modules = some p ∧ out.grammar.start = p.globalName modules := by
  obtain ⟨m, hfind, hstart⟩ := start_of_linkModules hlinked
  rcases hstart with ⟨s, hs, hstart⟩ | ⟨hnone, r, hr, hstart⟩
  · refine ⟨m, m.referent modules s, hfind, ?_, hstart⟩
    rw [Module.startReferent?, hs]
  · refine ⟨m, ⟨m.name, r⟩, hfind, ?_, hstart⟩
    rw [Module.startReferent?, hnone, hr]
    rfl

/-- The rule the entry says to start from, if it does. -/
def startReferents (entry : String) (modules : List Module) : List Referent :=
  match modules.find? fun m => m.name == entry with
  | some m => m.grammar.start.toList.map (m.referent modules)
  | none => []

/-- What the names that come into the composite grammar stand for, wherever they are used. -/
def usedReferents (entry : String) (modules : List Module) : List Referent :=
  symbolReferents modules ++
    modules.flatMap (fun m => m.precedenceNames.map (m.referent modules)) ++
    startReferents entry modules

section Owners

variable {modules : List Module}
  (hvalid : ExportIndex.problems (ExportIndex.ofModules modules) modules = [])

include hvalid

/-- A name stands for something of one of the modules. -/
theorem owner_of_referent {m : Module} (hm : m ∈ modules) (name : String) :
    (m.referent modules name).owner ∈ modules.map Module.name := by
  cases himport : m.importOf? name with
  | none =>
    rw [Module.referent, himport]
    exact List.mem_map_of_mem hm
  | some i =>
    -- whoever exports what is imported is one of the modules
    obtain ⟨x, hx, e, -, hname, -, -, hreferent⟩ :=
      Module.exists_export_of_importOf? hvalid hm himport
    rw [hreferent]
    exact List.mem_map.mpr ⟨x, hx, hname⟩

theorem owner_of_usedReferents {entry : String} {p : Referent}
    (h : p ∈ usedReferents entry modules) : p.owner ∈ modules.map Module.name := by
  -- symbols and precedence are alike: names that modules list
  have hnames : ∀ {names : Module → List String},
      p ∈ modules.flatMap (fun m => (names m).map (m.referent modules)) →
        p.owner ∈ modules.map Module.name := by
    intro names hp
    obtain ⟨m, hm, hname⟩ := List.mem_flatMap.mp hp
    obtain ⟨s, -, rfl⟩ := List.mem_map.mp hname
    exact owner_of_referent hvalid hm s
  rw [usedReferents, List.mem_append, List.mem_append] at h
  rcases h with (hsymbol | hprecedence) | hstart
  · exact hnames hsymbol
  · exact hnames hprecedence
  · rw [startReferents] at hstart
    cases hfind : modules.find? fun m => m.name == entry with
    | none =>
      rw [hfind] at hstart
      cases hstart
    | some m =>
      rw [hfind] at hstart
      obtain ⟨s, -, rfl⟩ := List.mem_map.mp hstart
      exact owner_of_referent hvalid (List.mem_of_find?_eq_some hfind) s

end Owners

end ModularGrammar
