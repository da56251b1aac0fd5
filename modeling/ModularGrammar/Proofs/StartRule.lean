import ModularGrammar.Proofs.Occurrence

/-!
# The Start of a Link

Whether the composite grammar has a rule of the name it starts from.  The first rule of the entry is
there, and so is a rule that the entry imports and starts from; but an entry may start from any
name, and a name that is not imported as a rule is not looked up in any rule table.

## Architecture

1. `globalName_mem_keys_iff`: names of the composite rule table
2. `start_mem_keys_iff`: when the start is one of them
-/

namespace ModularGrammar

section Linked

variable {helper entry : String} {modules : List Module} {refusal : MacroReference.Refusal}
  {out : LinkOutput} (hlinked : linkModules helper entry modules refusal = .ok out)

include hlinked

/-- The composite grammar has a rule under the global name of a referent exactly if the referent is
defined, or overlaps with one that is. -/
theorem globalName_mem_keys_iff {p : Referent} (howner : p.owner ∈ modules.map Module.name) :
    p.globalName modules ∈ out.grammar.rules.keys ↔ p ∈ definedReferents modules ∨
      ∃ q ∈ definedReferents modules, p.Overlaps modules q := by
  -- a name of the table is the global name of a rule, which may be another one
  rw [mem_keys_of_linkModules hlinked]
  constructor
  · intro h
    obtain ⟨q, hq, hname⟩ := h
    rcases (Referent.globalName_eq_iff howner (owner_of_definedReferents hq)).mp hname.symm with
      heq | hoverlaps
    · rw [heq]
      exact Or.inl hq
    · exact Or.inr ⟨q, hq, hoverlaps⟩
  · intro h
    rcases h with hp | ⟨q, hq, hoverlaps⟩
    · exact ⟨p, hp, rfl⟩
    · exact ⟨q, hq, hoverlaps.globalName_eq.symm⟩

/-- A name that is imported as a rule stands for a rule. -/
theorem referent_mem_definedReferents {m : Module} (hm : m ∈ modules) {name : String} {i : Import}
    (himport : m.importOf? name = some i) (hrule : i.lexical = false) :
    m.referent modules name ∈ definedReferents modules := by
  have hvalid := valid_of_linkModules hlinked
  obtain ⟨x, hx, e, hexport, hname, hkind, -, hreferent⟩ :=
    Module.exists_export_of_importOf? hvalid hm himport
  -- the export is of the kind asked for, and exported rules have been looked up
  have hkey : e.localName ∈ x.grammar.rules.keys := by
    apply ExportIndex.mem_keys_of_valid hvalid hx hexport
    rw [hkind, hrule]
  rw [hreferent]
  exact mem_definedReferents.mpr ⟨x, hx, hname, hkey⟩

omit hlinked in
/-- What a module starts from without saying so is one of its rules. -/
theorem startReferent_mem_definedReferents {m : Module} (hm : m ∈ modules) {p : Referent}
    (hp : m.startReferent? modules = some p) (hnone : m.grammar.start = none) :
    p ∈ definedReferents modules := by
  rw [Module.startReferent?, hnone] at hp
  obtain ⟨r, hr, rfl⟩ := Option.map_eq_some_iff.mp hp
  exact mem_definedReferents.mpr ⟨m, hm, rfl, List.mem_of_mem_head? hr⟩

theorem owner_of_startReferent {m : Module} (hm : m ∈ modules) {p : Referent}
    (hp : m.startReferent? modules = some p) : p.owner ∈ modules.map Module.name := by
  cases hstart : m.grammar.start with
  | none => exact owner_of_definedReferents (startReferent_mem_definedReferents hm hp hstart)
  | some s =>
    rw [Module.startReferent?, hstart] at hp
    cases hp
    exact owner_of_referent (valid_of_linkModules hlinked) hm s

/-- The composite grammar has the rule it starts from exactly if what the entry starts from is
defined or overlaps with what is; without a name to start from, or with one that is imported as a
rule, it is. -/
theorem start_mem_keys_iff :
    ∃ m p, modules.find? (fun m => m.name == entry) = some m ∧
      m.startReferent? modules = some p ∧ out.grammar.start = p.globalName modules ∧
      (out.grammar.start ∈ out.grammar.rules.keys ↔ p ∈ definedReferents modules ∨
        ∃ q ∈ definedReferents modules, p.Overlaps modules q) ∧
      (m.grammar.start = none → out.grammar.start ∈ out.grammar.rules.keys) ∧
      ∀ s i, m.grammar.start = some s → m.importOf? s = some i → i.lexical = false →
        out.grammar.start ∈ out.grammar.rules.keys := by
  obtain ⟨m, p, hfind, hp, hstart⟩ := startReferent_of_linkModules hlinked
  have hm : m ∈ modules := List.mem_of_find?_eq_some hfind
  have hkeys := globalName_mem_keys_iff hlinked (owner_of_startReferent hlinked hm hp)
  rw [← hstart] at hkeys
  refine ⟨m, p, hfind, hp, hstart, hkeys, ?_, ?_⟩
  · intro hnone
    apply hkeys.mpr
    exact Or.inl (startReferent_mem_definedReferents hm hp hnone)
  · intro s i hs himport hrule
    -- a start that is imported as a rule is a rule of the exporter
    have hreferent : p = m.referent modules s := by
      rw [Module.startReferent?, hs] at hp
      exact (Option.some.inj hp).symm
    apply hkeys.mpr
    rw [hreferent]
    exact Or.inl (referent_mem_definedReferents hlinked hm himport hrule)

end Linked

theorem twoModules_start_mem_keys :
    ∃ out, linkModules "wrap" "main" twoModules = .ok out ∧
      out.grammar.start ∈ out.grammar.rules.keys := by
  obtain ⟨out, hlinked⟩ := exists_linkModules_twoModules
  obtain ⟨m, p, hfind, -, -, -, hnone, -⟩ := start_mem_keys_iff hlinked
  cases hfind
  exact ⟨out, hlinked, hnone rfl⟩

/-! ## A start that is not a rule -/

/-- A module that starts from a name which it neither defines nor imports. -/
def danglingStart : Module where
  name := "m"
  grammar := { rules := .ofList [("a", [⟨"X", none, none⟩])], start := some "ghost" }

/-- Linking goes through and leaves a start without a rule. -/
theorem danglingStart_notMem_keys :
    ∃ out, linkModules "wrap" "m" [danglingStart] = .ok out ∧
      out.grammar.start = "m__ghost" ∧ out.grammar.rules.keys = ["m__a"] ∧
      out.grammar.start ∉ out.grammar.rules.keys := by
  have hlinks : ∃ out, linkModules "wrap" "m" [danglingStart] = .ok out := by
    apply (exists_linkModules_iff (noneRefused_never _)).mpr
    -- there is a start, and nobody asks whether it is a rule
    exact ⟨by decide, by decide +kernel, by decide, by decide, _, rfl, Or.inl (by decide)⟩
  obtain ⟨out, hlinked⟩ := hlinks
  have hstart : out.grammar.start = "m__ghost" := by
    obtain ⟨m, p, hfind, hp, hname⟩ := startReferent_of_linkModules hlinked
    cases hfind
    cases hp
    rw [hname]
    decide +kernel
  have hrules : out.grammar.rules.keys = ["m__a"] := by
    rw [Table.keys, rules_of_linkModules hlinked]
    decide +kernel
  refine ⟨out, hlinked, hstart, hrules, ?_⟩
  rw [hstart, hrules]
  decide

end ModularGrammar
