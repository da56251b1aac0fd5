import Mathlib.Control.Monad.Basic
import ModularGrammar.Link.Basic
import ModularGrammar.Proofs.Merging
import ModularGrammar.Proofs.PriorityOrder
import ModularGrammar.Proofs.Renaming

/-!
# What Linking Produces

Linking taken apart: when it succeeds, and what the composite grammar then holds, said of the
modules that were given.

## Architecture

1. `compose_eq_ok_iff`, `linkModules_of_valid`, `linkModules_of_refused`, `linkModules_eq_ok_iff`:
   the stages, one after the other
2. `Module.globalRules`, `Module.globalPrecedence`: what a module contributes
3. `startRule_linked`: what linked modules start from
4. `rules_of_linkModules`, `precedence_of_linkModules`, `start_of_linkModules`: the result
5. `exists_linkModules_iff`: when linking succeeds
-/

namespace ModularGrammar

/-! ## Stages -/

theorem compose_eq_ok_iff {helper entry : String} {modules : List Module}
    {grammar : CompositeGrammar} :
    Composition.compose helper entry modules = .ok grammar ↔
      Composition.mergeRules (Composition.byPriority modules) = .ok grammar.rules ∧
      Composition.startRule entry modules = .ok grammar.start ∧
      Composition.mergeLexicons helper (Composition.byPriority modules) = .ok grammar.lexicon ∧
      grammar.precedence = Precedence.mergeRows
        ((Composition.byPriority modules).flatMap Module.precedence) ∧
      grammar.code = Composition.joinCode
        ((Composition.byPriority modules).map fun m => m.grammar.code) := by
  simp only [Composition.compose, except_bind_eq_ok]
  constructor
  · intro h
    obtain ⟨rules, hrules, start, hstart, lexicon, hlexicon, hgrammar⟩ := h
    cases hgrammar
    exact ⟨hrules, hstart, hlexicon, rfl, rfl⟩
  · intro h
    obtain ⟨hrules, hstart, hlexicon, hprecedence, hcode⟩ := h
    refine ⟨_, hrules, _, hstart, _, hlexicon, ?_⟩
    -- a grammar is what its parts are
    cases grammar
    simp only at hprecedence hcode
    rw [hprecedence, hcode]
    rfl

/-- Modules are refused or not: nothing is said about any of them, or something about a first. -/
theorem noneRefused_or_exists_refused (refusal : MacroReference.Refusal) (modules : List Module) :
    NoneRefused refusal modules ∨ ∃ e, modules.findSome? (Module.refused? refusal) = some e := by
  cases h : modules.findSome? (Module.refused? refusal) with
  | none => exact .inl (List.findSome?_eq_none_iff.mp h)
  | some e => exact .inr ⟨e, rfl⟩

section Stages

variable {helper entry : String} {modules : List Module} {refusal : MacroReference.Refusal}

/-- Valid modules are given their global names and put together. -/
theorem linkModules_of_valid
    (hvalid : ExportIndex.problems (ExportIndex.ofModules modules) modules = [])
    (haccepted : NoneRefused refusal modules) :
    linkModules helper entry modules refusal =
      (Composition.compose helper entry (modules.map (Module.linked modules helper)) >>=
        fun grammar => .ok {
          grammar
          report := .ofModules (modules.map (Module.linked modules helper)) (linkNaming modules)
          graph := .ofModules modules }) := by
  have hindex := ExportIndex.validate_eq_ok_iff.mpr ⟨hvalid, rfl⟩
  have hrenamed := renameAll_eq helper hvalid haccepted
  rw [linkNaming] at hrenamed
  simp only [linkModules, hindex, bind, Except.bind, hrenamed]
  rfl

/-- If the macros of some valid module are refused, linking tells about the first such module. -/
theorem linkModules_of_refused
    (hvalid : ExportIndex.problems (ExportIndex.ofModules modules) modules = []) {e : LinkError}
    (hrefused : modules.findSome? (Module.refused? refusal) = some e) :
    linkModules helper entry modules refusal = .error e := by
  have hindex := ExportIndex.validate_eq_ok_iff.mpr ⟨hvalid, rfl⟩
  have hrenamed := renameAll_of_refused helper hvalid hrefused
  rw [linkNaming] at hrenamed
  simp only [linkModules, hindex, bind, Except.bind, hrenamed]

/-- Linking succeeds exactly if the modules are valid, none is refused, and the modules with global
names can be put together. -/
theorem linkModules_eq_ok_iff {out : LinkOutput} :
    linkModules helper entry modules refusal = .ok out ↔
      ExportIndex.problems (ExportIndex.ofModules modules) modules = [] ∧
      Composition.compose helper entry (modules.map (Module.linked modules helper)) =
        .ok out.grammar ∧
      out.report = .ofModules (modules.map (Module.linked modules helper)) (linkNaming modules) ∧
      out.graph = .ofModules modules ∧
      NoneRefused refusal modules := by
  constructor
  · intro h
    have hvalid : ExportIndex.problems (ExportIndex.ofModules modules) modules = [] := by
      rw [linkModules, except_bind_eq_ok] at h
      obtain ⟨index, hindex, -⟩ := h
      exact (ExportIndex.validate_eq_ok_iff.mp hindex).1
    -- a library that refuses something ends linking, so it has refused nothing
    rcases noneRefused_or_exists_refused refusal modules with haccepted | ⟨e, hrefused⟩
    · rw [linkModules_of_valid hvalid haccepted, except_bind_eq_ok] at h
      obtain ⟨grammar, hgrammar, hout⟩ := h
      cases hout
      exact ⟨hvalid, hgrammar, rfl, rfl, haccepted⟩
    · rw [linkModules_of_refused hvalid hrefused] at h
      cases h
  · intro h
    obtain ⟨hvalid, hgrammar, hreport, hgraph, haccepted⟩ := h
    rw [linkModules_of_valid hvalid haccepted, except_bind_eq_ok]
    refine ⟨_, hgrammar, ?_⟩
    cases out
    simp only at hreport hgraph
    rw [hreport, hgraph]

end Stages

/-! ## Contributions -/

/-- The alternative with every name in it replaced, symbol by symbol. -/
def Alternative.mapNames (f : String → String) (a : Alternative) : Alternative where
  symbols := Text.join " " ((Text.split ' ' a.symbols).map fun s => if s = "" then "" else f s)
  action := a.action
  precedence := a.precedence.map f

/-- How a module writes a name once it has been linked. -/
def Module.globalName (modules : List Module) (m : Module) (name : String) : String :=
  (m.referent modules name).globalName modules

theorem Module.globalName_of_importOf? {modules : List Module} {m : Module} {name : String}
    {i : Import} (h : m.importOf? name = some i) :
    m.globalName modules name = (i.referent modules).globalName modules := by
  rw [Module.globalName, Module.referent, h]

/-- The rules of a module with global names. -/
def Module.globalRules (modules : List Module) (m : Module) : List (String × List Alternative) :=
  m.grammar.rules.entries.map fun rule =>
    ((⟨m.name, rule.1⟩ : Referent).globalName modules,
      rule.2.map (Alternative.mapNames (m.globalName modules)))

/-- The precedence declarations of a module with global names. -/
def Module.globalPrecedence (modules : List Module) (m : Module) : List Precedence :=
  m.precedence.map fun d => { d with tokens := d.tokens.map (m.globalName modules) }

section Contributions

variable (modules : List Module) (helper : String) (m : Module)

private theorem symbol_renaming : (m.renaming modules).symbol = m.globalName modules :=
  funext (renaming_symbol modules m)

theorem entries_linked :
    (m.linked modules helper).grammar.rules.entries = m.globalRules modules := by
  have halternative : Alternative.rename (m.renaming modules) =
      Alternative.mapNames (m.globalName modules) := by
    funext a
    rw [Alternative.rename, Alternative.mapNames, ← symbol_renaming]
    rfl
  show m.grammar.rules.entries.map (fun e => ((m.renaming modules).qualifier ++ e.1,
    e.2.map (Alternative.rename (m.renaming modules)))) = _
  rw [halternative]
  rfl

theorem precedence_linked :
    (m.linked modules helper).precedence = m.globalPrecedence modules := by
  show m.precedence.map (Precedence.rename (m.renaming modules)) = _
  rw [Module.globalPrecedence, ← symbol_renaming]
  rfl

theorem start_linked :
    (m.linked modules helper).grammar.start = m.grammar.start.map (m.globalName modules) := by
  show m.grammar.start.map (m.renaming modules).symbol = _
  rw [symbol_renaming]

theorem keys_globalRules : (m.globalRules modules).map Prod.fst =
    m.grammar.rules.keys.map fun r => (⟨m.name, r⟩ : Referent).globalName modules := by
  simp [Module.globalRules, Table.keys, Function.comp_def]

theorem keys_linked : (m.linked modules helper).grammar.rules.keys =
    m.grammar.rules.keys.map fun r => (⟨m.name, r⟩ : Referent).globalName modules := by
  rw [Table.keys, entries_linked, keys_globalRules]

end Contributions

/-- Sorting linked modules is linking the sorted ones. -/
theorem byPriority_linked (modules : List Module) (helper : String) :
    Composition.byPriority (modules.map (Module.linked modules helper)) =
      (Composition.byPriority modules).map (Module.linked modules helper) :=
  Composition.byPriority_map fun _ _ _ _ => Iff.rfl

/-! ## The start -/

section Start

variable (modules : List Module) (helper : String) {entry : String}

/-- The entry is looked for among the modules that were given, and what it starts from gets its
global name. -/
theorem startRule_linked :
    Composition.startRule entry (modules.map (Module.linked modules helper)) =
      match modules.find? fun m => m.name == entry with
      | none => .error (.internal (.entryNotLoaded entry))
      | some m =>
        match m.grammar.start.map (m.globalName modules) <|>
            (m.grammar.rules.keys.map fun r =>
              (⟨m.name, r⟩ : Referent).globalName modules).head? with
        | some rule => .ok rule
        | none => .error (.missingStartRule m.name) := by
  -- renaming keeps the names of modules, so the entry is found where it was
  have hname : ((fun m : Module => m.name == entry) ∘ Module.linked modules helper) =
      fun m => m.name == entry := rfl
  rw [Composition.startRule, List.find?_map, hname]
  cases modules.find? fun m => m.name == entry with
  | none => rfl
  | some m =>
    simp only [Option.map_some, start_linked, keys_linked]
    rfl

theorem startRule_linked_eq_ok_iff {start : String} :
    Composition.startRule entry (modules.map (Module.linked modules helper)) = .ok start ↔
      ∃ m, modules.find? (fun m => m.name == entry) = some m ∧
        ((∃ s, m.grammar.start = some s ∧ start = m.globalName modules s) ∨
          (m.grammar.start = none ∧ ∃ r, m.grammar.rules.keys.head? = some r ∧
            start = (⟨m.name, r⟩ : Referent).globalName modules)) := by
  rw [startRule_linked]
  cases modules.find? fun m => m.name == entry with
  | none => simp
  | some m =>
    simp only [Option.some.injEq, exists_eq_left', List.head?_map]
    cases m.grammar.start with
    | some s => simp [eq_comm]
    | none =>
      cases m.grammar.rules.keys.head? with
      | none => simp
      | some r => simp [eq_comm]

theorem exists_startRule_linked_iff :
    (∃ start, Composition.startRule entry (modules.map (Module.linked modules helper)) =
        .ok start) ↔
      ∃ m, modules.find? (fun m => m.name == entry) = some m ∧
        (m.grammar.start ≠ none ∨ m.grammar.rules.keys ≠ []) := by
  constructor
  · rintro ⟨start, hstart⟩
    obtain ⟨m, hfind, ⟨s, hs, -⟩ | ⟨-, r, hr, -⟩⟩ :=
      (startRule_linked_eq_ok_iff modules helper).mp hstart
    · exact ⟨m, hfind, Or.inl (by simp [hs])⟩
    · exact ⟨m, hfind, Or.inr (List.ne_nil_of_mem (List.mem_of_mem_head? hr))⟩
  · rintro ⟨m, hfind, hsome⟩
    cases hs : m.grammar.start with
    | some s =>
      exact ⟨_, (startRule_linked_eq_ok_iff modules helper).mpr
        ⟨m, hfind, Or.inl ⟨s, hs, rfl⟩⟩⟩
    | none =>
      -- without a start of its own the entry has a rule, and its first one will do
      obtain ⟨r, rest, hr⟩ := List.exists_cons_of_ne_nil (hsome.resolve_left fun h => h hs)
      have hfirst : m.grammar.rules.keys.head? = some r := by rw [hr, List.head?_cons]
      exact ⟨_, (startRule_linked_eq_ok_iff modules helper).mpr
        ⟨m, hfind, Or.inr ⟨hs, r, hfirst, rfl⟩⟩⟩

end Start

/-! ## The composite grammar -/

section Output

variable {helper entry : String} {modules : List Module} {refusal : MacroReference.Refusal}
  {out : LinkOutput} (hlinked : linkModules helper entry modules refusal = .ok out)

include hlinked

theorem valid_of_linkModules :
    ExportIndex.problems (ExportIndex.ofModules modules) modules = [] :=
  (linkModules_eq_ok_iff.mp hlinked).1

theorem noneRefused_of_linkModules : NoneRefused refusal modules := by
  obtain ⟨-, -, -, -, haccepted⟩ := linkModules_eq_ok_iff.mp hlinked
  exact haccepted

/-- The composite rule table holds the rules of all modules and nothing else. -/
theorem rules_of_linkModules : out.grammar.rules.entries =
    (Composition.byPriority modules).flatMap (Module.globalRules modules) := by
  have hcompose := (linkModules_eq_ok_iff.mp hlinked).2.1
  have hrules := (Composition.mergeRules_eq_ok_iff.mp (compose_eq_ok_iff.mp hcompose).1).2
  -- sorting the linked modules is linking the sorted ones
  simpa [byPriority_linked, List.flatMap_map, entries_linked] using hrules

theorem precedence_of_linkModules : out.grammar.precedence = Precedence.mergeRows
    ((Composition.byPriority modules).flatMap (Module.globalPrecedence modules)) := by
  have hcompose := (linkModules_eq_ok_iff.mp hlinked).2.1
  have hrows := (compose_eq_ok_iff.mp hcompose).2.2.2.1
  simpa [byPriority_linked, List.flatMap_map, precedence_linked] using hrows

/-- The composite grammar starts from what the entry names, or else from its first rule. -/
theorem start_of_linkModules :
    ∃ m, modules.find? (fun m => m.name == entry) = some m ∧
      ((∃ s, m.grammar.start = some s ∧ out.grammar.start = m.globalName modules s) ∨
        (m.grammar.start = none ∧ ∃ r, m.grammar.rules.keys.head? = some r ∧
          out.grammar.start = (⟨m.name, r⟩ : Referent).globalName modules)) := by
  have hcompose := (linkModules_eq_ok_iff.mp hlinked).2.1
  have hstart := (compose_eq_ok_iff.mp hcompose).2.1
  exact (startRule_linked_eq_ok_iff modules helper).mp hstart

end Output

/-! ## Success -/

/-- The global names of what modules define. -/
def globalNames (modules : List Module) (defined : Module → List String) : List String :=
  modules.flatMap fun m => (defined m).map fun name => (⟨m.name, name⟩ : Referent).globalName modules

/-- A table of what all modules define has the global names: the order of the priorities does not
matter for which names there are. -/
theorem perm_globalNames {α : Type} {t : Table α} {modules : List Module}
    {global : Module → List (String × α)} {defined : Module → List String}
    (hentries : t.entries = (Composition.byPriority modules).flatMap global)
    (hkeys : ∀ m, (global m).map Prod.fst =
      (defined m).map fun name => (⟨m.name, name⟩ : Referent).globalName modules) :
    t.keys.Perm (globalNames modules defined) := by
  rw [Table.keys, hentries, List.map_flatMap]
  simp only [hkeys]
  exact (Composition.perm_byPriority modules).flatMap_right _

section Success

variable (modules : List Module) (helper : String) (m : Module)

/-- A table of the lexicon in which names are qualified has their global names. -/
theorem keys_lexiconTable_linked {α : Type} (table : Lexicon → Table α)
    (hqualify : ∀ (r : Renaming) (l : Lexicon),
      (table (l.renamed r helper)).keys = (table l).keys.map (r.qualifier ++ ·)) :
    (((m.linked modules helper).lexicon.map table).getD .empty).keys =
      ((m.lexicon.map table).getD .empty).keys.map
        fun name => (⟨m.name, name⟩ : Referent).globalName modules := by
  rw [lexicon_linked]
  cases m.lexicon with
  | none => rfl
  | some l => exact hqualify (m.renaming modules) l

theorem macros_keys_linked : (m.linked modules helper).macros.keys =
    m.macros.keys.map fun name => (⟨m.name, name⟩ : Referent).globalName modules :=
  keys_lexiconTable_linked modules helper m Lexicon.macros fun _ _ => Table.keys_qualify

theorem startConditions_keys_linked : (m.linked modules helper).startConditions.keys =
    m.startConditions.keys.map fun name => (⟨m.name, name⟩ : Referent).globalName modules :=
  keys_lexiconTable_linked modules helper m Lexicon.startConditions fun _ _ => Table.keys_qualify

/-- Modules in the order of their priorities define the names they define in any order. -/
theorem nodup_byPriority_linked (names : Module → List String)
    {defined : Module → List String}
    (hnames : ∀ m, names (m.linked modules helper) =
      (defined m).map fun name => (⟨m.name, name⟩ : Referent).globalName modules) :
    ((Composition.byPriority (modules.map (Module.linked modules helper))).flatMap names).Nodup ↔
      (globalNames modules defined).Nodup := by
  have hlinked : (Composition.byPriority (modules.map (Module.linked modules helper))).flatMap
      names = (Composition.byPriority modules).flatMap fun m =>
        (defined m).map fun name => (⟨m.name, name⟩ : Referent).globalName modules := by
    rw [byPriority_linked, List.flatMap_map]
    simp only [hnames]
  rw [hlinked]
  exact ((Composition.perm_byPriority modules).flatMap_right _).nodup_iff

end Success

/-- If no module is refused, linking succeeds exactly if imports and exports meet, no name is
defined twice, and the entry is there with something to start from. -/
theorem exists_linkModules_iff {helper entry : String} {modules : List Module}
    {refusal : MacroReference.Refusal} (haccepted : NoneRefused refusal modules) :
    (∃ out, linkModules helper entry modules refusal = .ok out) ↔
      ExportIndex.problems (ExportIndex.ofModules modules) modules = [] ∧
      (globalNames modules fun m => m.grammar.rules.keys).Nodup ∧
      (globalNames modules fun m => m.macros.keys).Nodup ∧
      (globalNames modules fun m => m.startConditions.keys).Nodup ∧
      ∃ m, modules.find? (fun m => m.name == entry) = some m ∧
        (m.grammar.start ≠ none ∨ m.grammar.rules.keys ≠ []) := by
  have hrules := nodup_byPriority_linked modules helper
    (fun m => m.grammar.rules.keys) (keys_linked modules helper)
  have hmacros := nodup_byPriority_linked modules helper
    (fun m => m.macros.keys) (macros_keys_linked modules helper)
  have hconditions := nodup_byPriority_linked modules helper
    (fun m => m.startConditions.keys) (startConditions_keys_linked modules helper)
  constructor
  · intro h
    obtain ⟨out, hout⟩ := h
    obtain ⟨hvalid, hcompose, -, -⟩ := linkModules_eq_ok_iff.mp hout
    obtain ⟨hmerge, hstart, hlexicons, -, -⟩ := compose_eq_ok_iff.mp hcompose
    obtain ⟨hm, hc, -⟩ := Composition.mergeLexicons_eq_ok_iff.mp hlexicons
    exact ⟨hvalid, hrules.mp (Composition.mergeRules_eq_ok_iff.mp hmerge).1, hmacros.mp hm,
      hconditions.mp hc, (exists_startRule_linked_iff modules helper).mp ⟨_, hstart⟩⟩
  · intro h
    obtain ⟨hvalid, hr, hm, hc, hentry⟩ := h
    -- each part of the composite grammar can be built on its own
    obtain ⟨start, hstart⟩ := (exists_startRule_linked_iff modules helper).mpr hentry
    obtain ⟨rules, hmerge⟩ := Composition.exists_mergeRules (hrules.mpr hr)
    obtain ⟨lexicon, hlexicons⟩ :=
      Composition.exists_mergeLexicons helper (hmacros.mpr hm) (hconditions.mpr hc)
    have hcompose : ∃ grammar, Composition.compose helper entry
        (modules.map (Module.linked modules helper)) = .ok grammar :=
      ⟨⟨rules, start, _, _, lexicon⟩,
        compose_eq_ok_iff.mpr ⟨hmerge, hstart, hlexicons, rfl, rfl⟩⟩
    obtain ⟨grammar, hgrammar⟩ := hcompose
    exact ⟨⟨grammar, _, _⟩, linkModules_eq_ok_iff.mpr ⟨hvalid, hgrammar, rfl, rfl, haccepted⟩⟩

/-! ## Two modules -/

/-- A grammar that takes a rule and a token from another module, which stands before it in the
composite grammar. -/
def twoModules : List Module := [
  { name := "main"
    grammar := { rules := .ofList [("top", [⟨"item  NUM", none, some "NUM"⟩])] }
    imports := [⟨"lib", "default", "item", false⟩, ⟨"lib", "NUMBER", "NUM", true⟩] },
  { name := "lib"
    priority := 10
    grammar := { rules := .ofList [("entry", [⟨"WORD", none, none⟩])] }
    exports := [⟨"entry", "default", false⟩, ⟨"NUMBER", "NUMBER", true⟩] }]

theorem exists_linkModules_twoModules :
    ∃ out, linkModules "wrap" "main" twoModules = .ok out := by
  -- only the names of rules are computed, not the whole link
  apply (exists_linkModules_iff (noneRefused_never _)).mpr
  exact ⟨by decide, by decide +kernel, by decide, by decide, _, rfl, Or.inr (by decide)⟩

/-- Two modules with a macro each, whose global names are the same. -/
def collidingMacros : List Module := [
  { name := "main"
    grammar := { rules := .ofList [("top", [⟨"NUM", none, none⟩])] }
    lexicon := some { macros := .ofList [("b__x", "[0-9]")] } },
  { name := "main__b"
    grammar := {}
    lexicon := some { macros := .ofList [("x", "[a-z]")] } }]

/-- A library that takes expressions up to a size. -/
def boundedRefusal : MacroReference.Refusal :=
  .beyond 300000 "Compiled regex exceeds size limit of 10485760 bytes."

theorem linkModules_collidingMacros :
    linkModules "wrap" "main" collidingMacros boundedRefusal =
      .error (.identifierCollision .lexerMacro "main__b__x" "main" "main__b") := by
  have horder :
      Composition.byPriority (collidingMacros.map (Module.linked collidingMacros "wrap")) =
        collidingMacros.map (Module.linked collidingMacros "wrap") :=
    PriorityOrder.byPriority_eq (by decide +kernel)
  have hcompose : Composition.compose "wrap" "main"
      (collidingMacros.map (Module.linked collidingMacros "wrap")) =
        .error (.identifierCollision .lexerMacro "main__b__x" "main" "main__b") := by
    rw [Composition.compose, horder]
    decide +kernel
  rw [linkModules_of_valid (by decide) (by decide), hcompose]
  rfl

end ModularGrammar
