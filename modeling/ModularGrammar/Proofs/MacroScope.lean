import ModularGrammar.Proofs.LinkedLexicon
import ModularGrammar.Proofs.MacroReference

/-!
# The Scope of Macros

Linking qualifies the macros of a module and, in the patterns of this module, the names in braces
that are names of its macros.  Any other name in braces is left as it is.  So it leads to a macro
only if somebody has written the global name of a macro there; what the module's own names lead to
are the module's own macros.

## Architecture

1. `ReferenceLinked`, `PatternLinked`: what becomes of names in braces, and of patterns
2. `patternLinked_globalPattern`: patterns with global names
3. `macro_references_linked`: all patterns of linked modules
-/

namespace ModularGrammar

open MacroReference

/-! ## References -/

/-- The name `target` in braces has come from the name `source` in a module, and leads to one of
the macros of a link exactly if `source` is a macro of the module or is written like the global
name of some macro. -/
structure ReferenceLinked (modules : List Module) (macros : Table String) (m : Module)
    (source target : String) : Prop where
  isKey_iff : target ∈ macros.keys ↔ source ∈ m.macros.keys ∨
    ∃ x ∈ modules, ∃ own ∈ x.macros.keys, source = (⟨x.name, own⟩ : Referent).globalName modules
  /-- A name of the module's own leads to the same macro, with global names in its body. -/
  body : ∀ body, m.macros.get? source = some body →
    macros.get? target = some (m.globalPattern modules body)
  /-- Any other name is not touched. -/
  other : source ∉ m.macros.keys → target = source

/-- Characters stay as they are, and names in braces are linked. -/
inductive PieceLinked (modules : List Module) (macros : Table String) (m : Module) :
    Piece → Piece → Prop where
  | character (c : Char) : PieceLinked modules macros m (.character c) (.character c)
  | group {source target : String} (h : ReferenceLinked modules macros m source target) :
      PieceLinked modules macros m (.group source) (.group target)

/-- The pattern `target` is the pattern `source` of a module with every name in braces linked. -/
def PatternLinked (modules : List Module) (macros : Table String) (m : Module)
    (source target : String) : Prop :=
  List.Forall₂ (PieceLinked modules macros m) (pieces source) (pieces target)

/-! ## Linked modules -/

theorem braceFree_linkQualifier (modules : List Module) (name : String) :
    BraceFree (linkQualifier modules name).toList := by
  constructor
  · exact notMem_linkQualifier (by decide) (by decide) modules name
  · exact notMem_linkQualifier (by decide) (by decide) modules name

section Linked

variable {helper entry : String} {modules : List Module} {refusal : MacroReference.Refusal}
  {out : LinkOutput} (hlinked : linkModules helper entry modules refusal = .ok out)

include hlinked

theorem referenceLinked {m : Module} (hm : m ∈ modules) (name : String) :
    ReferenceLinked modules out.grammar.lexicon.macros m name
      (if name ∈ m.macros.keys then linkQualifier modules m.name ++ name else name) := by
  by_cases hown : name ∈ m.macros.keys
  · rw [if_pos hown]
    -- the qualified name is the global name of the module's own macro
    obtain ⟨body, hbody⟩ := Table.mem_keys_iff.mp hown
    have hget := get?_macros_of_linkModules hlinked hm hbody
    refine ⟨iff_of_true (Table.mem_keys_of_get? hget) (Or.inl hown), ?_, fun h => absurd hown h⟩
    intro other hother
    exact get?_macros_of_linkModules hlinked hm hother
  · rw [if_neg hown]
    refine ⟨?_, ?_, fun _ => rfl⟩
    · -- the name is left alone, so it is a key exactly if it is some global name by itself
      rw [mem_macros_keys_of_linkModules hlinked]
      exact (or_iff_right hown).symm
    · intro body hbody
      exact absurd (Table.mem_keys_of_get? hbody) hown

theorem pieceLinked_qualify {m : Module} (hm : m ∈ modules) (piece : Piece) :
    PieceLinked modules out.grammar.lexicon.macros m piece
      (piece.qualify m.macros.keys (linkQualifier modules m.name)) := by
  cases piece with
  | character c => exact .character c
  | group name => exact .group (referenceLinked hlinked hm name)

variable (hbraces : ∀ m ∈ modules, ∀ name ∈ m.macros.keys, BraceFree name.toList)

include hbraces

theorem patternLinked_globalPattern {m : Module} (hm : m ∈ modules) (pattern : String) :
    PatternLinked modules out.grammar.lexicon.macros m pattern
      (m.globalPattern modules pattern) := by
  -- the pieces of the new pattern are those of the old one, each changed on its own
  rw [PatternLinked, Module.globalPattern,
    pieces_qualify (hbraces m hm) (braceFree_linkQualifier modules m.name),
    List.forall₂_map_right_iff, List.forall₂_same]
  intro piece _
  exact pieceLinked_qualify hlinked hm piece

/-- In the lexer rules and the macros of linked modules, which come one module after the other in
the order of the priorities, every name in braces is linked and nothing else is changed. -/
theorem macro_references_linked :
    (∀ pattern, CutIntoPieces pattern) ∧
    ∃ ordered, PriorityOrder modules ordered ∧
      List.Forall₂ (fun source target =>
          PatternLinked modules out.grammar.lexicon.macros source.1 source.2.pattern target.pattern)
        (ordered.flatMap fun m => m.lexicalRules.map (Prod.mk m)) out.grammar.lexicon.rules ∧
      List.Forall₂ (fun source target =>
          target.1 = (⟨source.1.name, source.2.1⟩ : Referent).globalName modules ∧
            PatternLinked modules out.grammar.lexicon.macros source.1 source.2.2 target.2)
        (ordered.flatMap fun m => m.macros.entries.map (Prod.mk m))
        out.grammar.lexicon.macros.entries := by
  refine ⟨cutIntoPieces, Composition.byPriority modules,
    Composition.byPriority_priorityOrder modules, ?_, ?_⟩
  · rw [lexicalRules_of_linkModules hlinked]
    apply forall₂_flatMap_map
    intro m hm rule _
    exact patternLinked_globalPattern hlinked hbraces (Composition.mem_byPriority.mp hm) _
  · rw [macros_of_linkModules hlinked]
    apply forall₂_flatMap_map
    intro m hm entry _
    refine ⟨rfl, ?_⟩
    exact patternLinked_globalPattern hlinked hbraces (Composition.mem_byPriority.mp hm) _

end Linked

/-! ## Two lexicons -/

/-- Two modules with a macro of one name; the first one has a macro that refers to it. -/
def lexicalModules : List Module := [
  { name := "main"
    grammar := { rules := .ofList [("top", [⟨"NUM", none, none⟩])] }
    lexicon := some {
      rules := [⟨none, "{num}{2}", "return 'NUM';"⟩]
      macros := .ofList [("num", "{digit}+"), ("digit", "[0-9]")] } },
  { name := "lib"
    grammar := {}
    lexicon := some { macros := .ofList [("digit", "[a-f]")] } }]

theorem lexicalModules_macro_references_linked :
    ∃ out, linkModules "wrap" "main" lexicalModules = .ok out ∧
      (∀ m ∈ lexicalModules, ∀ name ∈ m.macros.keys, BraceFree name.toList) ∧
      (out.grammar.lexicon.rules.map LexicalRule.pattern = ["{main__num}{2}"]) ∧
      out.grammar.lexicon.macros.entries = [("main__num", "{main__digit}+"),
        ("main__digit", "[0-9]"), ("lib__digit", "[a-f]")] ∧
      ∃ ordered, PriorityOrder lexicalModules ordered ∧
        List.Forall₂ (fun source target => PatternLinked lexicalModules
            out.grammar.lexicon.macros source.1 source.2.pattern target.pattern)
          (ordered.flatMap fun m => m.lexicalRules.map (Prod.mk m)) out.grammar.lexicon.rules := by
  have hlinks : ∃ out, linkModules "wrap" "main" lexicalModules = .ok out := by
    apply (exists_linkModules_iff (noneRefused_never _)).mpr
    exact ⟨by decide, by decide +kernel, by decide +kernel, by decide +kernel, _, rfl,
      Or.inr (by decide)⟩
  obtain ⟨out, hlinked⟩ := hlinks
  have hbraces : ∀ m ∈ lexicalModules, ∀ name ∈ m.macros.keys, BraceFree name.toList := by
    unfold BraceFree
    decide
  have horder : Composition.byPriority lexicalModules = lexicalModules :=
    PriorityOrder.byPriority_eq (by decide +kernel)
  refine ⟨out, hlinked, hbraces, ?_, ?_, ?_⟩
  · rw [lexicalRules_of_linkModules hlinked, horder]
    decide +kernel
  · rw [macros_of_linkModules hlinked, horder]
    decide +kernel
  · obtain ⟨-, ordered, hordered, hrules, -⟩ := macro_references_linked hlinked hbraces
    exact ⟨ordered, hordered, hrules⟩

/-! ## A reference that is captured -/

/-- A module without macros, whose pattern has a name in braces that begins like a qualifier. -/
def capturedReference : Module where
  name := "main"
  grammar := { rules := .ofList [("top", [⟨"X", none, none⟩])] }
  imports := [⟨"lib", "", "", false⟩]
  lexicon := some { rules := [⟨none, "{lib__digit}+", "return 'X';"⟩] }

def capturingModules : List Module := [
  capturedReference,
  { name := "lib"
    grammar := {}
    lexicon := some { macros := .ofList [("digit", "[0-9]")] } }]

/-- The name in braces is no macro of its module, and leads to a macro of the other module. -/
theorem capturingModules_capture :
    ∃ out, linkModules "wrap" "main" capturingModules = .ok out ∧
      out.grammar.lexicon.rules.map LexicalRule.pattern = ["{lib__digit}+"] ∧
      out.grammar.lexicon.macros.entries = [("lib__digit", "[0-9]")] ∧
      (∀ m ∈ capturingModules, ∀ name ∈ m.macros.keys, BraceFree name.toList) ∧
      .group "lib__digit" ∈ pieces "{lib__digit}+" ∧
      "lib__digit" ∉ capturedReference.macros.keys ∧
      "lib__digit" ∈ out.grammar.lexicon.macros.keys := by
  have hlinks : ∃ out, linkModules "wrap" "main" capturingModules = .ok out := by
    apply (exists_linkModules_iff (noneRefused_never _)).mpr
    exact ⟨by decide, by decide +kernel, by decide, by decide, _, rfl, Or.inr (by decide)⟩
  obtain ⟨out, hlinked⟩ := hlinks
  have horder : Composition.byPriority capturingModules = capturingModules :=
    PriorityOrder.byPriority_eq (by decide +kernel)
  -- the macro of the second module gets the very name that the first one has in braces
  have hmacros : out.grammar.lexicon.macros.entries = [("lib__digit", "[0-9]")] := by
    rw [macros_of_linkModules hlinked, horder]
    decide +kernel
  have hbraces : ∀ m ∈ capturingModules, ∀ name ∈ m.macros.keys, BraceFree name.toList := by
    unfold BraceFree
    decide
  refine ⟨out, hlinked, ?_, hmacros, hbraces, ?_, by decide, ?_⟩
  · rw [lexicalRules_of_linkModules hlinked, horder]
    decide +kernel
  · have hpieces : pieces "{lib__digit}+" = [.group "lib__digit", .character '+'] := by
      decide +kernel
    rw [hpieces]
    exact List.mem_cons_self
  · rw [Table.keys, hmacros]
    exact List.mem_cons_self

end ModularGrammar
