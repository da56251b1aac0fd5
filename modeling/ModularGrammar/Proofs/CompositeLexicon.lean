import ModularGrammar.Proofs.LinkedLexicon
import ModularGrammar.Proofs.MacroPattern

/-!
# Composite Lexicons

The composite lexicon is the lexicons of the modules, one after the other in the order of the
priorities.  Lexer rules, macros and start conditions all come through once, with the names that
the modules define qualified; the code comes through as it is, piece by piece on lines of its own.
A start condition that a lexer rule asks for is found again under the name that the rule has for it
now, with the flag it was declared with.  The action of a rule stands, unchanged, in a call of the
helper that is given the qualifier, in which nothing ever has to be escaped.

## Architecture

1. `ConditionLinked`, `LexicalRuleLinked`, `MacroLinked`: what may change in lexer rules and macros
2. `call_linkQualifier`: actions under the qualifier of a module
3. `LexiconsConcatenated`: what linking makes of lexicons and code
4. `lexicons_concatenated`: linked modules
-/

namespace ModularGrammar

/-! ## Linked lexer rules -/

/-- A lexer rule of a module asked for the start condition `source` and now asks for `target`.
`declared` are the start conditions of the composite lexicon. -/
inductive ConditionLinked (modules : List Module) (declared : Table UInt8) (m : Module) :
    String → String → Prop where
  | builtin {name : String} (h : name = "INITIAL" ∨ name = "*") :
      ConditionLinked modules declared m name name
  /-- Any other name is qualified, and has the flag that the module gives to it, if it does. -/
  | own {name : String} (hinitial : name ≠ "INITIAL") (hstar : name ≠ "*")
      (hflag : ∀ flag, m.startConditions.get? name = some flag →
        declared.get? (linkQualifier modules m.name ++ name) = some flag) :
      ConditionLinked modules declared m name (linkQualifier modules m.name ++ name)

/-- The text `target` is what a scan of `source` for the macros of a module gives. -/
def ReferencesScanned (modules : List Module) (m : Module) (source target : String) : Prop :=
  MacroReference.Scan m.macros.keys (linkQualifier modules m.name).toList source.toList
    target.toList

/-- `target` is what becomes of the lexer rule `source` of a module. -/
structure LexicalRuleLinked (helper : String) (modules : List Module) (declared : Table UInt8)
    (m : Module) (source target : LexicalRule) : Prop where
  /-- A missing list of conditions is missing still, and one that is there keeps its length. -/
  conditions : Option.Rel (List.Forall₂ (ConditionLinked modules declared m))
    source.conditions target.conditions
  pattern : ReferencesScanned modules m source.pattern target.pattern
  /-- The helper is given the qualifier as it is, and the action on lines of its own. -/
  action : target.action = "return " ++ helper ++ "(this, \"" ++ linkQualifier modules m.name ++
    "\", function() \x7b\n" ++ source.action ++ "\n\x7d);"

/-- `target` is what becomes of the macro `source` of a module, both with their names. -/
structure MacroLinked (modules : List Module) (m : Module) (source target : String × String) :
    Prop where
  name : target.1 = linkQualifier modules m.name ++ source.1
  body : ReferencesScanned modules m source.2 target.2

/-- The lexicon and the code of a composite grammar are those of the modules, taken in the order of
`ordered`. -/
structure LexiconsConcatenated (helper : String) (modules ordered : List Module)
    (grammar : CompositeGrammar) : Prop where
  order : PriorityOrder modules ordered
  rules : List.Forall₂ (fun source target =>
      LexicalRuleLinked helper modules grammar.lexicon.startConditions source.1 source.2 target)
    (ordered.flatMap fun m => m.lexicalRules.map (Prod.mk m)) grammar.lexicon.rules
  macros : List.Forall₂ (fun source target => MacroLinked modules source.1 source.2 target)
    (ordered.flatMap fun m => m.macros.entries.map (Prod.mk m)) grammar.lexicon.macros.entries
  startConditions : grammar.lexicon.startConditions.entries = ordered.flatMap fun m =>
    m.startConditions.entries.map fun entry => (linkQualifier modules m.name ++ entry.1, entry.2)
  actionCode : grammar.lexicon.actionCode = "\n".intercalate
    (ActionHelper.definition helper :: codePieces Module.actionCode ordered)
  code : grammar.code = "\n".intercalate (codePieces (fun m => m.grammar.code) ordered)

/-! ## Linked modules -/

theorem escapeFor_eq_self {quote : Char} {cs : List Char} (hbackslash : '\\' ∉ cs)
    (hquote : quote ∉ cs) : Text.escapeFor quote cs = cs := by
  induction cs with
  | nil => rfl
  | cons c cs ih =>
    simp only [List.mem_cons, not_or] at hbackslash hquote
    have hc : ¬ (c = '\\' ∨ c = quote) :=
      not_or.mpr ⟨Ne.symm hbackslash.1, Ne.symm hquote.1⟩
    rw [Text.escapeFor, if_neg hc, ih hbackslash.2 hquote.2]

/-- No qualifier of a link holds a quote or a backslash, so it stands between quotes as it is. -/
theorem call_linkQualifier (helper : String) (modules : List Module) (name action : String) :
    ActionHelper.call helper (linkQualifier modules name) action =
      "return " ++ helper ++ "(this, \"" ++ linkQualifier modules name ++
        "\", function() \x7b\n" ++ action ++ "\n\x7d);" := by
  have hbackslash := notMem_linkQualifier (c := '\\') (by decide) (by decide) modules name
  have hquote := notMem_linkQualifier (c := '"') (by decide) (by decide) modules name
  have hescape : Text.escape (linkQualifier modules name) = linkQualifier modules name := by
    rw [Text.escape, escapeFor_eq_self hbackslash hquote, String.ofList_toList]
  rw [ActionHelper.call, Text.inQuotes, hescape]
  simp only [String.append_assoc]
  rfl

theorem referencesScanned_globalPattern (modules : List Module) (m : Module) (pattern : String) :
    ReferencesScanned modules m pattern (m.globalPattern modules pattern) := by
  rw [ReferencesScanned, MacroReference.scan_iff, Module.globalPattern, MacroReference.qualify,
    String.toList_ofList]

section Linked

variable {helper entry : String} {modules : List Module} {refusal : MacroReference.Refusal}
  {out : LinkOutput} (hlinked : linkModules helper entry modules refusal = .ok out)

include hlinked

theorem conditionLinked {m : Module} (hm : m ∈ modules) (name : String) :
    ConditionLinked modules out.grammar.lexicon.startConditions m name
      ((m.renaming modules).condition name) := by
  rw [Renaming.condition]
  by_cases hbuiltin : name ∈ builtinConditions
  · rw [if_pos hbuiltin]
    have hname : name = "INITIAL" ∨ name = "*" := by
      simpa [builtinConditions] using hbuiltin
    exact .builtin hname
  · rw [if_neg hbuiltin]
    -- not built in, so it is neither of the two names
    simp only [builtinConditions, List.mem_cons, List.not_mem_nil, or_false, not_or] at hbuiltin
    refine .own hbuiltin.1 hbuiltin.2 ?_
    intro flag hflag
    exact get?_startConditions_of_linkModules hlinked hm hflag

theorem lexicalRuleLinked {m : Module} (hm : m ∈ modules) (rule : LexicalRule) :
    LexicalRuleLinked helper modules out.grammar.lexicon.startConditions m rule
      (m.globalLexicalRule modules helper rule) := by
  refine ⟨?_, referencesScanned_globalPattern modules m rule.pattern,
    call_linkQualifier helper modules m.name rule.action⟩
  show Option.Rel _ rule.conditions (rule.conditions.map (List.map (m.renaming modules).condition))
  cases rule.conditions with
  | none => exact .none
  | some names =>
    -- the conditions are renamed one by one
    apply Option.Rel.some
    rw [List.forall₂_map_right_iff, List.forall₂_same]
    intro name _
    exact conditionLinked hlinked hm name

/-- Lexer rules, macros, start conditions and code of linked modules all come through, in the order
of the priorities. -/
theorem lexicons_concatenated :
    ∃ ordered, LexiconsConcatenated helper modules ordered out.grammar := by
  refine ⟨Composition.byPriority modules, ?_⟩
  constructor
  case order => exact Composition.byPriority_priorityOrder modules
  case rules =>
    rw [lexicalRules_of_linkModules hlinked]
    -- rule by rule, in the order of the modules
    apply forall₂_flatMap_map
    intro m hm rule _
    exact lexicalRuleLinked hlinked (Composition.mem_byPriority.mp hm) rule
  case macros =>
    rw [macros_of_linkModules hlinked]
    apply forall₂_flatMap_map
    intro m _ entry _
    exact ⟨rfl, referencesScanned_globalPattern modules m entry.2⟩
  case startConditions => exact startConditions_of_linkModules hlinked
  case actionCode => exact actionCode_of_linkModules hlinked
  case code => exact code_of_linkModules hlinked

end Linked

/-! ## Lexicons with start conditions -/

/-- Three modules, of which the last one comes first and the second one has no lexicon.  Lists of
conditions are missing, empty and filled, and so are pieces of code. -/
def conditionalModules : List Module := [
  { name := "main"
    grammar := { rules := .ofList [("top", [⟨"STR", none, none⟩])], code := some "main();" }
    lexicon := some {
      rules := [⟨none, "[\"]", "this.begin('str');"⟩,
        ⟨some ["INITIAL", "str", "*"], "{digit}+", "return 'STR';"⟩]
      macros := .ofList [("digit", "[0-9]")]
      startConditions := .ofList [("str", 1)]
      actionCode := some "var n = 0;" } },
  { name := "bare"
    grammar := { code := some "bare();" } },
  { name := "lib"
    priority := -9223372036854775808
    grammar := { code := some "" }
    lexicon := some {
      rules := [⟨some [], "{digit}", ""⟩]
      startConditions := .ofList [("str", 0)]
      actionCode := some "" } }]

theorem conditionalModules_lexicons_concatenated :
    ∃ out, linkModules "wrap" "main" conditionalModules = .ok out ∧
      out.grammar.lexicon.rules = [
        ⟨some [], "{digit}", "return wrap(this, \"lib__\", function() \x7b\n\n\x7d);"⟩,
        ⟨none, "[\"]",
          "return wrap(this, \"main__\", function() \x7b\nthis.begin('str');\n\x7d);"⟩,
        ⟨some ["INITIAL", "main__str", "*"], "{main__digit}+",
          "return wrap(this, \"main__\", function() \x7b\nreturn 'STR';\n\x7d);"⟩] ∧
      out.grammar.lexicon.macros.entries = [("main__digit", "[0-9]")] ∧
      out.grammar.lexicon.startConditions.entries = [("lib__str", 0), ("main__str", 1)] ∧
      out.grammar.lexicon.actionCode = "\n".intercalate [
        "var wrap = function (lexer, prefix, action) \x7b",
        "  var builtin = [\"INITIAL\", \"*\"];",
        "  var begin = lexer.begin;",
        "  lexer.begin = function (state) \x7b",
        "    return begin.call(this, builtin.indexOf(state) >= 0 ? state : prefix + state);",
        "  \x7d;",
        "  try \x7b",
        "    var token = action.call(lexer);",
        "    return token && (prefix + token);",
        "  \x7d finally \x7b",
        "    lexer.begin = begin;",
        "  \x7d",
        "\x7d;"] ++ "\nvar n = 0;" ∧
      out.grammar.code = "main();\nbare();" ∧
      ∃ ordered, LexiconsConcatenated "wrap" conditionalModules ordered out.grammar := by
  have hlinks : ∃ out, linkModules "wrap" "main" conditionalModules = .ok out := by
    apply (exists_linkModules_iff (noneRefused_never _)).mpr
    exact ⟨by decide, by decide +kernel, by decide +kernel, by decide +kernel, _, rfl,
      Or.inr (by decide)⟩
  obtain ⟨out, hlinked⟩ := hlinks
  have horder : Composition.byPriority conditionalModules =
      [conditionalModules[2], conditionalModules[0], conditionalModules[1]] :=
    PriorityOrder.byPriority_eq (by decide +kernel)
  have hactionCode : codePieces Module.actionCode (Composition.byPriority conditionalModules) =
      ["var n = 0;"] := by
    rw [horder]
    decide +kernel
  have hcode : codePieces (fun m => m.grammar.code) (Composition.byPriority conditionalModules) =
      ["main();", "bare();"] := by
    rw [horder]
    decide +kernel
  refine ⟨out, hlinked, ?_, ?_, ?_, ?_, ?_, lexicons_concatenated hlinked⟩
  · rw [lexicalRules_of_linkModules hlinked, horder]
    decide +kernel
  · rw [macros_of_linkModules hlinked, horder]
    decide +kernel
  · rw [startConditions_of_linkModules hlinked, horder]
    decide +kernel
  · -- only two lines of the helper depend on anything, and these are computed
    have hname : "var " ++ "wrap" ++ " = function (lexer, prefix, action) \x7b" =
        "var wrap = function (lexer, prefix, action) \x7b" := rfl
    have hbuiltin : "  var builtin = [" ++ Text.join ", " (builtinConditions.map Text.inQuotes) ++
        "];" = "  var builtin = [\"INITIAL\", \"*\"];" := by decide +kernel
    have hlast : "\n" ++ "var n = 0;" = "\nvar n = 0;" := rfl
    rw [actionCode_of_linkModules hlinked, hactionCode, ActionHelper.definition,
      Text.join_eq_intercalate "\n", hname, hbuiltin, String.intercalate_cons_cons,
      String.intercalate_singleton, String.append_assoc, hlast]
  · rw [code_of_linkModules hlinked, hcode]
    decide +kernel

end ModularGrammar
