import ModularGrammar.Proofs.Construction
import ModularGrammar.Proofs.DistinctForms

/-!
# Default Bindings

A default export is a rule, and the forms that are made for defaults never give a token: the default
name of an import, the export of a default, and the lexicon, which refuses defaults however they are
spelled.  Only a group with the word `lex` in a grammar can list the name `default` among its items,
and then the default is a token.

## Architecture

1. `group?`: the group of an import or export; its items are what is lexical
2. The imports and exports of a document, line by line
3. `lexical_defaults_iff`: the lexical defaults of a module
-/

namespace ModularGrammar

/-! ## Lexical bindings -/

namespace Directive

def ImportForm.group? : ImportForm → Option Group
  | .bare _ | .named _ _ => none
  | .grouped g _ | .both _ g _ => some g

def ExportForm.group? : ExportForm → Option Group
  | .named _ _ => none
  | .grouped g => some g

variable {b : Binding}

theorem Group.mem_bindings_iff {g : Group} : b ∈ g.bindings ∧ b.lexical = true ↔
    g.lexical = true ∧ ∃ item ∈ g.contents.items, b = ⟨item.name, item.knownAs, true⟩ := by
  rw [Group.bindings, List.mem_map]
  constructor
  · rintro ⟨⟨item, hitem, rfl⟩, hlexical⟩
    exact ⟨hlexical, item, hitem, by rw [← hlexical]⟩
  · rintro ⟨hlexical, item, hitem, rfl⟩
    exact ⟨⟨item, hitem, by rw [hlexical]⟩, rfl⟩

/-- The lexical bindings of an import are the items of its group, if the group is lexical. -/
theorem ImportForm.mem_bindings_iff {form : ImportForm} :
    b ∈ form.directive.bindings ∧ b.lexical = true ↔
      ∃ g, form.group? = some g ∧ g.lexical = true ∧
        ∃ item ∈ g.contents.items, b = ⟨item.name, item.knownAs, true⟩ := by
  -- a default name is a binding that is not lexical
  have hdefault : ∀ first : DefaultPart, b = first.binding → ¬ b.lexical = true := by
    rintro first rfl
    simp [DefaultPart.binding]
  cases form with
  | bare path => simp [directive, group?]
  | grouped g path => simp [directive, group?, Group.mem_bindings_iff]
  | named first path =>
    simpa [directive, group?] using hdefault first
  | both first g path =>
    simp only [directive, group?, List.mem_cons, Option.some.injEq, exists_eq_left',
      ← Group.mem_bindings_iff]
    constructor
    · rintro ⟨hb | hb, hlexical⟩
      · exact absurd hlexical (hdefault first hb)
      · exact ⟨hb, hlexical⟩
    · rintro ⟨hb, hlexical⟩
      exact ⟨Or.inr hb, hlexical⟩

/-- The lexical bindings of an export are the items of its group, if the group is lexical. -/
theorem ExportForm.mem_bindings_iff {form : ExportForm} :
    b ∈ form.directive.bindings ∧ b.lexical = true ↔
      ∃ g, form.group? = some g ∧ g.lexical = true ∧
        ∃ item ∈ g.contents.items, b = ⟨item.name, item.knownAs, true⟩ := by
  cases form with
  | named name hname =>
    simp only [directive, group?, List.mem_singleton, reduceCtorEq, false_and, exists_false,
      iff_false]
    rintro ⟨rfl, hlexical⟩
    cases hlexical
  | grouped g => simp [directive, group?, Group.mem_bindings_iff]

end Directive

/-! ## Documents -/

namespace Module

open Directive

section Documents

variable {side : Side} {lines : List String}

theorem mem_importsSaid_iff {i : Import} : i ∈ importsSaid side lines ↔
    ∃ line ∈ Kind.importing.linesIn lines, ∃ d, readImport line = .ok d ∧ i ∈ d.imports side := by
  rw [importsSaid, List.mem_flatMap]
  refine exists_congr fun line => and_congr_right fun _ => ?_
  cases readImport line <;> simp

theorem mem_exportsSaid_iff {e : Export} : e ∈ exportsSaid side lines ↔
    ∃ line ∈ Kind.exporting.linesIn lines, ∃ d, readExport line = .ok d ∧ e ∈ d.exports side := by
  rw [exportsSaid, List.mem_flatMap]
  refine exists_congr fun line => and_congr_right fun _ => ?_
  cases readExport line <;> simp

end Documents

/-- A default import comes from a binding of this name; an import without bindings has no name. -/
theorem mem_imports_default_iff {d : ImportDirective} {side : Side} {i : Import} :
    i ∈ d.imports side ∧ i.publicName = "default" ↔ ∃ b ∈ d.bindings, b.name = "default" ∧
      i = ⟨d.path, "default", b.knownAs, b.lexical || side = .lexicon⟩ := by
  rw [ImportDirective.imports]
  split
  · next hnone =>
    simp only [List.mem_singleton, hnone, List.not_mem_nil, false_and, exists_false, iff_false]
    rintro ⟨rfl, hdefault⟩
    simp at hdefault
  · rw [List.mem_map]
    constructor
    · rintro ⟨⟨b, hb, rfl⟩, hdefault⟩
      exact ⟨b, hb, hdefault, by rw [← hdefault]⟩
    · rintro ⟨b, hb, hdefault, rfl⟩
      exact ⟨⟨b, hb, by rw [hdefault]⟩, rfl⟩

theorem mem_exports_default_iff {d : ExportDirective} {side : Side} {e : Export} :
    e ∈ d.exports side ∧ e.publicName = "default" ↔ ∃ b ∈ d.bindings, b.knownAs = "default" ∧
      e = ⟨b.name, "default", b.lexical || side = .lexicon⟩ := by
  rw [ExportDirective.exports, List.mem_map]
  constructor
  · rintro ⟨⟨b, hb, rfl⟩, hdefault⟩
    exact ⟨b, hb, hdefault, by rw [← hdefault]⟩
  · rintro ⟨b, hb, hdefault, rfl⟩
    exact ⟨⟨b, hb, by rw [hdefault]⟩, rfl⟩

/-! ## Modules -/

section Modules

variable {name : String} {source : Source} {fallback : Int64} {m : Module}

/-- A lexicon has no default imports, so those of a module are read from its grammar. -/
theorem mem_default_imports_iff (h : ofSource name source fallback = .ok m) {i : Import} :
    i ∈ m.imports ∧ i.publicName = "default" ↔
      ∃ line ∈ Kind.importing.linesIn (source.lines .grammar), ∃ d, readImport line = .ok d ∧
        ∃ b ∈ d.bindings, b.name = "default" ∧
          i = ⟨d.path, "default", b.knownAs, b.lexical⟩ := by
  obtain ⟨hsource, hm⟩ := ofSource_eq_ok_iff.mp h
  rw [hm.imports, List.mem_append]
  constructor
  · rintro ⟨hi | hi, hdefault⟩
    · obtain ⟨line, hline, d, hread, hi⟩ := mem_importsSaid_iff.mp hi
      obtain ⟨b, hb, hname, rfl⟩ := mem_imports_default_iff.mp ⟨hi, hdefault⟩
      exact ⟨line, hline, d, hread, b, hb, hname, by simp⟩
    · obtain ⟨line, hline, d, hread, hi⟩ := mem_importsSaid_iff.mp hi
      obtain ⟨b, hb, hname, -⟩ := mem_imports_default_iff.mp ⟨hi, hdefault⟩
      -- the lexicon of a module that was built has no default import
      exact absurd hname (hsource.imports line hline d hread b hb)
  · rintro ⟨line, hline, d, hread, b, hb, hname, rfl⟩
    have hi := (@mem_imports_default_iff d .grammar _).mpr ⟨b, hb, hname, rfl⟩
    simp only [reduceCtorEq, decide_false, Bool.or_false] at hi
    exact ⟨Or.inl (mem_importsSaid_iff.mpr ⟨line, hline, d, hread, hi.1⟩), rfl⟩

/-- A lexicon has no default exports, so those of a module are read from its grammar. -/
theorem mem_default_exports_iff (h : ofSource name source fallback = .ok m) {e : Export} :
    e ∈ m.exports ∧ e.publicName = "default" ↔
      ∃ line ∈ Kind.exporting.linesIn (source.lines .grammar), ∃ d, readExport line = .ok d ∧
        ∃ b ∈ d.bindings, b.knownAs = "default" ∧ e = ⟨b.name, "default", b.lexical⟩ := by
  obtain ⟨hsource, hm⟩ := ofSource_eq_ok_iff.mp h
  rw [hm.exports, List.mem_append]
  constructor
  · rintro ⟨he | he, hdefault⟩
    · obtain ⟨line, hline, d, hread, he⟩ := mem_exportsSaid_iff.mp he
      obtain ⟨b, hb, hname, rfl⟩ := mem_exports_default_iff.mp ⟨he, hdefault⟩
      exact ⟨line, hline, d, hread, b, hb, hname, by simp⟩
    · obtain ⟨line, hline, d, hread, he⟩ := mem_exportsSaid_iff.mp he
      obtain ⟨b, hb, hname, -⟩ := mem_exports_default_iff.mp ⟨he, hdefault⟩
      -- the lexicon of a module that was built has no default export
      exact absurd hname (hsource.exports line hline d hread b hb)
  · rintro ⟨line, hline, d, hread, b, hb, hname, rfl⟩
    have he := (@mem_exports_default_iff d .grammar _).mpr ⟨b, hb, hname, rfl⟩
    simp only [reduceCtorEq, decide_false, Bool.or_false] at he
    exact ⟨Or.inl (mem_exportsSaid_iff.mpr ⟨line, hline, d, hread, he.1⟩), rfl⟩

end Modules

/-- The lexical default imports and exports of a module are exactly the items that the directives of
its grammar list, as imported from or exported as `default`, in groups with the word `lex`. -/
theorem lexical_defaults_iff {name : String} {source : Source} {fallback : Int64} {m : Module}
    (h : ofSource name source fallback = .ok m) :
    (∀ i : Import, i ∈ m.imports ∧ i.publicName = "default" ∧ i.lexical = true ↔
      ∃ line ∈ Kind.importing.linesIn (source.lines .grammar), ∃ form : ImportForm,
        HasLexemes .importing line form.lexemes ∧
        ∃ g, form.group? = some g ∧ g.lexical = true ∧
          ∃ item ∈ g.contents.items, item.name = "default" ∧
            i = ⟨form.directive.path, "default", item.knownAs, true⟩) ∧
    ∀ e : Export, e ∈ m.exports ∧ e.publicName = "default" ∧ e.lexical = true ↔
      ∃ line ∈ Kind.exporting.linesIn (source.lines .grammar), ∃ form : ExportForm,
        HasLexemes .exporting line form.lexemes ∧
        ∃ g, form.group? = some g ∧ g.lexical = true ∧
          ∃ item ∈ g.contents.items, item.knownAs = "default" ∧
            e = ⟨item.name, "default", true⟩ := by
  constructor
  · intro i
    rw [← and_assoc, mem_default_imports_iff h]
    constructor
    · rintro ⟨⟨line, hline, d, hread, b, hb, hname, rfl⟩, hlexical⟩
      obtain ⟨form, hform, rfl⟩ := readImport_eq_ok_iff.mp hread
      obtain ⟨g, hg, hglexical, item, hitem, rfl⟩ :=
        ImportForm.mem_bindings_iff.mp ⟨hb, hlexical⟩
      exact ⟨line, hline, form, hform, g, hg, hglexical, item, hitem, hname, rfl⟩
    · rintro ⟨line, hline, form, hform, g, hg, hglexical, item, hitem, hname, rfl⟩
      obtain ⟨hb, -⟩ := ImportForm.mem_bindings_iff.mpr ⟨g, hg, hglexical, item, hitem, rfl⟩
      exact ⟨⟨line, hline, _, readImport_eq_ok_iff.mpr ⟨form, hform, rfl⟩, _, hb, hname, rfl⟩, rfl⟩
  · intro e
    rw [← and_assoc, mem_default_exports_iff h]
    constructor
    · rintro ⟨⟨line, hline, d, hread, b, hb, hname, rfl⟩, hlexical⟩
      obtain ⟨form, hform, rfl⟩ := readExport_eq_ok_iff.mp hread
      obtain ⟨g, hg, hglexical, item, hitem, rfl⟩ :=
        ExportForm.mem_bindings_iff.mp ⟨hb, hlexical⟩
      exact ⟨line, hline, form, hform, g, hg, hglexical, item, hitem, hname, rfl⟩
    · rintro ⟨line, hline, form, hform, g, hg, hglexical, item, hitem, hname, rfl⟩
      obtain ⟨hb, -⟩ := ExportForm.mem_bindings_iff.mpr ⟨g, hg, hglexical, item, hitem, rfl⟩
      exact ⟨⟨line, hline, _, readExport_eq_ok_iff.mpr ⟨form, hform, rfl⟩, _, hb, hname, rfl⟩, rfl⟩

/-- A grammar with a default import beside a lexical group, and with a default export. -/
def ruleDefaults : Source where
  grammar := {
    rules := .ofList [("sum", [⟨"expr NUM", none, none⟩])]
    directives := ["%import expr, lex \x7b NUM \x7d from 'arith'", "%export default sum"] }

/-- The default of the other module is imported as a rule, whatever the group beside it is. -/
theorem ruleDefaults_not_lexical :
    ∃ m, ofSource "m" ruleDefaults 50 = .ok m ∧ ⟨"arith", "default", "expr", false⟩ ∈ m.imports ∧
      ∀ i ∈ m.imports, i.publicName = "default" → i.lexical = false := by
  have hline : HasLexemes .importing "%import expr, lex \x7b NUM \x7d from 'arith'"
      (ImportForm.both ⟨"expr", by decide, by decide, true⟩
        ⟨true, ⟨[⟨"NUM", none⟩], false, by simp⟩, false⟩ "arith").lexemes :=
    ⟨" expr, lex \x7b NUM \x7d from 'arith'".toList, by decide +kernel, by decide +kernel⟩
  have hsource : ofSource "m" ruleDefaults 50 = .ok {
      name := "m", grammar := { ruleDefaults.grammar with directives := [] }
      imports := [⟨"arith", "default", "expr", false⟩, ⟨"arith", "NUM", "NUM", true⟩]
      exports := [⟨"sum", "default", false⟩] } := by decide +kernel
  refine ⟨_, hsource, List.mem_cons_self, fun i hi hdefault => ?_⟩
  rw [← Bool.not_eq_true]
  intro hlexical
  obtain ⟨line, hmem, form, hform, g, hg, -, item, hitem, hname, -⟩ :=
    ((lexical_defaults_iff hsource).1 i).mp ⟨hi, hdefault, hlexical⟩
  -- there is one import, and the only item of its group is not the default
  have honly : Kind.importing.linesIn (ruleDefaults.lines .grammar) =
      ["%import expr, lex \x7b NUM \x7d from 'arith'"] := by decide +kernel
  rw [honly, List.mem_singleton] at hmem
  subst hmem
  obtain rfl := ImportForm.lexemes_injective (hform.unique hline)
  cases hg
  rw [List.mem_singleton.mp hitem] at hname
  exact absurd hname (by decide)

/-- A grammar that lists the name `default` in lexical groups. -/
def lexicalDefaults : Source where
  grammar := {
    rules := .ofList [("sum", [⟨"X", none, none⟩])]
    directives := ["%import lex \x7b default as T \x7d from 'lib'",
      "%export \x7b X as default \x7d lex"] }

/-- The module takes a token for the default of another one, and offers a token as its own. -/
theorem lexicalDefaults_lexical :
    ∃ m, ofSource "m" lexicalDefaults 50 = .ok m ∧
      (∃ i ∈ m.imports, i.publicName = "default" ∧ i.lexical = true) ∧
      ∃ e ∈ m.exports, e.publicName = "default" ∧ e.lexical = true := by
  have hsource : ofSource "m" lexicalDefaults 50 = .ok {
      name := "m", grammar := { lexicalDefaults.grammar with directives := [] }
      imports := [⟨"lib", "default", "T", true⟩]
      exports := [⟨"X", "default", true⟩] } := by decide +kernel
  exact ⟨_, hsource, ⟨_, List.mem_cons_self, rfl, rfl⟩, ⟨_, List.mem_cons_self, rfl, rfl⟩⟩

end Module

end ModularGrammar
