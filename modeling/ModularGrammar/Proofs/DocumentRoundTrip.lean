import ModularGrammar.Composite.Document
import ModularGrammar.Library
import ModularGrammar.Link.Report
import ModularGrammar.Proofs.JsonRoundTrip
import ModularGrammar.Proofs.Table

/-!
# Documents Survive Being Written

Grammars, lexicons, composite grammars and link reports are read back from what is written of them,
whatever stands in them and whichever parts they lack.

## Architecture

1. Lists and tables: read back if their items are, tables with their order
2. `Field`: records with parts that may be left out
3. The documents: the fields of each, that they are plain values, and that they are read back
4. `documents_survive`: from values to texts and files
5. `Library.fetch_ofTexts_written`: libraries of written documents
-/

namespace ModularGrammar

open Json

namespace Json

/-! ## Lists and tables -/

section Values

variable {α : Type} {read : Json → Option α} {write : α → Json}

theorem list?_ofList (h : ∀ a, read (write a) = some a) (l : List α) :
    list? read (ofList write l) = some l :=
  mapM_map_eq_some fun a _ => h a

theorem list?_texts (l : List String) : list? text? (texts l) = some l :=
  mapM_map_eq_some fun _ _ => rfl

theorem table?_ofTable (h : ∀ a, read (write a) = some a) (t : Table α) :
    table? read (ofTable write t) = some t := by
  have hentries : (t.entries.map fun e => (e.1, write e.2)).mapM
      (fun member => (read member.2).map (member.1, ·)) = some t.entries := by
    refine mapM_map_eq_some fun e _ => ?_
    rw [h, Option.map_some]
  rw [ofTable, table?, hentries, Option.map_some, Table.ofList_entries]

theorem table?_ofTable_string (t : Table String) :
    table? text? (ofTable .string t) = some t := by
  have h : ∀ s, text? (.string s) = some s := fun _ => rfl
  exact table?_ofTable h t

theorem optional_map (h : ∀ a, read (write a) = some a) (hnull : ∀ a, write a ≠ .null)
    (o : Option α) : optional read (o.map write) = some o := by
  cases o with
  | none => rfl
  | some a => simp [optional, hnull, h]

theorem optional_map_string (o : Option String) : optional text? (o.map .string) = some o := by
  have h : ∀ s, text? (.string s) = some s := fun _ => rfl
  exact optional_map h nofun o

theorem withDefault_some (default : α) (v : Json) :
    withDefault default read (some v) = read v := rfl

/-- A part that is left out if it is empty. -/
def unlessEmpty (empty : Bool) (v : Json) : Option Json := if empty then none else some v

theorem withDefault_unlessEmpty {default a : α} {empty : Bool} {v : Json}
    (hempty : empty = true → default = a) (h : read v = some a) :
    withDefault default read (unlessEmpty empty v) = some a := by
  cases empty with
  | true => simp [unlessEmpty, withDefault, hempty]
  | false => exact h

theorem plain_ofList (h : ∀ a, Plain (write a)) (l : List α) : Plain (ofList write l) := by
  refine .array fun item hitem => ?_
  obtain ⟨a, -, rfl⟩ := List.mem_map.mp hitem
  exact h a

theorem plain_texts (l : List String) : Plain (texts l) := plain_ofList Plain.string l

theorem plain_ofTable (h : ∀ a, Plain (write a)) (t : Table α) : Plain (ofTable write t) := by
  refine .object fun member hmember => ?_
  obtain ⟨e, -, rfl⟩ := List.mem_map.mp hmember
  exact h e.2

end Values

/-! ## Records -/

/-- A field of a record, with its value if it is written. -/
abbrev Field := String × Option Json

/-- The members that are written for some fields. -/
def writtenFields (fields : List Field) : List (String × Json) :=
  fields.flatMap fun field => optionalMember field.1 id field.2

theorem mem_writtenFields {fields : List Field} {member : String × Json} :
    member ∈ writtenFields fields ↔ (member.1, some member.2) ∈ fields := by
  simp only [writtenFields, optionalMember, id, List.mem_flatMap, List.mem_map, Option.mem_toList]
  constructor
  · rintro ⟨⟨name, value⟩, hmem, v, hv, rfl⟩
    rwa [← Option.mem_def.mp hv]
  · intro hmem
    exact ⟨_, hmem, member.2, rfl, rfl⟩

/-- Under the name of a field nothing but its value is written. -/
theorem filter_writtenFields {fields : List Field} {field : Field}
    (hnames : (fields.map Prod.fst).Nodup) (h : field ∈ fields) :
    (writtenFields fields).filter (fun member => member.1 = field.1) =
      optionalMember field.1 id field.2 := by
  induction fields with
  | nil => cases h
  | cons first rest ih =>
    have hcons : writtenFields (first :: rest) =
        optionalMember first.1 id first.2 ++ writtenFields rest := rfl
    rw [List.map_cons, List.nodup_cons] at hnames
    rw [hcons, List.filter_append]
    rcases List.mem_cons.mp h with rfl | hrest
    · have hown : (optionalMember field.1 id field.2).filter (fun member => member.1 = field.1) =
          optionalMember field.1 id field.2 := by
        cases hvalue : field.2 <;> simp [optionalMember]
      -- the other fields have other names
      have hother : (writtenFields rest).filter (fun member => member.1 = field.1) = [] := by
        rw [List.filter_eq_nil_iff]
        intro member hmember hname
        have hmem := mem_writtenFields.mp hmember
        rw [of_decide_eq_true hname] at hmem
        exact hnames.1 (List.mem_map.mpr ⟨_, hmem, rfl⟩)
      rw [hown, hother, List.append_nil]
    · -- the first field has another name
      have hne : first.1 ≠ field.1 := by
        intro heq
        exact hnames.1 (heq ▸ List.mem_map_of_mem hrest)
      have hnone : (optionalMember first.1 id first.2).filter
          (fun member => member.1 = field.1) = [] := by
        cases hvalue : first.2 <;> simp [optionalMember, hne]
      rw [hnone, List.nil_append, ih hnames.2 hrest]

theorem fields?_writtenFields {fields : List Field} (h : (fields.map Prod.fst).Nodup) :
    fields? (fields.map Prod.fst) (.object (writtenFields fields)) =
      some (fields.map Prod.snd) := by
  refine mapM_map_eq_some_map fun field hfield => ?_
  rw [member?, filter_writtenFields h hfield]
  cases hvalue : field.2 <;> rfl

theorem optionalMember_map {α : Type} (name : String) (write : α → Json) (o : Option α) :
    optionalMember name id (o.map write) = optionalMember name write o := by
  cases o <;> rfl

theorem optionalMember_some (name : String) (v : Json) :
    optionalMember name id (some v) = [(name, v)] := rfl

theorem optionalMember_unlessEmpty (name : String) (empty : Bool) (v : Json) :
    optionalMember name id (unlessEmpty empty v) = if empty then [] else [(name, v)] := by
  cases empty <;> rfl

/-- A part that is plain if it is written. -/
def PlainPart (part : Option Json) : Prop := ∀ v ∈ part, Plain v

theorem PlainPart.some {v : Json} (h : Plain v) : PlainPart (some v) := by
  rintro _ ⟨⟩
  exact h

theorem PlainPart.map {α : Type} {write : α → Json} (h : ∀ a, Plain (write a)) (o : Option α) :
    PlainPart (o.map write) := by
  intro v hv
  obtain ⟨a, -, rfl⟩ := Option.map_eq_some_iff.mp hv
  exact h a

theorem PlainPart.unlessEmpty {v : Json} (empty : Bool) (h : Plain v) :
    PlainPart (unlessEmpty empty v) := by
  cases empty with
  | true => rintro _ ⟨⟩
  | false => exact .some h

theorem plain_writtenFields {fields : List Field} (h : ∀ field ∈ fields, PlainPart field.2) :
    Plain (.object (writtenFields fields)) :=
  .object fun _ hmember => h _ (mem_writtenFields.mp hmember) _ rfl

end Json

/-! ## Alternatives and lexer rules -/

namespace Alternative

theorem fits_toJson (a : Alternative) (levels : Nat) : (toJson a).fits (levels + 2) = true := by
  rw [toJson]
  cases a.action <;> cases a.precedence <;> simp [fits, override]

/-- The four shapes are told apart. -/
theorem ofShape?_toJson (a : Alternative) : ofShape? a.toJson = some a := by
  cases a with
  | mk symbols action precedence => cases action <;> cases precedence <;> rfl

theorem ofJson?_toJson {levels : Nat} (h : 2 ≤ levels) (a : Alternative) :
    ofJson? levels a.toJson = some a := by
  obtain ⟨levels, rfl⟩ := Nat.exists_eq_add_of_le' h
  rw [ofJson?, if_pos (fits_toJson a levels), ofShape?_toJson]

theorem plain_override (token : String) : Plain (override token) :=
  .object (List.forall_mem_singleton.mpr (.string token))

theorem plain_toJson (a : Alternative) : Plain a.toJson := by
  rw [toJson]
  split
  · exact .string _
  · exact plain_texts [_, _]
  · refine .array ?_
    simp [Plain.string, plain_override]
  · refine .array ?_
    simp [Plain.string, plain_override]

end Alternative

theorem RuleTable.ofJson?_toJson {levels : Nat} (h : 4 ≤ levels) (rules : RuleTable) :
    RuleTable.ofJson? levels rules.toJson = some rules :=
  table?_ofTable (list?_ofList (Alternative.ofJson?_toJson (by omega))) rules

theorem RuleTable.plain_toJson (rules : RuleTable) : Plain rules.toJson :=
  plain_ofTable (plain_ofList Alternative.plain_toJson) rules

namespace LexicalRule

theorem fits_toJson (rule : LexicalRule) (levels : Nat) :
    (toJson rule).fits (levels + 2) = true := by
  rw [toJson]
  cases rule.conditions <;> simp [fits, texts]

/-- A rule without conditions is told apart from one whose list of conditions is empty. -/
theorem ofShape?_toJson (rule : LexicalRule) : ofShape? rule.toJson = some rule := by
  cases rule with
  | mk conditions pattern action =>
    cases conditions with
    | none => rfl
    | some conditions => simp [toJson, ofShape?, list?_texts]

theorem ofJson?_toJson {levels : Nat} (h : 2 ≤ levels) (rule : LexicalRule) :
    ofJson? levels rule.toJson = some rule := by
  obtain ⟨levels, rfl⟩ := Nat.exists_eq_add_of_le' h
  rw [ofJson?, if_pos (fits_toJson rule levels), ofShape?_toJson]

theorem plain_toJson (rule : LexicalRule) : Plain rule.toJson := by
  rw [toJson]
  split
  · exact plain_texts [_, _]
  · refine .array ?_
    simp [plain_texts, Plain.string]

end LexicalRule

/-! ## Lexicons -/

namespace Lexicon

theorem byte?_flagJson (flag : UInt8) : byte? (flagJson flag) = some flag := by
  have hlt : flag.toNat < 256 := flag.toNat_lt
  simp [byte?, flagJson, natural, Numeral.natural?_ofNat, hlt]

theorem plain_flagJson (flag : UInt8) : Plain (flagJson flag) :=
  .natural (Nat.lt_trans flag.toNat_lt (by decide))

def fields (l : Lexicon) : List Field := [
  ("rules", some (ofList LexicalRule.toJson l.rules)),
  ("macros", unlessEmpty l.macros.isEmpty (ofTable .string l.macros)),
  ("startConditions", unlessEmpty l.startConditions.isEmpty (ofTable flagJson l.startConditions)),
  ("actionInclude", l.actionCode.map .string),
  ("unknownDecls", unlessEmpty l.directives.isEmpty (texts l.directives))]

theorem toJson_eq (l : Lexicon) : l.toJson = .object (writtenFields l.fields) := by
  simp [toJson, fields, writtenFields, optionalMember_some, optionalMember_map,
    optionalMember_unlessEmpty]

theorem fields?_toJson (l : Lexicon) :
    fields? fieldNames l.toJson = some (l.fields.map Prod.snd) := by
  have hnames : (l.fields.map Prod.fst).Nodup := show fieldNames.Nodup by decide
  rw [toJson_eq]
  exact fields?_writtenFields hnames

theorem ofJson?_toJson {levels : Nat} (h : 4 ≤ levels) (l : Lexicon) :
    ofJson? levels l.toJson = some l := by
  have hrules := list?_ofList (LexicalRule.ofJson?_toJson (show 2 ≤ levels - 2 by omega)) l.rules
  have hmacros := withDefault_unlessEmpty Table.eq_empty_of_isEmpty (table?_ofTable_string l.macros)
  have hconditions := withDefault_unlessEmpty Table.eq_empty_of_isEmpty
    (table?_ofTable byte?_flagJson l.startConditions)
  have hcode := optional_map_string l.actionCode
  have hdirectives := withDefault_unlessEmpty (fun h => (List.isEmpty_iff.mp h).symm)
    (list?_texts l.directives)
  simp only [ofJson?, fields?_toJson, fields, List.map_cons, List.map_nil, bind, Option.bind_some,
    withDefault_some, hrules, hmacros, hconditions, hcode, hdirectives, pure]

theorem plain_toJson (l : Lexicon) : Plain l.toJson := by
  rw [toJson_eq]
  refine plain_writtenFields ?_
  simp only [fields, List.forall_mem_cons, List.not_mem_nil, false_implies, implies_true, and_true]
  exact ⟨.some (plain_ofList LexicalRule.plain_toJson l.rules),
    .unlessEmpty _ (plain_ofTable Plain.string l.macros),
    .unlessEmpty _ (plain_ofTable plain_flagJson l.startConditions),
    .map Plain.string l.actionCode,
    .unlessEmpty _ (plain_texts l.directives)⟩

end Lexicon

/-! ## Grammars -/

namespace Grammar

def fields (g : Grammar) : List Field := [
  ("bnf", some g.rules.toJson),
  ("start", g.start.map .string),
  ("moduleInclude", g.code.map .string),
  ("unknownDecls", unlessEmpty g.directives.isEmpty (texts g.directives)),
  ("operators", g.operators.map (ofList texts)),
  ("lex", g.lexicon.map Lexicon.toJson)]

theorem toJson_eq (g : Grammar) : g.toJson = .object (writtenFields g.fields) := by
  simp [toJson, fields, writtenFields, optionalMember_some, optionalMember_map,
    optionalMember_unlessEmpty]

theorem fields?_toJson (g : Grammar) :
    fields? fieldNames g.toJson = some (g.fields.map Prod.snd) := by
  have hnames : (g.fields.map Prod.fst).Nodup := show fieldNames.Nodup by decide
  rw [toJson_eq]
  exact fields?_writtenFields hnames

theorem ofJson?_toJson {levels : Nat} (h : 5 ≤ levels) (g : Grammar) :
    ofJson? levels g.toJson = some g := by
  have hrules := RuleTable.ofJson?_toJson (show 4 ≤ levels - 1 by omega) g.rules
  have hstart := optional_map_string g.start
  have hcode := optional_map_string g.code
  have hdirectives := withDefault_unlessEmpty (fun h => (List.isEmpty_iff.mp h).symm)
    (list?_texts g.directives)
  have hoperators := optional_map (list?_ofList list?_texts) nofun g.operators
  have hlexicon := optional_map (Lexicon.ofJson?_toJson (show 4 ≤ levels - 1 by omega)) nofun
    g.lexicon
  simp only [ofJson?, fields?_toJson, fields, List.map_cons, List.map_nil, bind, Option.bind_some,
    withDefault_some, hrules, hstart, hcode, hdirectives, hoperators, hlexicon, pure]

theorem plain_toJson (g : Grammar) : Plain g.toJson := by
  rw [toJson_eq]
  refine plain_writtenFields ?_
  simp only [fields, List.forall_mem_cons, List.not_mem_nil, false_implies, implies_true, and_true]
  exact ⟨.some (RuleTable.plain_toJson g.rules), .map Plain.string g.start,
    .map Plain.string g.code, .unlessEmpty _ (plain_texts g.directives),
    .map (plain_ofList plain_texts) g.operators, .map Lexicon.plain_toJson g.lexicon⟩

end Grammar

/-! ## Composite grammars -/

theorem PrecedenceRow.ofJson?_toJson (row : PrecedenceRow) :
    PrecedenceRow.ofJson? row.toJson = some row := by
  rw [ofJson?, toJson, list?_texts, Option.bind_some, ofWords?_words]

theorem PrecedenceRow.plain_toJson (row : PrecedenceRow) : Plain row.toJson :=
  plain_texts row.words

namespace CompositeLexicon

theorem ofJson?_toJson {levels : Nat} (h : 4 ≤ levels) (l : CompositeLexicon) :
    ofJson? levels l.toJson = some l := by
  have hrules := list?_ofList (LexicalRule.ofJson?_toJson (show 2 ≤ levels - 2 by omega)) l.rules
  have hmacros := table?_ofTable_string l.macros
  have hconditions := table?_ofTable Lexicon.byte?_flagJson l.startConditions
  simp [ofJson?, toJson, fieldNames, fields?, member?, required, text?, hrules, hmacros,
    hconditions]

theorem plain_toJson (l : CompositeLexicon) : Plain l.toJson := by
  refine .object ?_
  simp only [List.forall_mem_cons, List.not_mem_nil, false_implies, implies_true, and_true]
  exact ⟨plain_ofList LexicalRule.plain_toJson l.rules, plain_ofTable Plain.string l.macros,
    plain_ofTable Lexicon.plain_flagJson l.startConditions, .string l.actionCode⟩

end CompositeLexicon

namespace CompositeGrammar

theorem ofJson?_toJson {levels : Nat} (h : 5 ≤ levels) (g : CompositeGrammar) :
    ofJson? levels g.toJson = some g := by
  have hrules := RuleTable.ofJson?_toJson (show 4 ≤ levels - 1 by omega) g.rules
  have hprecedence := list?_ofList PrecedenceRow.ofJson?_toJson g.precedence
  have hlexicon := CompositeLexicon.ofJson?_toJson (show 4 ≤ levels - 1 by omega) g.lexicon
  simp [ofJson?, toJson, fieldNames, fields?, member?, required, text?, hrules, hprecedence,
    hlexicon]

theorem plain_toJson (g : CompositeGrammar) : Plain g.toJson := by
  refine .object ?_
  simp only [List.forall_mem_cons, List.not_mem_nil, false_implies, implies_true, and_true]
  exact ⟨RuleTable.plain_toJson g.rules, .string g.start,
    plain_ofList PrecedenceRow.plain_toJson g.precedence, .string g.code,
    CompositeLexicon.plain_toJson g.lexicon⟩

end CompositeGrammar

/-! ## Link reports -/

namespace Export

theorem ofJson?_toJson (e : Export) : ofJson? e.toJson = some e := by
  simp [ofJson?, toJson, fieldNames, fields?, member?, required, text?, bool?]

theorem plain_toJson (e : Export) : Plain e.toJson := by
  refine .object ?_
  simp only [List.forall_mem_cons, List.not_mem_nil, false_implies, implies_true, and_true]
  exact ⟨.string e.localName, .string e.publicName, .bool e.lexical⟩

end Export

namespace ModuleReport

theorem ofJson?_toJson (m : ModuleReport) : ofJson? m.toJson = some m := by
  have hexports := list?_ofList Export.ofJson?_toJson m.exports
  simp [ofJson?, toJson, fieldNames, fields?, member?, required, text?, hexports, list?_texts]

theorem plain_toJson (m : ModuleReport) : Plain m.toJson := by
  refine .object ?_
  simp only [List.forall_mem_cons, List.not_mem_nil, false_implies, implies_true, and_true]
  exact ⟨.string m.qualifier, plain_ofList Export.plain_toJson m.exports,
    plain_texts m.grammarLines, plain_texts m.lexiconLines⟩

end ModuleReport

namespace LinkReport

theorem ofJson?_toJson (report : LinkReport) : ofJson? report.toJson = some report := by
  have hmodules := table?_ofTable ModuleReport.ofJson?_toJson report.modules
  simp [ofJson?, toJson, fields?, member?, required, hmodules]

theorem plain_toJson (report : LinkReport) : Plain report.toJson :=
  .object (List.forall_mem_singleton.mpr (plain_ofTable ModuleReport.plain_toJson report.modules))

end LinkReport

/-! ## Texts and files -/

/-- If a document can be taken out of a plain value, it can be taken out of the texts that are
written of that value. -/
theorem read_written {α : Type} {ofJson? : Json → Option α} {v : Json} {a : α} (hplain : Plain v)
    (hvalue : ofJson? v = some a) :
    (Json.read? v.compact).bind ofJson? = some a ∧
    (Json.read? (v.pretty ++ "\n")).bind ofJson? = some a ∧
    (Json.readBytes? (v.pretty ++ "\n").toUTF8).bind ofJson? = some a := by
  rw [readBytes?_toUTF8, read?_compact hplain, read?_pretty hplain, Option.bind_some]
  exact ⟨hvalue, hvalue, hvalue⟩

theorem Grammar.read?_compact (g : Grammar) : Grammar.read? g.toJson.compact = some g :=
  (read_written g.plain_toJson (Grammar.ofJson?_toJson (by decide) g)).1

theorem Lexicon.read?_compact (l : Lexicon) : Lexicon.read? l.toJson.compact = some l :=
  (read_written l.plain_toJson (Lexicon.ofJson?_toJson (by decide) l)).1

/-- Every document is read back from the text that is written of it, with all its tables in their
order: grammars and lexicons, composite grammars and link reports; the latter two also from the
files they are written to. -/
theorem documents_survive :
    (∀ g : Grammar, Grammar.read? g.toJson.compact = some g) ∧
    (∀ l : Lexicon, Lexicon.read? l.toJson.compact = some l) ∧
    (∀ g : CompositeGrammar, CompositeGrammar.read? g.toJson.compact = some g ∧
      CompositeGrammar.read? g.fileText = some g ∧
      CompositeGrammar.readBytes? g.fileText.toUTF8 = some g) ∧
    ∀ report : LinkReport, LinkReport.read? report.toJson.compact = some report ∧
      LinkReport.read? report.fileText = some report ∧
      LinkReport.readBytes? report.fileText.toUTF8 = some report := by
  refine ⟨?grammar, ?lexicon, ?composite, ?report⟩
  case grammar => exact Grammar.read?_compact
  case lexicon => exact Lexicon.read?_compact
  case composite =>
    intro g
    exact read_written g.plain_toJson (CompositeGrammar.ofJson?_toJson (by decide) g)
  case report =>
    intro report
    exact read_written report.plain_toJson report.ofJson?_toJson

/-! ## Libraries of written documents -/

/-- The texts of a module's documents. -/
def Source.written (s : Source) : String × Option String :=
  (s.grammar.toJson.compact, s.lexicon.map fun l => l.toJson.compact)

theorem Source.read_of_written (s : Source) : Source.read s.written.1 s.written.2 = .ok s := by
  obtain ⟨grammar, lexicon⟩ := s
  rw [Source.read, Source.written, Grammar.read?_compact]
  cases lexicon with
  | none => rfl
  | some l => simp only [Option.map_some, Lexicon.read?_compact]

/-- In a library of written documents stand the documents that were written. -/
theorem Library.fetch_ofTexts_written (pathRule : PathRule) (sources : Table Source)
    (path : String) :
    (Library.ofTexts pathRule (sources.entries.map fun e => (e.1, e.2.written))).fetch path =
      .ok (sources.get? path) := by
  have hsources : (Library.ofTexts pathRule
      (sources.entries.map fun e => (e.1, e.2.written))).sources = sources.mapValues .ok := by
    rw [← Table.ofList_entries (sources.mapValues Except.ok), Library.ofTexts, List.map_map]
    apply congrArg Table.ofList
    apply List.map_congr_left
    intro e _
    simp [Source.read_of_written, Except.mapError]
  rw [Library.fetch, hsources, Table.get?_mapValues]
  cases sources.get? path with
  | none => rfl
  | some s => rfl

end ModularGrammar
