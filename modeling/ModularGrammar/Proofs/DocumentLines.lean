import ModularGrammar.Module.Extraction
import ModularGrammar.Proofs.Merging

/-!
# What the Lines of a Document Say

Every line of a grammar or lexicon either has one of the four keywords that speak about linking, and
then the document says what the line says, or it is kept as it stands.  If a line is refused, the
document says nothing, and the first line that is refused is told.

## Architecture

1. `Kind.linesIn`, `otherLines`: the lines of a document, told apart by their keywords
2. `Refused`, `Accepted`: whether a line can be used where it stands
3. `importsSaid`, `exportsSaid`, `precedenceSaid`: what the lines of a document say
4. `readStatement_reading`, `readStatements_reading`: one line, and by induction a document
5. `readStatements_eq_ok_iff`, `readStatements_eq_error_iff`: the two outcomes
-/

namespace ModularGrammar

/-! ## Lines and their keywords -/

namespace Directive

variable {line : String} {lines : List String} {kind : Kind}

theorem ofKeyword?_keyword (kind : Kind) : Kind.ofKeyword? kind.keyword = some kind := by
  cases kind <;> decide

/-- Different kinds have different keywords, so a line has at most one kind. -/
theorem keyword_injective : Function.Injective Kind.keyword := by
  intro a b h
  have ha := ofKeyword?_keyword a
  rw [h, ofKeyword?_keyword] at ha
  exact (Option.some.inj ha).symm

theorem kind_unique {kind' : Kind} (h : keyword? line = some kind.keyword)
    (h' : keyword? line = some kind'.keyword) : kind = kind' := by
  rw [h] at h'
  exact keyword_injective (Option.some.inj h')

/-- A word stands for the kind it is the keyword of. -/
theorem ofKeyword?_eq_some_iff {word : String} :
    Kind.ofKeyword? word = some kind ↔ word = kind.keyword := by
  constructor
  · intro h
    have hkeyword := List.find?_some h
    exact (beq_iff_eq.mp hkeyword).symm
  · rintro rfl
    exact ofKeyword?_keyword kind

/-- The kind of a line is the one that its keyword names, if it is asked for. -/
theorem kind?_eq_some_iff {interest : List Kind} : kind? interest line = some kind ↔
    keyword? line = some kind.keyword ∧ kind ∈ interest := by
  rw [kind?, Option.filter_eq_some_iff, Option.bind_eq_some_iff, List.contains_iff_mem]
  simp only [ofKeyword?_eq_some_iff, and_congr_left_iff]
  intro _
  constructor
  · rintro ⟨word, hword, rfl⟩
    exact hword
  · intro h
    exact ⟨_, h, rfl⟩

theorem kind?_all_eq_some_iff : kind? Kind.all line = some kind ↔
    keyword? line = some kind.keyword := by
  have hall : kind ∈ Kind.all := by cases kind <;> decide
  rw [kind?_eq_some_iff, and_iff_left hall]

theorem kind?_all_eq_none_iff : kind? Kind.all line = none ↔
    ∀ kind : Kind, keyword? line ≠ some kind.keyword := by
  rw [Option.eq_none_iff_forall_ne_some]
  exact forall_congr' fun kind => not_congr kind?_all_eq_some_iff

/-- The lines with the keyword of a kind, in order. -/
def Kind.linesIn (kind : Kind) (lines : List String) : List String :=
  lines.filter fun line => keyword? line = some kind.keyword

theorem linesIn_cons_of_eq (h : keyword? line = some kind.keyword) :
    kind.linesIn (line :: lines) = line :: kind.linesIn lines := by
  rw [Kind.linesIn, List.filter_cons_of_pos (by simpa using h)]
  rfl

theorem linesIn_cons_of_ne (h : keyword? line ≠ some kind.keyword) :
    kind.linesIn (line :: lines) = kind.linesIn lines := by
  rw [Kind.linesIn, List.filter_cons_of_neg (by simpa using h)]
  rfl

/-- The lines that have none of the keywords that speak about linking, in order. -/
def otherLines (lines : List String) : List String :=
  lines.filter fun line => ∀ kind ∈ Kind.all, keyword? line ≠ some kind.keyword

theorem recognized_sort_cons_of_eq (h : keyword? line = some kind.keyword) :
    (sort Kind.all (line :: lines)).recognized =
      (kind, line) :: (sort Kind.all lines).recognized := by
  rw [sort, List.filterMap_cons_some (by rw [kind?_all_eq_some_iff.mpr h]; rfl)]
  rfl

theorem recognized_sort_cons_of_ne (h : ∀ kind : Kind, keyword? line ≠ some kind.keyword) :
    (sort Kind.all (line :: lines)).recognized = (sort Kind.all lines).recognized := by
  rw [sort, List.filterMap_cons_none (by rw [kind?_all_eq_none_iff.mpr h]; rfl)]
  rfl

theorem group_sort : (sort Kind.all lines).group kind = kind.linesIn lines := by
  induction lines with
  | nil => rfl
  | cons line rest ih =>
    rw [Sorted.group] at ih ⊢
    -- a line is recognized by its keyword, of which there is one at most
    by_cases h : ∃ k : Kind, keyword? line = some k.keyword
    · obtain ⟨k, hk⟩ := h
      rw [recognized_sort_cons_of_eq hk, List.filterMap_cons, ih]
      by_cases hkind : k = kind
      · subst hkind
        simp [linesIn_cons_of_eq hk]
      · simp [hkind, linesIn_cons_of_ne fun h => hkind (kind_unique hk h)]
    · rw [not_exists] at h
      rw [recognized_sort_cons_of_ne h, ih, linesIn_cons_of_ne (h kind)]

theorem unknown_sort : (sort Kind.all lines).unknown = otherLines lines := by
  rw [sort, otherLines]
  apply List.filter_congr
  intro line _
  have hall : ∀ kind : Kind, kind ∈ Kind.all := by
    intro kind
    cases kind <;> decide
  rw [Bool.eq_iff_iff, Option.isNone_iff_eq_none, kind?_all_eq_none_iff]
  simp [hall]

end Directive

/-! ## What is wrong with a line -/

namespace Module

open Directive

/-- Why a line cannot be used in a document. -/
inductive Refused (side : Side) (line : String) : DirectiveError → Prop where
  /-- It cannot be read as its keyword asks for. -/
  | unreadable {kind : Kind} {e : DirectiveError} (hkind : keyword? line = some kind.keyword)
      (hother : kind ≠ .priority) (h : Directive.read kind line = .error e) : Refused side line e
  /-- It imports a default, which is a rule, into a lexicon. -/
  | defaultImport {d : ImportDirective} {b : Binding} (hside : side = .lexicon)
      (hkind : keyword? line = some Kind.importing.keyword) (h : readImport line = .ok d)
      (hb : b ∈ d.bindings) (hdefault : b.name = defaultName) :
      Refused side line .lexicalDefaultBinding
  /-- It exports a default, which is a rule, from a lexicon. -/
  | defaultExport {d : ExportDirective} {b : Binding} (hside : side = .lexicon)
      (hkind : keyword? line = some Kind.exporting.keyword) (h : readExport line = .ok d)
      (hb : b ∈ d.bindings) (hdefault : b.knownAs = defaultName) :
      Refused side line .lexicalDefaultBinding

/-- Nothing is wrong with a line. -/
def Accepted (side : Side) (line : String) : Prop := ∀ e, ¬ Refused side line e

/-- The first line of a document with which something is wrong. -/
def FirstRefused (side : Side) (lines : List String) (line : String) (e : DirectiveError) : Prop :=
  ∃ front back, lines = front ++ line :: back ∧ (∀ l ∈ front, Accepted side l) ∧
    Refused side line e

end Module

/-! ## What lines say -/

/-- The imports of a directive in a document.  One without bindings gives a single import, which
binds nothing. -/
def ImportDirective.imports (side : Side) (d : ImportDirective) : List Import :=
  match d.bindings with
  | [] => [⟨d.path, "", "", decide (side = .lexicon)⟩]
  | bindings => bindings.map fun b => ⟨d.path, b.name, b.knownAs, b.lexical || side = .lexicon⟩

/-- The exports of a directive in a document. -/
def ExportDirective.exports (side : Side) (d : ExportDirective) : List Export :=
  d.bindings.map fun b => ⟨b.name, b.knownAs, b.lexical || side = .lexicon⟩

namespace Module

open Directive

/-- The imports in a document, line by line. -/
def importsSaid (side : Side) (lines : List String) : List Import :=
  (Kind.importing.linesIn lines).flatMap fun line =>
    match readImport line with
    | .ok d => d.imports side
    | .error _ => []

/-- The exports in a document, line by line. -/
def exportsSaid (side : Side) (lines : List String) : List Export :=
  (Kind.exporting.linesIn lines).flatMap fun line =>
    match readExport line with
    | .ok d => d.exports side
    | .error _ => []

/-- The precedence declarations in a document. -/
def precedenceSaid (lines : List String) : List Precedence :=
  (Kind.precedence.linesIn lines).filterMap fun line => (readPrecedence line).toOption

/-- All that a document says apart from the priority. -/
def said (side : Side) (lines : List String) : Statements :=
  ⟨importsSaid side lines, exportsSaid side lines, precedenceSaid lines⟩

section Lines

variable {name line : String} {side : Side} {lines rest : List String}

/-- Bindings of a lexicon are lexical all of them, unless one of them is a default. -/
theorem mapM_bindingLexical {α : Type} (marker : Binding → String) (make : Binding → Bool → α)
    (bindings : List Binding) :
    (bindings.mapM fun b => do
      return make b (← bindingLexical name line side (marker b) b)) =
      if side = .lexicon ∧ ∃ b ∈ bindings, marker b = defaultName then
        .error (lineError name line .lexicalDefaultBinding)
      else .ok (bindings.map fun b => make b (b.lexical || side = .lexicon)) := by
  induction bindings with
  | nil => simp [pure, Except.pure]
  | cons b bindings ih =>
    rw [List.mapM_cons, ih]
    cases side with
    | grammar => simp [bindingLexical, bind, Except.bind, pure, Except.pure]
    | lexicon =>
      by_cases hb : marker b = defaultName
      · simp [bindingLexical, hb, bind, Except.bind]
      · by_cases hrest : ∃ b ∈ bindings, marker b = defaultName
        · simp [bindingLexical, hb, hrest, bind, Except.bind, pure, Except.pure]
        · simp [bindingLexical, hb, hrest, bind, Except.bind, pure, Except.pure]

theorem importsOf_eq (d : ImportDirective) : importsOf name line side d =
    if side = .lexicon ∧ ∃ b ∈ d.bindings, b.name = defaultName then
      .error (lineError name line .lexicalDefaultBinding)
    else .ok (d.imports side) := by
  rw [importsOf, ImportDirective.imports]
  cases hbindings : d.bindings with
  | nil => simp
  | cons b bindings =>
    simp only [List.isEmpty_cons, Bool.false_eq_true, if_false]
    exact mapM_bindingLexical Binding.name
      (fun b lexical => Import.mk d.path b.name b.knownAs lexical) (b :: bindings)

theorem exportsOf_eq (d : ExportDirective) : exportsOf name line side d =
    if side = .lexicon ∧ ∃ b ∈ d.bindings, b.knownAs = defaultName then
      .error (lineError name line .lexicalDefaultBinding)
    else .ok (d.exports side) :=
  mapM_bindingLexical Binding.knownAs (fun b lexical => Export.mk b.name b.knownAs lexical)
    d.bindings

/-- Lines without a keyword that speaks about linking are not refused. -/
theorem accepted_of_ne (h : ∀ kind : Kind, keyword? line ≠ some kind.keyword) :
    Accepted side line := by
  intro e hrefused
  cases hrefused with
  | unreadable hkind _ _ => exact h _ hkind
  | defaultImport _ hkind _ _ _ => exact h _ hkind
  | defaultExport _ hkind _ _ _ => exact h _ hkind

theorem said_append (lines rest : List String) :
    said side (lines ++ rest) = (said side lines).append (said side rest) := by
  simp [said, Statements.append, importsSaid, exportsSaid, precedenceSaid, Kind.linesIn]

theorem said_of_ne (h : ∀ kind : Kind, keyword? line ≠ some kind.keyword) :
    said side (line :: lines) = said side lines := by
  simp only [said, importsSaid, exportsSaid, precedenceSaid, linesIn_cons_of_ne (h _)]

section Kinds

variable {e : DirectiveError}

/-- Lines that declare a priority are never refused here. -/
theorem accepted_of_priority (hkind : keyword? line = some Kind.priority.keyword) :
    Accepted side line := by
  intro e hrefused
  cases hrefused with
  | unreadable hkind' hother _ => exact hother (kind_unique hkind' hkind)
  | defaultImport _ hkind' _ _ _ => cases kind_unique hkind' hkind
  | defaultExport _ hkind' _ _ _ => cases kind_unique hkind' hkind

theorem refused_iff_of_import (hkind : keyword? line = some Kind.importing.keyword) :
    Refused side line e ↔ readImport line = .error e ∨
      ∃ d, readImport line = .ok d ∧
        (side = .lexicon ∧ ∃ b ∈ d.bindings, b.name = defaultName) ∧
        e = .lexicalDefaultBinding := by
  constructor
  · intro hrefused
    cases hrefused with
    | unreadable hkind' _ h =>
      obtain rfl := kind_unique hkind' hkind
      exact Or.inl (except_map_eq_error.mp h)
    | defaultImport hside _ h hb hdefault => exact Or.inr ⟨_, h, ⟨hside, _, hb, hdefault⟩, rfl⟩
    | defaultExport _ hkind' _ _ _ => cases kind_unique hkind' hkind
  · rintro (h | ⟨d, h, ⟨hside, b, hb, hdefault⟩, rfl⟩)
    · exact .unreadable hkind (by decide) (except_map_eq_error.mpr h)
    · exact .defaultImport hside hkind h hb hdefault

theorem refused_iff_of_export (hkind : keyword? line = some Kind.exporting.keyword) :
    Refused side line e ↔ readExport line = .error e ∨
      ∃ d, readExport line = .ok d ∧
        (side = .lexicon ∧ ∃ b ∈ d.bindings, b.knownAs = defaultName) ∧
        e = .lexicalDefaultBinding := by
  constructor
  · intro hrefused
    cases hrefused with
    | unreadable hkind' _ h =>
      obtain rfl := kind_unique hkind' hkind
      exact Or.inl (except_map_eq_error.mp h)
    | defaultImport _ hkind' _ _ _ => cases kind_unique hkind' hkind
    | defaultExport hside _ h hb hdefault => exact Or.inr ⟨_, h, ⟨hside, _, hb, hdefault⟩, rfl⟩
  · rintro (h | ⟨d, h, ⟨hside, b, hb, hdefault⟩, rfl⟩)
    · exact .unreadable hkind (by decide) (except_map_eq_error.mpr h)
    · exact .defaultExport hside hkind h hb hdefault

theorem refused_iff_of_precedence (hkind : keyword? line = some Kind.precedence.keyword) :
    Refused side line e ↔ readPrecedence line = .error e := by
  constructor
  · intro hrefused
    cases hrefused with
    | unreadable hkind' _ h =>
      obtain rfl := kind_unique hkind' hkind
      exact except_map_eq_error.mp h
    | defaultImport _ hkind' _ _ _ => cases kind_unique hkind' hkind
    | defaultExport _ hkind' _ _ _ => cases kind_unique hkind' hkind
  · intro h
    exact .unreadable hkind (by decide) (except_map_eq_error.mpr h)

end Kinds

/-- What may come of a line: it is refused and the reason is told, or it says what it says as a
document of its own. -/
inductive LineReading (name : String) (side : Side) (line : String) :
    Except LinkError Statements → Prop where
  | refused {e : DirectiveError} (h : Refused side line e) :
      LineReading name side line (.error (lineError name line e))
  | accepted (h : Accepted side line) : LineReading name side line (.ok (said side [line]))

/-- A line that is refused if it cannot be read, or if what is read of it is wrong in some way. -/
theorem lineReading_of_refused_iff {δ : Type} {read : Except DirectiveError δ} {wrong : δ → Prop}
    {x : Except LinkError Statements}
    (hrefused : ∀ e, Refused side line e ↔ read = .error e ∨
      ∃ d, read = .ok d ∧ wrong d ∧ e = .lexicalDefaultBinding)
    (herror : ∀ e, read = .error e → x = .error (lineError name line e))
    (hwrong : ∀ d, read = .ok d → wrong d →
      x = .error (lineError name line .lexicalDefaultBinding))
    (hright : ∀ d, read = .ok d → ¬ wrong d → x = .ok (said side [line])) :
    LineReading name side line x := by
  cases read with
  | error e =>
    rw [herror e rfl]
    exact .refused ((hrefused e).mpr (Or.inl rfl))
  | ok d =>
    by_cases h : wrong d
    · rw [hwrong d rfl h]
      exact .refused ((hrefused _).mpr (Or.inr ⟨d, rfl, h, rfl⟩))
    · rw [hright d rfl h]
      -- neither way of being refused applies
      refine .accepted fun e he => ?_
      rcases (hrefused e).mp he with hnone | ⟨d', hread, hwrong', -⟩
      · cases hnone
      · cases hread
        exact h hwrong'

/-- Every line with a keyword that speaks about linking is used or refused. -/
theorem readStatement_reading {kind : Kind} (hkind : keyword? line = some kind.keyword) :
    LineReading name side line (readStatement name side kind line) := by
  have hother : ∀ {k : Kind}, k ≠ kind → k.linesIn [line] = [] := by
    intro k hk
    exact linesIn_cons_of_ne fun h => hk (kind_unique h hkind)
  have hown : kind.linesIn [line] = [line] := linesIn_cons_of_eq hkind
  cases kind with
  | priority =>
    have hsaid : said side [line] = {} := by
      simp [said, importsSaid, exportsSaid, precedenceSaid, hother]
    rw [readStatement, if_pos rfl, ← hsaid]
    exact .accepted (accepted_of_priority hkind)
  | importing =>
    rw [readStatement, if_neg (by decide), Directive.read]
    refine lineReading_of_refused_iff (fun e => refused_iff_of_import hkind) ?_ ?_ ?_
    · intro e hread
      simp [hread, Except.map]
    · intro d hread hdefault
      simp [hread, Except.map, importsOf_eq, if_pos hdefault]
    · intro d hread hnone
      simp [hread, Except.map, importsOf_eq, if_neg hnone, said, importsSaid, exportsSaid,
        precedenceSaid, hother, hown]
  | exporting =>
    rw [readStatement, if_neg (by decide), Directive.read]
    refine lineReading_of_refused_iff (fun e => refused_iff_of_export hkind) ?_ ?_ ?_
    · intro e hread
      simp [hread, Except.map]
    · intro d hread hdefault
      simp [hread, Except.map, exportsOf_eq, if_pos hdefault]
    · intro d hread hnone
      simp [hread, Except.map, exportsOf_eq, if_neg hnone, said, importsSaid, exportsSaid,
        precedenceSaid, hother, hown]
  | precedence =>
    rw [readStatement, if_neg (by decide), Directive.read]
    -- what can be read is always right
    have hrefused : ∀ e, Refused side line e ↔ readPrecedence line = .error e ∨
        ∃ d, readPrecedence line = .ok d ∧ False ∧ e = .lexicalDefaultBinding := by
      intro e
      simpa using refused_iff_of_precedence hkind
    refine lineReading_of_refused_iff hrefused ?_ ?_ ?_
    · intro e hread
      simp [hread, Except.map]
    · intro d _ h
      exact h.elim
    · intro d hread _
      simp [hread, Except.map, said, importsSaid, exportsSaid, precedenceSaid, hother, hown,
        Except.toOption]

/-- What may come of a document: the first line that is refused is told, or the document says what
all its lines say. -/
inductive DocumentReading (name : String) (side : Side) (lines : List String) :
    Except LinkError Statements → Prop where
  | refused {line : String} {e : DirectiveError} (h : FirstRefused side lines line e) :
      DocumentReading name side lines (.error (lineError name line e))
  | accepted (h : ∀ line ∈ lines, Accepted side line) :
      DocumentReading name side lines (.ok (said side lines))

/-- One line more at the beginning of a document. -/
theorem DocumentReading.cons {x : Except LinkError Statements} (hline : Accepted side line)
    (h : DocumentReading name side lines x) :
    DocumentReading name side (line :: lines)
      (x >>= fun more => pure ((said side [line]).append more)) := by
  cases h with
  | refused h =>
    obtain ⟨front, back, rfl, hfront, hrefused⟩ := h
    exact .refused ⟨line :: front, back, rfl, List.forall_mem_cons.mpr ⟨hline, hfront⟩, hrefused⟩
  | accepted h =>
    have haccepted : DocumentReading name side (line :: lines) _ :=
      .accepted (List.forall_mem_cons.mpr ⟨hline, h⟩)
    rw [← List.singleton_append, said_append] at haccepted
    exact haccepted

/-- A document is read line by line. -/
theorem readStatements_reading (lines : List String) : DocumentReading name side lines
    (readStatements name side (sort Kind.all lines).recognized) := by
  induction lines with
  | nil => exact .accepted (by simp)
  | cons line rest ih =>
    by_cases h : ∃ kind : Kind, keyword? line = some kind.keyword
    · obtain ⟨kind, hkind⟩ := h
      rw [recognized_sort_cons_of_eq hkind, readStatements]
      have hline : LineReading name side line _ := readStatement_reading hkind
      generalize readStatement name side kind line = first at hline ⊢
      cases hline with
      | refused hrefused => exact .refused ⟨[], rest, rfl, by simp, hrefused⟩
      | accepted haccepted => exact ih.cons haccepted
    · -- the line says nothing
      rw [not_exists] at h
      have hcons := ih.cons (accepted_of_ne h)
      have hsaid : said side [line] = {} := said_of_ne h
      rw [recognized_sort_cons_of_ne h]
      rw [hsaid] at hcons
      simpa [Statements.append] using hcons

/-- Of one line there is one thing to tell. -/
theorem Refused.unique {e e' : DirectiveError} (h : Refused side line e)
    (h' : Refused side line e') : e = e' := by
  -- a line has one keyword, and is read in one way
  cases h with
  | unreadable hkind _ hread =>
    cases h' with
    | unreadable hkind' _ hread' =>
      obtain rfl := kind_unique hkind hkind'
      rw [hread] at hread'
      cases hread'
      rfl
    | defaultImport _ hkind' hread' _ _ | defaultExport _ hkind' hread' _ _ =>
      obtain rfl := kind_unique hkind hkind'
      rw [Directive.read, hread'] at hread
      cases hread
  | defaultImport _ hkind hread _ _ | defaultExport _ hkind hread _ _ =>
    cases h' with
    | unreadable hkind' _ hread' =>
      obtain rfl := kind_unique hkind hkind'
      rw [Directive.read, hread] at hread'
      cases hread'
    | defaultImport _ _ _ _ _ | defaultExport _ _ _ _ _ => rfl

/-- The first line that is refused is no later than any other that is. -/
private theorem FirstRefused.part_eq_nil {other : String} {e : DirectiveError}
    {front part back back' : List String} (hrefused : Refused side line e)
    (hother : ∀ l ∈ front ++ part, Accepted side l)
    (h : line :: back = part ++ other :: back') : part = [] := by
  cases part with
  | nil => rfl
  | cons l part =>
    cases h
    exact absurd hrefused (hother line (by simp) e)

theorem FirstRefused.unique {line' : String} {e e' : DirectiveError}
    (h : FirstRefused side lines line e) (h' : FirstRefused side lines line' e') :
    line = line' ∧ e = e' := by
  obtain ⟨front, back, rfl, hfront, hrefused⟩ := h
  obtain ⟨front', back', hsplit, hfront', hrefused'⟩ := h'
  have hline : line = line' := by
    rcases List.append_eq_append_iff.mp hsplit with ⟨part, rfl, h⟩ | ⟨part, rfl, h⟩
    · obtain rfl := FirstRefused.part_eq_nil hrefused hfront' h
      exact (List.cons.inj h).1
    · obtain rfl := FirstRefused.part_eq_nil hrefused' hfront h
      exact (List.cons.inj h).1.symm
  subst hline
  exact ⟨rfl, hrefused.unique hrefused'⟩

section Outcomes

variable {e : LinkError} {s : Statements}

theorem FirstRefused.not_accepted {e : DirectiveError} (h : FirstRefused side lines line e) :
    ¬ ∀ l ∈ lines, Accepted side l := by
  obtain ⟨front, back, rfl, -, hrefused⟩ := h
  intro haccepted
  exact haccepted line (by simp) e hrefused

theorem readStatements_eq_ok_iff :
    readStatements name side (sort Kind.all lines).recognized = .ok s ↔
      (∀ line ∈ lines, Accepted side line) ∧ s = said side lines := by
  have hreading : DocumentReading name side lines _ := readStatements_reading lines
  generalize readStatements name side (sort Kind.all lines).recognized = x at hreading ⊢
  cases hreading with
  | refused h => simp [h.not_accepted]
  | accepted h => simp only [Except.ok.injEq, eq_comm, and_iff_right h]

theorem readStatements_eq_error_iff :
    readStatements name side (sort Kind.all lines).recognized = .error e ↔
      ∃ line reason, FirstRefused side lines line reason ∧ e = lineError name line reason := by
  have hreading : DocumentReading name side lines _ := readStatements_reading lines
  -- whatever comes of the document is one of the two outcomes
  generalize readStatements name side (sort Kind.all lines).recognized = x at hreading ⊢
  cases hreading with
  | @refused line reason h =>
    constructor
    · intro heq
      exact ⟨line, reason, h, (Except.error.inj heq).symm⟩
    · rintro ⟨line', reason', h', rfl⟩
      obtain ⟨rfl, rfl⟩ := h.unique h'
      rfl
  | accepted haccepted =>
    constructor
    · intro heq
      cases heq
    · rintro ⟨line, reason, h, -⟩
      exact absurd haccepted h.not_accepted

end Outcomes

end Lines

end Module

end ModularGrammar
