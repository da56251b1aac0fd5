import ModularGrammar.Proofs.DocumentLines
import ModularGrammar.Proofs.Merging

/-!
# Modules Account for All Lines of Their Documents

A module is built from a grammar and a lexicon.  It says what the lines of both say and keeps all
other lines; or else it is not built, and the first reason is told.

## Architecture

1. `Constructible`, `Accounts`, `SourceFailure`: sources, modules built from them, and failures
2. The stages of building a module: the lexicon, the priority, the lines of both documents
3. `ofSource_eq_ok_iff`, `ofSource_eq_error_iff`: the stages one after the other
4. `ofSource_outcome`: exactly what building a module comes to
-/

namespace ModularGrammar

/-! ## Sources -/

/-- The lexicon of a source, in its grammar or beside it. -/
def Source.eitherLexicon (source : Source) : Option Lexicon :=
  source.grammar.lexicon.or source.lexicon

def Source.lines (source : Source) : Side → List String
  | .grammar => source.grammar.directives
  | .lexicon => source.eitherLexicon.elim [] Lexicon.directives

/-- The lines of a source that declare a priority. -/
def Source.priorityLines (source : Source) : List String :=
  Directive.Kind.priority.linesIn (source.lines .grammar) ++
    Directive.Kind.priority.linesIn (source.lines .lexicon)

namespace Module

open Directive

structure Constructible (source : Source) : Prop where
  /-- There is no table of operators, or an empty one. -/
  operators : source.grammar.operators = none ∨ source.grammar.operators = some []
  /-- There are not two lexicons. -/
  lexicons : source.grammar.lexicon = none ∨ source.lexicon = none
  /-- At most one line declares a priority, and it is a 64-bit integer. -/
  onePriority : source.priorityLines.length ≤ 1
  priority : ∀ line ∈ source.priorityLines, ∃ n, readPriority line = .ok n
  /-- The other directives can be read. -/
  readable : ∀ side, ∀ line ∈ source.lines side, ∀ kind : Kind, kind ≠ .priority →
    keyword? line = some kind.keyword → ∃ d, Directive.read kind line = .ok d
  /-- The lexicon imports and exports no default. -/
  imports : ∀ line ∈ Kind.importing.linesIn (source.lines .lexicon),
    ∀ d, readImport line = .ok d → ∀ b ∈ d.bindings, b.name ≠ "default"
  exports : ∀ line ∈ Kind.exporting.linesIn (source.lines .lexicon),
    ∀ d, readExport line = .ok d → ∀ b ∈ d.bindings, b.knownAs ≠ "default"

/-- A module says what the lines of its documents say, and keeps all other lines. -/
structure Accounts (name : String) (source : Source) (fallback : Int64) (m : Module) : Prop where
  name : m.name = name
  grammar : m.grammar = { source.grammar with lexicon := none, directives := [] }
  lexicon : m.lexicon = source.eitherLexicon
  /-- The priority that is declared, or else the one that is given. -/
  priority : (∃ line ∈ source.priorityLines, readPriority line = .ok m.priority) ∨
    source.priorityLines = [] ∧ m.priority = fallback
  imports : m.imports =
    importsSaid .grammar (source.lines .grammar) ++ importsSaid .lexicon (source.lines .lexicon)
  exports : m.exports =
    exportsSaid .grammar (source.lines .grammar) ++ exportsSaid .lexicon (source.lines .lexicon)
  precedence : m.precedence =
    precedenceSaid (source.lines .grammar) ++ precedenceSaid (source.lines .lexicon)
  grammarLines : m.grammarLines = otherLines (source.lines .grammar)
  lexiconLines : m.lexiconLines = otherLines (source.lines .lexicon)

/-- The errors of building a module, each under the condition that none before it holds. -/
inductive SourceFailure (name : String) (source : Source) : LinkError → Prop where
  | legacyOperators {row : List String} {rows : List (List String)}
      (h : source.grammar.operators = some (row :: rows)) :
      SourceFailure name source (.legacyOperators name)
  | duplicateLexicon
      (hoperators : source.grammar.operators = none ∨ source.grammar.operators = some [])
      {embedded external : Lexicon} (h : source.grammar.lexicon = some embedded)
      (h' : source.lexicon = some external) :
      SourceFailure name source (.duplicateLexicon name)
  | multiplePriorities
      (hoperators : source.grammar.operators = none ∨ source.grammar.operators = some [])
      (hlexicons : source.grammar.lexicon = none ∨ source.lexicon = none)
      (h : 2 ≤ source.priorityLines.length) :
      SourceFailure name source (.multiplePriorities name)
  | invalidPriority
      (hoperators : source.grammar.operators = none ∨ source.grammar.operators = some [])
      (hlexicons : source.grammar.lexicon = none ∨ source.lexicon = none)
      {line : String} (hline : source.priorityLines = [line])
      (h : ∀ n, readPriority line ≠ .ok n) :
      SourceFailure name source (.invalidPriority name (reportedPriority line))
  /-- The lines of the grammar come before those of the lexicon. -/
  | line
      (hoperators : source.grammar.operators = none ∨ source.grammar.operators = some [])
      (hlexicons : source.grammar.lexicon = none ∨ source.lexicon = none)
      (hone : source.priorityLines.length ≤ 1)
      (hpriority : ∀ line ∈ source.priorityLines, ∃ n, readPriority line = .ok n)
      {side : Side} {line : String} {reason : DirectiveError}
      (hbefore : side = .lexicon → ∀ l ∈ source.lines .grammar, Accepted .grammar l)
      (h : FirstRefused side (source.lines side) line reason) :
      SourceFailure name source (.declarationSyntax name (Text.trim line) reason)

section Stages

variable {name : String} {source : Source} {fallback : Int64} {e : LinkError}

theorem hasOperators_eq_false_iff {g : Grammar} :
    g.hasOperators = false ↔ g.operators = none ∨ g.operators = some [] := by
  rw [Grammar.hasOperators]
  cases g.operators with
  | none => simp
  | some rows => cases rows <;> simp

theorem chooseLexicon_eq_ok_iff {lexicon : Option Lexicon} :
    chooseLexicon name source = .ok lexicon ↔
      (source.grammar.lexicon = none ∨ source.lexicon = none) ∧
        lexicon = source.eitherLexicon := by
  rw [chooseLexicon, Source.eitherLexicon]
  cases source.grammar.lexicon <;> cases source.lexicon <;> simp [eq_comm]

theorem chooseLexicon_eq_error_iff : chooseLexicon name source = .error e ↔
    (∃ embedded external, source.grammar.lexicon = some embedded ∧
      source.lexicon = some external) ∧ e = .duplicateLexicon name := by
  rw [chooseLexicon]
  cases source.grammar.lexicon <;> cases source.lexicon <;> simp [eq_comm]

theorem readModulePriority_eq_ok_iff {lines : List String} {n : Int64} :
    readModulePriority name fallback lines = .ok n ↔
      lines.length ≤ 1 ∧ ((∃ line ∈ lines, readPriority line = .ok n) ∨
        lines = [] ∧ n = fallback) := by
  match lines with
  | [] => simp [readModulePriority, eq_comm]
  | [line] =>
    rw [readModulePriority]
    cases hread : readPriority line <;> simp [hread]
  | _ :: _ :: _ => simp [readModulePriority]

theorem readModulePriority_eq_error_iff {lines : List String} :
    readModulePriority name fallback lines = .error e ↔
      2 ≤ lines.length ∧ e = .multiplePriorities name ∨
      ∃ line, lines = [line] ∧ (∀ n, readPriority line ≠ .ok n) ∧
        e = .invalidPriority name (reportedPriority line) := by
  match lines with
  | [] => simp [readModulePriority]
  | [line] =>
    rw [readModulePriority]
    cases hread : readPriority line <;> simp [hread, eq_comm]
  | _ :: _ :: _ => simp [readModulePriority, eq_comm]

/-- All lines are accepted if the directives can be read and the lexicon binds no default. -/
theorem forall_accepted_iff : (∀ side, ∀ line ∈ source.lines side, Accepted side line) ↔
    (∀ side, ∀ line ∈ source.lines side, ∀ kind : Kind, kind ≠ .priority →
      keyword? line = some kind.keyword → ∃ d, Directive.read kind line = .ok d) ∧
    (∀ line ∈ Kind.importing.linesIn (source.lines .lexicon),
      ∀ d, readImport line = .ok d → ∀ b ∈ d.bindings, b.name ≠ "default") ∧
    ∀ line ∈ Kind.exporting.linesIn (source.lines .lexicon),
      ∀ d, readExport line = .ok d → ∀ b ∈ d.bindings, b.knownAs ≠ "default" := by
  simp only [Kind.linesIn, List.mem_filter, decide_eq_true_eq]
  constructor
  · intro h
    refine ⟨?_, ?_, ?_⟩
    · -- each condition rules out one of the reasons for refusing a line
      intro side line hline kind hother hkind
      cases hread : Directive.read kind line with
      | error reason => exact absurd (.unreadable hkind hother hread) (h side line hline reason)
      | ok d => exact ⟨d, rfl⟩
    · rintro line ⟨hline, hkind⟩ d hread b hb hdefault
      exact h .lexicon line hline _ (.defaultImport rfl hkind hread hb hdefault)
    · rintro line ⟨hline, hkind⟩ d hread b hb hdefault
      exact h .lexicon line hline _ (.defaultExport rfl hkind hread hb hdefault)
  · rintro ⟨hreadable, himports, hexports⟩ side line hline reason hrefused
    cases hrefused with
    | unreadable hkind hother hread =>
      obtain ⟨d, hd⟩ := hreadable side line hline _ hother hkind
      rw [hread] at hd
      cases hd
    | defaultImport hside hkind hread hb hdefault =>
      subst hside
      exact himports line ⟨hline, hkind⟩ _ hread _ hb hdefault
    | defaultExport hside hkind hread hb hdefault =>
      subst hside
      exact hexports line ⟨hline, hkind⟩ _ hread _ hb hdefault

/-- The stages of building a module, one after the other. -/
theorem ofSource_eq : ofSource name source fallback =
    if source.grammar.hasOperators then .error (.legacyOperators name)
    else chooseLexicon name source >>= fun lexicon =>
      readModulePriority name fallback
        ((sort Kind.all source.grammar.directives).group .priority ++
          (sort Kind.all (lexicon.elim [] Lexicon.directives)).group .priority) >>= fun priority =>
      readStatements name .grammar (sort Kind.all source.grammar.directives).recognized >>=
        fun inGrammar =>
      readStatements name .lexicon
        (sort Kind.all (lexicon.elim [] Lexicon.directives)).recognized >>= fun inLexicon =>
      .ok {
        name, lexicon, priority
        grammar := { source.grammar with lexicon := none, directives := [] }
        imports := (inGrammar.append inLexicon).imports
        exports := (inGrammar.append inLexicon).exports
        precedence := (inGrammar.append inLexicon).precedence
        grammarLines := (sort Kind.all source.grammar.directives).unknown
        lexiconLines := (sort Kind.all (lexicon.elim [] Lexicon.directives)).unknown } := by
  unfold ofSource
  split <;> rfl

/-- If there is at most one line with a priority, the one that counts is the only one. -/
theorem forall_readPriority {lines : List String} {n : Int64} (hone : lines.length ≤ 1)
    (h : (∃ line ∈ lines, readPriority line = .ok n) ∨ lines = [] ∧ n = fallback) :
    ∀ line ∈ lines, ∃ n, readPriority line = .ok n := by
  match lines with
  | [] => simp
  | [line] => simpa using ⟨n, by simpa using h⟩
  | _ :: _ :: _ => simp at hone

theorem ofSource_eq_ok_iff {m : Module} : ofSource name source fallback = .ok m ↔
    Constructible source ∧ Accounts name source fallback m := by
  rw [ofSource_eq]
  simp only [group_sort, unknown_sort]
  constructor
  · intro h
    split at h
    · cases h
    · next hoperators =>
      -- nothing was thrown, so every step has its result
      simp only [except_bind_eq_ok, chooseLexicon_eq_ok_iff, readModulePriority_eq_ok_iff,
        readStatements_eq_ok_iff] at h
      obtain ⟨_, ⟨hlexicons, rfl⟩, priority, ⟨hone, hpriority⟩, _, ⟨hgrammar, rfl⟩, _,
        ⟨hlexicon, rfl⟩, h⟩ := h
      have haccepted : ∀ side, ∀ line ∈ source.lines side, Accepted side line := by
        intro side
        cases side with
        | grammar => exact hgrammar
        | lexicon => exact hlexicon
      obtain ⟨hreadable, himports, hexports⟩ := forall_accepted_iff.mp haccepted
      cases h
      constructor
      · exact ⟨hasOperators_eq_false_iff.mp (Bool.eq_false_iff.mpr hoperators), hlexicons, hone,
          forall_readPriority hone hpriority, hreadable, himports, hexports⟩
      · exact ⟨rfl, rfl, rfl, hpriority, rfl, rfl, rfl, rfl, rfl⟩
  · rintro ⟨hsource, hm⟩
    have haccepted := forall_accepted_iff.mpr ⟨hsource.readable, hsource.imports, hsource.exports⟩
    rw [if_neg (Bool.eq_false_iff.mp (hasOperators_eq_false_iff.mpr hsource.operators))]
    simp only [except_bind_eq_ok, chooseLexicon_eq_ok_iff, readModulePriority_eq_ok_iff,
      readStatements_eq_ok_iff]
    refine ⟨_, ⟨hsource.lexicons, rfl⟩, m.priority, ⟨hsource.onePriority, hm.priority⟩, _,
      ⟨haccepted .grammar, rfl⟩, _, ⟨haccepted .lexicon, rfl⟩, ?_⟩
    -- a module is what its fields are
    cases m
    simp only [Except.ok.injEq, Module.mk.injEq]
    exact ⟨hm.name.symm, hm.grammar.symm, hm.lexicon.symm, trivial, hm.imports.symm,
      hm.exports.symm, hm.precedence.symm, hm.grammarLines.symm, hm.lexiconLines.symm⟩

/-- At most one line with a priority, and one that can be read, settles the priority. -/
theorem exists_readModulePriority {lines : List String} (fallback : Int64)
    (hone : lines.length ≤ 1)
    (h : ∀ line ∈ lines, ∃ n, readPriority line = .ok n) :
    ∃ n, (∃ line ∈ lines, readPriority line = .ok n) ∨ lines = [] ∧ n = fallback := by
  match lines with
  | [] => exact ⟨fallback, .inr ⟨rfl, rfl⟩⟩
  | line :: rest =>
    obtain ⟨n, hn⟩ := h line (by simp)
    exact ⟨n, .inl ⟨line, by simp, hn⟩⟩

/-- A table of operators is told before anything else. -/
theorem sourceFailure_iff_of_hasOperators (h : source.grammar.hasOperators = true) :
    SourceFailure name source e ↔ e = .legacyOperators name := by
  have hsome : ¬ (source.grammar.operators = none ∨ source.grammar.operators = some []) := by
    rw [← hasOperators_eq_false_iff, h]
    exact Bool.noConfusion
  constructor
  · intro hfailure
    -- all other failures are those of a grammar without operators
    cases hfailure with
    | legacyOperators => rfl
    | duplicateLexicon hoperators | multiplePriorities hoperators | invalidPriority hoperators
    | line hoperators => exact absurd hoperators hsome
  · rintro rfl
    match hrows : source.grammar.operators with
    | none => exact absurd (.inl hrows) hsome
    | some [] => exact absurd (.inr hrows) hsome
    | some (row :: rows) => exact .legacyOperators hrows

theorem ofSource_eq_error_iff : ofSource name source fallback = .error e ↔
    SourceFailure name source e := by
  rw [ofSource_eq]
  by_cases hoperators : source.grammar.hasOperators = true
  · rw [if_pos hoperators, sourceFailure_iff_of_hasOperators hoperators]
    simp [eq_comm]
  have hnone := hasOperators_eq_false_iff.mp (Bool.eq_false_iff.mpr hoperators)
  -- an error of one stage, or no error of it and an error of a later one
  rw [if_neg hoperators]
  simp only [group_sort, unknown_sort, except_bind_eq_error, chooseLexicon_eq_ok_iff,
    chooseLexicon_eq_error_iff, readModulePriority_eq_ok_iff, readModulePriority_eq_error_iff,
    readStatements_eq_ok_iff, readStatements_eq_error_iff, reduceCtorEq, and_false, exists_false,
    or_false]
  constructor
  · rintro (⟨⟨embedded, external, h, h'⟩, rfl⟩ | ⟨_, ⟨hlexicons, rfl⟩, h⟩)
    · exact .duplicateLexicon hnone h h'
    · rcases h with (⟨htwo, rfl⟩ | ⟨line, hline, hread, rfl⟩) | ⟨n, ⟨hone, hn⟩, h⟩
      · exact .multiplePriorities hnone hlexicons htwo
      · exact .invalidPriority hnone hlexicons hline hread
      · have hpriority := forall_readPriority hone hn
        rcases h with ⟨line, reason, h, rfl⟩ | ⟨_, ⟨hgrammar, rfl⟩, line, reason, h, rfl⟩
        · have hfirst : FirstRefused .grammar (source.lines .grammar) line reason := h
          refine .line hnone hlexicons hone hpriority ?_ hfirst
          intro hside
          cases hside
        · have hfirst : FirstRefused .lexicon (source.lines .lexicon) line reason := h
          exact .line hnone hlexicons hone hpriority (fun _ => hgrammar) hfirst
  · intro h
    cases h with
    | legacyOperators h => simp [h] at hnone
    | duplicateLexicon _ h h' => exact .inl ⟨⟨_, _, h, h'⟩, rfl⟩
    | multiplePriorities _ hlexicons h => exact .inr ⟨_, ⟨hlexicons, rfl⟩, .inl (.inl ⟨h, rfl⟩)⟩
    | invalidPriority _ hlexicons hline h =>
      exact .inr ⟨_, ⟨hlexicons, rfl⟩, .inl (.inr ⟨_, hline, h, rfl⟩)⟩
    | @line _ hlexicons hone hpriority side line reason hbefore h =>
      obtain ⟨n, hn⟩ := exists_readModulePriority fallback hone hpriority
      refine .inr ⟨_, ⟨hlexicons, rfl⟩, .inr ⟨n, ⟨hone, hn⟩, ?_⟩⟩
      cases side with
      | grammar => exact .inl ⟨line, reason, h, rfl⟩
      | lexicon => exact .inr ⟨_, ⟨hbefore rfl, rfl⟩, line, reason, h, rfl⟩

/-- Building a module from a source.  It succeeds exactly for the sources that are constructible;
the module then accounts for every line of its documents and for nothing else, and otherwise the
error is the first that there is. -/
theorem ofSource_outcome (name : String) (source : Source) (fallback : Int64) :
    ((∃ m, ofSource name source fallback = .ok m) ↔ Constructible source) ∧
    (∀ m, ofSource name source fallback = .ok m ↔
      Constructible source ∧ Accounts name source fallback m) ∧
    ∀ e, ofSource name source fallback = .error e ↔ SourceFailure name source e := by
  refine ⟨⟨?_, ?_⟩, fun m => ofSource_eq_ok_iff, fun e => ofSource_eq_error_iff⟩
  · rintro ⟨m, h⟩
    exact (ofSource_eq_ok_iff.mp h).1
  · intro h
    obtain ⟨n, hn⟩ := exists_readModulePriority fallback h.onePriority h.priority
    -- the module is written down from what its lines say
    let m : Module := {
      name, lexicon := source.eitherLexicon, priority := n
      grammar := { source.grammar with lexicon := none, directives := [] }
      imports := importsSaid .grammar (source.lines .grammar) ++
        importsSaid .lexicon (source.lines .lexicon)
      exports := exportsSaid .grammar (source.lines .grammar) ++
        exportsSaid .lexicon (source.lines .lexicon)
      precedence := precedenceSaid (source.lines .grammar) ++
        precedenceSaid (source.lines .lexicon)
      grammarLines := otherLines (source.lines .grammar)
      lexiconLines := otherLines (source.lines .lexicon) }
    have hm : Accounts name source fallback m := ⟨rfl, rfl, rfl, hn, rfl, rfl, rfl, rfl, rfl⟩
    exact ⟨m, ofSource_eq_ok_iff.mpr ⟨h, hm⟩⟩

end Stages

end Module

end ModularGrammar
