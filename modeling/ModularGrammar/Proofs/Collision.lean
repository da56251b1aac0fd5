import Mathlib.Data.List.Nodup
import ModularGrammar.Proofs.Merging

/-!
# Collisions

Merging the definitions of modules goes through them one after the other and stops at the first
one whose name has come before.  The error names that definition and the module in which the name
came first.  Macros and start conditions are merged side by side, so their names may be the same,
and the first repetition of either kind counts.

## Architecture

1. `Definition`, `FirstRepetition`: definitions in a row, and the first one that repeats a name
2. `MergeOutcome`: what may come of merging, one step, a sequence of steps and a whole run
3. `mergeRules_eq_error_iff`, `mergeLexicons_eq_error_iff`: rules, macros and start conditions
-/

namespace ModularGrammar

/-! ## Definitions -/

/-- A name that is to be defined in a composite grammar, and the module that defines it. -/
structure Definition where
  kind : NameKind
  name : String
  owner : String
deriving DecidableEq, Repr

namespace Definition

/-- What no two definitions may share. -/
def key (d : Definition) : NameKind × String := (d.kind, d.name)

/-- The error about a definition that repeats the name of another one. -/
def collision (first second : Definition) : LinkError :=
  .identifierCollision second.kind second.name first.owner second.owner

end Definition

/-- No name of a kind comes twice. -/
def Distinct (definitions : List Definition) : Prop := (definitions.map Definition.key).Nodup

/-- The definition `second` is the first one in a row that repeats a name, and it repeats that of
`first`. -/
def FirstRepetition (definitions : List Definition) (first second : Definition) : Prop :=
  ∃ front back, definitions = front ++ second :: back ∧ Distinct front ∧
    first ∈ front ∧ first.key = second.key

section Repetition

variable {definitions front : List Definition} {first second : Definition}

theorem distinct_nil : Distinct [] :=
  List.nodup_nil

theorem distinct_append_singleton : Distinct (front ++ [second]) ↔
    Distinct front ∧ ∀ d ∈ front, d.key ≠ second.key := by
  simp [Distinct, List.nodup_append]

theorem FirstRepetition.not_distinct (h : FirstRepetition definitions first second) :
    ¬ Distinct definitions := by
  obtain ⟨front, back, rfl, -, hfirst, hkey⟩ := h
  intro hdistinct
  -- the definitions up to the second one would be distinct as well
  have hupto : Distinct (front ++ [second]) := by
    rw [Distinct, List.map_append, List.map_cons, ← List.singleton_append, ← List.append_assoc]
      at hdistinct
    rw [Distinct, List.map_append]
    exact (List.nodup_append.mp hdistinct).1
  exact (distinct_append_singleton.mp hupto).2 first hfirst hkey

theorem FirstRepetition.append (h : FirstRepetition definitions first second)
    (more : List Definition) : FirstRepetition (definitions ++ more) first second := by
  obtain ⟨front, back, rfl, hdistinct, hfirst, hkey⟩ := h
  exact ⟨front, back ++ more, List.append_assoc .., hdistinct, hfirst, hkey⟩

/-- Distinct definitions end before a name is repeated. -/
private theorem length_le_of_repetition {other back back' : List Definition} {next : Definition}
    (hsplit : front ++ second :: back = other ++ next :: back') (hother : Distinct other)
    (hfirst : first ∈ front) (hkey : first.key = second.key) : other.length ≤ front.length := by
  apply Nat.le_of_not_lt
  intro hlonger
  -- the repetition would stand in `other`, together with what it repeats
  have hwithin : front ++ [second] <+: other := by
    apply List.prefix_of_prefix_length_le
    · exact ⟨back, List.append_assoc ..⟩
    · rw [List.singleton_append, hsplit]
      exact List.prefix_append _ _
    · rw [List.length_append, List.length_singleton]
      exact hlonger
  have hdistinct : Distinct (front ++ [second]) := hother.sublist (hwithin.sublist.map _)
  exact (distinct_append_singleton.mp hdistinct).2 first hfirst hkey

/-- There is only one first repetition. -/
theorem FirstRepetition.unique {first' second' : Definition}
    (h : FirstRepetition definitions first second)
    (h' : FirstRepetition definitions first' second') : first = first' ∧ second = second' := by
  obtain ⟨front, back, rfl, hdistinct, hfirst, hkey⟩ := h
  obtain ⟨front', back', hsplit, hdistinct', hfirst', hkey'⟩ := h'
  have hle := length_le_of_repetition hsplit hdistinct' hfirst hkey
  have hge := length_le_of_repetition hsplit.symm hdistinct hfirst' hkey'
  obtain ⟨rfl, hrest⟩ := List.append_inj hsplit (by omega)
  cases hrest
  -- distinct definitions with one key are the same
  exact ⟨List.inj_on_of_nodup_map hdistinct hfirst hfirst' (hkey.trans hkey'.symm), rfl⟩

end Repetition

/-! ## Outcomes -/

/-- What may come of merging some definitions into a state, where `Records` says which definitions
a state holds: it fails at the first repetition, and without one it holds all of them. -/
inductive MergeOutcome {σ : Type} (Records : σ → List Definition → Prop)
    (definitions : List Definition) : Except LinkError σ → Prop where
  | collision {first second : Definition} (h : FirstRepetition definitions first second) :
      MergeOutcome Records definitions (.error (first.collision second))
  | merged {s : σ} (hdistinct : Distinct definitions) (hrecords : Records s definitions) :
      MergeOutcome Records definitions (.ok s)

namespace MergeOutcome

variable {σ τ : Type} {Records : σ → List Definition → Prop}
  {Records' : τ → List Definition → Prop} {definitions more : List Definition}
  {x : Except LinkError σ}

/-- Merging goes on with further definitions once the first ones have been merged. -/
theorem bind {f : σ → Except LinkError τ} (hx : MergeOutcome Records definitions x)
    (hf : ∀ s, Distinct definitions → Records s definitions →
      MergeOutcome Records' (definitions ++ more) (f s)) :
    MergeOutcome Records' (definitions ++ more) (x >>= f) := by
  cases hx with
  | collision h => exact .collision (h.append more)
  | merged hdistinct hrecords => exact hf _ hdistinct hrecords

theorem map {f : σ → τ} (hx : MergeOutcome Records definitions x)
    (hf : ∀ s, Records s definitions → Records' (f s) definitions) :
    MergeOutcome Records' definitions (x >>= fun s => pure (f s)) := by
  cases hx with
  | collision h => exact .collision h
  | merged hdistinct hrecords => exact .merged hdistinct (hf _ hrecords)

/-- If every step merges the definitions of one thing, a run merges those of all things. -/
theorem foldlM {β : Type} {step : σ → β → Except LinkError σ} {defined : β → List Definition}
    (hstep : ∀ s b done, Distinct done → Records s done →
      MergeOutcome Records (done ++ defined b) (step s b))
    {s : σ} {done : List Definition} (hdistinct : Distinct done) (hrecords : Records s done)
    (l : List β) : MergeOutcome Records (done ++ l.flatMap defined) (l.foldlM step s) := by
  induction l generalizing s done with
  | nil =>
    rw [List.flatMap_nil, List.append_nil]
    exact .merged hdistinct hrecords
  | cons b rest ih =>
    rw [List.flatMap_cons, ← List.append_assoc, List.foldlM_cons]
    -- the rest is merged behind what the first step has merged
    exact (hstep s b done hdistinct hrecords).bind fun s' hdistinct' hrecords' =>
      ih hdistinct' hrecords'

theorem eq_error_iff (hx : MergeOutcome Records definitions x) {e : LinkError} :
    x = .error e ↔ ∃ first second, FirstRepetition definitions first second ∧
      e = first.collision second := by
  -- the first repetition is the only one that can be first
  cases hx with
  | @collision first second h =>
    constructor
    · intro he
      exact ⟨first, second, h, (Except.error.inj he).symm⟩
    · rintro ⟨first', second', h', rfl⟩
      obtain ⟨rfl, rfl⟩ := h.unique h'
      rfl
  | merged hdistinct _ =>
    constructor
    · intro he
      cases he
    · rintro ⟨first, second, h, -⟩
      exact absurd hdistinct h.not_distinct

end MergeOutcome

/-! ## Tables with owners -/

namespace OwnedTable

variable {α : Type} {kind : NameKind} {owner : String} {t : OwnedTable α} {done : List Definition}

/-- The table holds the definitions of one kind, each with its owner. -/
def Records (kind : NameKind) (t : OwnedTable α) (done : List Definition) : Prop :=
  ∀ name owner, (∃ value, t.get? name = some (owner, value)) ↔ ⟨kind, name, owner⟩ ∈ done

theorem records_empty (kind : NameKind) : Records kind (.empty : OwnedTable α) [] := by
  intro name owner
  constructor
  · rintro ⟨value, hvalue⟩
    cases hvalue
  · intro h
    cases h

/-- Definitions of other kinds are none of the table's. -/
theorem Records.append_of_ne {more : List Definition} (h : Records kind t done)
    (hmore : ∀ d ∈ more, d.kind ≠ kind) : Records kind t (done ++ more) := by
  intro name owner
  rw [h name owner, List.mem_append]
  constructor
  · exact Or.inl
  · rintro (hd | hd)
    · exact hd
    · exact absurd rfl (hmore _ hd)

theorem add_outcome (hdistinct : Distinct done) (hrecords : Records kind t done)
    (entry : String × α) : MergeOutcome (Records kind) (done ++ [⟨kind, entry.1, owner⟩])
      (add kind owner t entry) := by
  rw [add]
  cases hget : t.get? entry.1 with
  | some found =>
    obtain ⟨first, value⟩ := found
    have hfirst : (⟨kind, entry.1, first⟩ : Definition) ∈ done :=
      (hrecords entry.1 first).mp ⟨value, hget⟩
    have hrepetition : FirstRepetition (done ++ [⟨kind, entry.1, owner⟩])
        ⟨kind, entry.1, first⟩ ⟨kind, entry.1, owner⟩ :=
      ⟨done, [], rfl, hdistinct, hfirst, rfl⟩
    exact .collision hrepetition
  | none =>
    -- a definition of this name would have been found
    have hnew : ∀ first, (⟨kind, entry.1, first⟩ : Definition) ∉ done := by
      intro first hd
      obtain ⟨value, hvalue⟩ := (hrecords entry.1 first).mpr hd
      rw [hget] at hvalue
      cases hvalue
    refine .merged ?_ ?_
    · refine distinct_append_singleton.mpr ⟨hdistinct, ?_⟩
      rintro ⟨kind', name, first⟩ hd hkey
      cases hkey
      exact hnew first hd
    · intro name other
      rw [Table.get?_insert, List.mem_append, List.mem_singleton]
      by_cases hname : name = entry.1
      · subst hname
        -- under the new name stands its owner, and nothing stood there before
        simp [hnew other, eq_comm]
      · simp [hname, hrecords name other]

/-- The definitions of a kind that a module has in a table. -/
def definitionsOf (kind : NameKind) (owner : String) (entries : Table α) : List Definition :=
  entries.keys.map fun name => ⟨kind, name, owner⟩

theorem kind_of_mem_definitionsOf {entries : Table α} {d : Definition}
    (h : d ∈ definitionsOf kind owner entries) : d.kind = kind := by
  obtain ⟨name, -, rfl⟩ := List.mem_map.mp h
  rfl

theorem addAll_outcome (hdistinct : Distinct done) (hrecords : Records kind t done)
    (owner : String) (entries : Table α) :
    MergeOutcome (Records kind) (done ++ definitionsOf kind owner entries)
      (addAll kind owner t entries) := by
  have hentries : definitionsOf kind owner entries =
      entries.entries.flatMap fun entry => [⟨kind, entry.1, owner⟩] := by
    rw [definitionsOf, Table.keys, List.map_map, List.map_eq_flatMap]
    rfl
  rw [hentries, addAll]
  apply MergeOutcome.foldlM _ hdistinct hrecords
  intro s entry done hdistinct hrecords
  exact add_outcome hdistinct hrecords entry

end OwnedTable

namespace Composition

/-! ## Rules -/

def ruleDefinitions (modules : List Module) : List Definition :=
  modules.flatMap fun m => OwnedTable.definitionsOf .rule m.name m.grammar.rules

theorem mergeRules_eq_error_iff {modules : List Module} {e : LinkError} :
    mergeRules modules = .error e ↔ ∃ first second,
      FirstRepetition (ruleDefinitions modules) first second ∧ e = first.collision second := by
  -- the tables of the modules are merged one after the other, and what is left cannot fail
  have hfold : MergeOutcome (OwnedTable.Records .rule) (ruleDefinitions modules)
      (modules.foldlM (fun t m => OwnedTable.addAll .rule m.name t m.grammar.rules) .empty) := by
    refine MergeOutcome.foldlM ?_ distinct_nil (OwnedTable.records_empty .rule) modules
    intro t m done hdistinct hrecords
    exact OwnedTable.addAll_outcome hdistinct hrecords m.name m.grammar.rules
  have hmerged : MergeOutcome (fun _ _ => True) (ruleDefinitions modules) (mergeRules modules) :=
    hfold.map fun _ _ => trivial
  exact hmerged.eq_error_iff

/-! ## Macros and start conditions -/

/-- The two tables hold the macros and the start conditions among some definitions. -/
structure LexicalNames.Records (names : LexicalNames) (done : List Definition) : Prop where
  macros : names.macros.Records .lexerMacro done
  startConditions : names.startConditions.Records .startCondition done

/-- The macros and the start conditions of some modules in a row, the macros of each module before
its start conditions. -/
def lexicalDefinitions (modules : List Module) : List Definition :=
  modules.flatMap fun m => OwnedTable.definitionsOf .lexerMacro m.name m.macros ++
    OwnedTable.definitionsOf .startCondition m.name m.startConditions

theorem lexicalNames_add_eq (names : LexicalNames) (m : Module) :
    names.add m = (do
      let macros ← names.macros.addAll .lexerMacro m.name m.macros
      let startConditions ← names.startConditions.addAll .startCondition m.name m.startConditions
      pure ⟨macros, startConditions⟩) := by
  rw [LexicalNames.add, Module.macros, Module.startConditions]
  cases m.lexicon with
  | none => rfl
  | some l => rfl

theorem lexicalNames_add_outcome {names : LexicalNames} {done : List Definition}
    (hdistinct : Distinct done) (hrecords : names.Records done) (m : Module) :
    MergeOutcome LexicalNames.Records
      (done ++ (OwnedTable.definitionsOf .lexerMacro m.name m.macros ++
        OwnedTable.definitionsOf .startCondition m.name m.startConditions)) (names.add m) := by
  rw [lexicalNames_add_eq, ← List.append_assoc]
  apply (OwnedTable.addAll_outcome hdistinct hrecords.macros m.name m.macros).bind
  intro macros hdistinct' hmacros
  -- macros are not in the way of start conditions, nor the other way round
  have hconditions : names.startConditions.Records .startCondition
      (done ++ OwnedTable.definitionsOf .lexerMacro m.name m.macros) := by
    apply hrecords.startConditions.append_of_ne
    intro d hd
    rw [OwnedTable.kind_of_mem_definitionsOf hd]
    decide
  apply (OwnedTable.addAll_outcome hdistinct' hconditions m.name m.startConditions).map
  intro startConditions hstartConditions
  refine ⟨hmacros.append_of_ne ?_, hstartConditions⟩
  intro d hd
  rw [OwnedTable.kind_of_mem_definitionsOf hd]
  decide

theorem mergeLexicons_eq_error_iff {helper : String} {modules : List Module} {e : LinkError} :
    mergeLexicons helper modules = .error e ↔ ∃ first second,
      FirstRepetition (lexicalDefinitions modules) first second ∧
        e = first.collision second := by
  have hempty : LexicalNames.Records {} [] :=
    ⟨OwnedTable.records_empty .lexerMacro, OwnedTable.records_empty .startCondition⟩
  have hfold : MergeOutcome LexicalNames.Records (lexicalDefinitions modules)
      (modules.foldlM LexicalNames.add {}) := by
    refine MergeOutcome.foldlM ?_ distinct_nil hempty modules
    intro names m done hdistinct hrecords
    exact lexicalNames_add_outcome hdistinct hrecords m
  have hmerged : MergeOutcome (fun _ _ => True) (lexicalDefinitions modules)
      (mergeLexicons helper modules) := hfold.map fun _ _ => trivial
  exact hmerged.eq_error_iff

end Composition

end ModularGrammar
