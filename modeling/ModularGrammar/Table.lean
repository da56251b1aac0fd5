/-!
# Tables

A table maps names to values and remembers in which order the names first came up: setting a name
that is already there keeps its place and replaces its value.  Rule tables, lexer macros, start
conditions and export lists are all of this kind.

## Architecture

1. `Table`: the entries in order, each name once
2. `get?`, `insert`, `erase`, `ofList`: the operations
3. `mapValues`, `qualify`: changing all entries at once
-/

namespace ModularGrammar

universe u v

/-- Values under distinct names, in the order in which the names came up. -/
structure Table (α : Type u) where
  /-- The names with their values. -/
  entries : List (String × α)
  /-- No name stands twice. -/
  nodup : (entries.map Prod.fst).Nodup
deriving DecidableEq

namespace Table

variable {α : Type u} {β : Type v}

def empty : Table α := ⟨[], by simp⟩

instance : Inhabited (Table α) := ⟨empty⟩

instance : EmptyCollection (Table α) := ⟨empty⟩

/-- The names, in order. -/
def keys (t : Table α) : List String := t.entries.map Prod.fst

def values (t : Table α) : List α := t.entries.map Prod.snd

def size (t : Table α) : Nat := t.entries.length

def isEmpty (t : Table α) : Bool := t.entries.isEmpty

/-- The value under a name. -/
def get? (t : Table α) (key : String) : Option α := t.entries.lookup key

def contains (t : Table α) (key : String) : Bool := (t.get? key).isSome

/-- Only names of the table have a value. -/
theorem mem_keys_of_get? {t : Table α} {key : String} {value : α} (h : t.get? key = some value) :
    key ∈ t.keys := by
  obtain ⟨before, after, heq, -⟩ := List.lookup_eq_some_iff.1 h
  rw [keys, heq]
  simp

/-! ## Setting and removing -/

/-- The entries after `key` has been set to `value`. -/
def insertEntry (key : String) (value : α) : List (String × α) → List (String × α)
  | [] => [(key, value)]
  | (k, v) :: rest =>
    if k = key then (key, value) :: rest else (k, v) :: insertEntry key value rest

/-- Setting a name adds at most this name. -/
theorem mem_keys_insertEntry {key k : String} {value : α} {l : List (String × α)} :
    k ∈ (insertEntry key value l).map Prod.fst ↔ k = key ∨ k ∈ l.map Prod.fst := by
  induction l with
  | nil => simp [insertEntry]
  | cons e rest ih =>
    obtain ⟨k', v'⟩ := e
    by_cases h : k' = key
    · simp [insertEntry, h]
    · simp only [insertEntry, h, if_false, List.map_cons, List.mem_cons, ih]
      grind

/-- Setting a name keeps the names distinct. -/
theorem nodup_insertEntry {key : String} {value : α} {l : List (String × α)}
    (h : (l.map Prod.fst).Nodup) : ((insertEntry key value l).map Prod.fst).Nodup := by
  induction l with
  | nil => simp [insertEntry]
  | cons e rest ih =>
    obtain ⟨k', v'⟩ := e
    simp only [List.map_cons, List.nodup_cons] at h
    by_cases hk : k' = key
    · subst hk; simpa [insertEntry] using h
    · simp only [insertEntry, hk, if_false, List.map_cons, List.nodup_cons]
      refine ⟨?_, ih h.2⟩
      rw [mem_keys_insertEntry]
      rintro (rfl | hm)
      · exact hk rfl
      · exact h.1 hm

/-- The table with `key` set to `value`. -/
def insert (t : Table α) (key : String) (value : α) : Table α :=
  ⟨insertEntry key value t.entries, nodup_insertEntry t.nodup⟩

/-- Setting a name gives it the value and leaves the other names alone. -/
theorem lookup_insertEntry {key k : String} {value : α} {l : List (String × α)} :
    (insertEntry key value l).lookup k = if k = key then some value else l.lookup k := by
  induction l with
  | nil =>
    by_cases h : k = key
    · simp [insertEntry, h]
    · simp [insertEntry, List.lookup_cons, beq_eq_false_iff_ne.2 h, h]
  | cons e rest ih =>
    obtain ⟨k', v'⟩ := e
    by_cases hk : k' = key
    · -- the name is at the front, where its value is replaced
      subst hk
      by_cases h : k = k'
      · simp [insertEntry, h]
      · simp [insertEntry, List.lookup_cons, beq_eq_false_iff_ne.2 h, h]
    · by_cases h : k = k'
      · subst h
        simp [insertEntry, hk]
      · simp [insertEntry, hk, List.lookup_cons, beq_eq_false_iff_ne.2 h, ih]

/-- After a name has been set it has the value, and the other names have theirs. -/
theorem get?_insert {t : Table α} {key k : String} {value : α} :
    (t.insert key value).get? k = if k = key then some value else t.get? k :=
  lookup_insertEntry

/-- The table without `key`; the other names keep their order. -/
def erase (t : Table α) (key : String) : Table α :=
  ⟨t.entries.filter fun e => e.1 ≠ key, t.nodup.sublist (List.filter_sublist.map _)⟩

/-- The table that results from setting the given names one after the other. -/
def ofList (l : List (String × α)) : Table α :=
  l.foldl (fun t e => t.insert e.1 e.2) empty

/-! ## Changing all entries -/

/-- The table with every value changed. -/
def mapValues (f : α → β) (t : Table α) : Table β :=
  ⟨t.entries.map fun e => (e.1, f e.2), by
    simpa [List.map_map, Function.comp_def] using t.nodup⟩

/-- The table with `start` put before every name and every value changed. -/
def qualify (start : String) (f : α → β) (t : Table α) : Table β :=
  ⟨t.entries.map fun e => (start ++ e.1, f e.2), by
    rw [List.map_map]
    have h : (Prod.fst ∘ fun e : String × α => (start ++ e.1, f e.2))
        = (start ++ ·) ∘ Prod.fst := rfl
    rw [h, ← List.map_map]
    exact List.pairwise_map.2
      (t.nodup.imp fun hne heq => hne ((String.append_right_inj start).1 heq))⟩

/-- Qualifying puts `start` before every name. -/
theorem keys_qualify {start : String} {f : α → β} {t : Table α} :
    (t.qualify start f).keys = t.keys.map (start ++ ·) := by
  simp [qualify, keys]

end Table

end ModularGrammar
