import ModularGrammar.Table

/-!
# Laws of Tables

Lookup against membership, and what becomes of the entries when names are set.

## Architecture

1. Lookup: a name has at most one value, and it has one exactly if it is a name of the table
2. Setting: a new name goes last; of several values set for one name the last one counts
-/

namespace ModularGrammar

universe u v

/-- Looking up a name among computed pairs is finding the first thing that gives the name. -/
theorem lookup_map_pair {ι : Type u} {α : Type v} (name : ι → String) (value : ι → α) (l : List ι)
    (key : String) :
    (l.map fun i => (name i, value i)).lookup key =
      (l.find? fun i => decide (name i = key)).map value := by
  induction l with
  | nil => rfl
  | cons i rest ih =>
    -- the head either gives the name or is passed over by both searches
    by_cases hi : name i = key
    · simp [hi]
    · have hne : (key == name i) = false := beq_eq_false_iff_ne.mpr (Ne.symm hi)
      simp only [List.map_cons, List.lookup_cons, hne, ih]
      simp [hi]

namespace Table

variable {α : Type u} {t : Table α} {key : String} {value : α}

/-! ## Lookup -/

theorem ext_entries {s t : Table α} (h : s.entries = t.entries) : s = t := by
  cases s
  cases t
  cases h
  rfl

/-- A name has the value that stands beside it. -/
theorem get?_eq_some_iff : t.get? key = some value ↔ (key, value) ∈ t.entries := by
  constructor
  · intro h
    obtain ⟨front, back, hsplit, -⟩ := List.lookup_eq_some_iff.mp h
    rw [hsplit]
    exact List.mem_append_right _ (List.mem_cons_self ..)
  · intro h
    obtain ⟨front, back, hsplit⟩ := List.append_of_mem h
    refine List.lookup_eq_some_iff.mpr ⟨front, back, hsplit, fun p hp => ?_⟩
    -- a second entry under the name would make the names repeat
    have hnodup := t.nodup
    rw [hsplit, List.map_append, List.nodup_append] at hnodup
    have hne : p.1 ≠ key :=
      hnodup.2.2 p.1 (List.mem_map_of_mem hp) key (by simp)
    exact bne_iff_ne.mpr (Ne.symm hne)

/-- Only the names of a table have values. -/
theorem get?_eq_none_iff : t.get? key = none ↔ key ∉ t.keys := by
  constructor
  · intro h hmem
    obtain ⟨e, he, rfl⟩ := List.mem_map.mp hmem
    have hsome : t.get? e.1 = some e.2 := get?_eq_some_iff.mpr he
    rw [h] at hsome
    cases hsome
  · intro h
    cases hget : t.get? key with
    | none => rfl
    | some v => exact absurd (mem_keys_of_get? hget) h

theorem mem_keys_iff : key ∈ t.keys ↔ ∃ value, t.get? key = some value := by
  constructor
  · intro h
    cases hget : t.get? key with
    | none => exact absurd h (get?_eq_none_iff.mp hget)
    | some v => exact ⟨v, rfl⟩
  · rintro ⟨v, hv⟩
    exact mem_keys_of_get? hv

theorem contains_iff_mem_keys : t.contains key = true ↔ key ∈ t.keys := by
  rw [contains, Option.isSome_iff_exists, mem_keys_iff]

theorem mem_keys_of_mem_entries (h : (key, value) ∈ t.entries) : key ∈ t.keys :=
  List.mem_map.mpr ⟨_, h, rfl⟩

theorem eq_empty_of_isEmpty (h : t.isEmpty = true) : empty = t :=
  ext_entries (List.isEmpty_iff.mp h).symm

theorem get?_mapValues {β : Type v} (f : α → β) :
    (t.mapValues f).get? key = (t.get? key).map f := by
  apply Option.ext
  intro value
  simp only [Option.map_eq_some_iff, get?_eq_some_iff, mapValues, List.mem_map, Prod.mk.injEq,
    Prod.exists]
  constructor
  · rintro ⟨_, a, h, rfl, rfl⟩
    exact ⟨a, h, rfl⟩
  · rintro ⟨a, h, rfl⟩
    exact ⟨key, a, h, rfl, rfl⟩

/-! ## Setting -/

private theorem insertEntry_of_notMem {l : List (String × α)} (h : key ∉ l.map Prod.fst) :
    insertEntry key value l = l ++ [(key, value)] := by
  induction l with
  | nil => rfl
  | cons e rest ih =>
    rw [List.map_cons, List.mem_cons, not_or] at h
    rw [insertEntry, if_neg (Ne.symm h.1), ih h.2]
    rfl

/-- A new name goes last. -/
theorem entries_insert_of_notMem (value : α) (h : key ∉ t.keys) :
    (t.insert key value).entries = t.entries ++ [(key, value)] :=
  insertEntry_of_notMem h

private theorem entries_foldl_insert {l : List (String × α)}
    (h : ((t.entries ++ l).map Prod.fst).Nodup) :
    (l.foldl (fun t e => t.insert e.1 e.2) t).entries = t.entries ++ l := by
  induction l generalizing t with
  | nil => simp
  | cons e rest ih =>
    have hnew : e.1 ∉ t.keys := by
      rw [List.map_append, List.nodup_append] at h
      intro hmem
      exact h.2.2 e.1 hmem e.1 (by simp) rfl
    have hinsert : (t.insert e.1 e.2).entries = t.entries ++ [e] :=
      entries_insert_of_notMem e.2 hnew
    rw [← List.singleton_append, ← List.append_assoc, ← hinsert] at h
    rw [List.foldl_cons, ih h, hinsert, List.append_assoc, List.singleton_append]

/-- Setting different names gives just what is set. -/
theorem entries_ofList {l : List (String × α)} (h : (l.map Prod.fst).Nodup) :
    (ofList l).entries = l :=
  entries_foldl_insert h

/-- Setting the entries of a table in their order gives the table. -/
theorem ofList_entries (t : Table α) : ofList t.entries = t :=
  ext_entries (entries_ofList t.nodup)

private theorem get?_foldl_insert (l : List (String × α)) (t : Table α) :
    (l.foldl (fun t e => t.insert e.1 e.2) t).get? key =
      (l.reverse.lookup key).or (t.get? key) := by
  induction l generalizing t with
  | nil => rfl
  | cons e rest ih =>
    obtain ⟨k, v⟩ := e
    -- what is set later stands earlier in the reversed list, so the rest is looked up first
    rw [List.foldl_cons, ih, get?_insert, List.reverse_cons, List.lookup_append]
    by_cases hk : key = k
    · subst hk
      cases rest.reverse.lookup key <;> simp
    · have hne : (key == k) = false := beq_eq_false_iff_ne.mpr hk
      simp [hk, hne, List.lookup_cons]

/-- Of several values set for one name the last one counts. -/
theorem get?_ofList (l : List (String × α)) : (ofList l).get? key = l.reverse.lookup key := by
  rw [ofList, get?_foldl_insert]
  cases l.reverse.lookup key <;> rfl

/-- The value of a name among computed pairs comes from the last thing that gives the name. -/
theorem get?_ofList_map {ι : Type v} (name : ι → String) (value : ι → α) (l : List ι) :
    (ofList (l.map fun i => (name i, value i))).get? key =
      (l.reverse.find? fun i => decide (name i = key)).map value := by
  rw [get?_ofList, ← List.map_reverse, lookup_map_pair]

end Table

end ModularGrammar
