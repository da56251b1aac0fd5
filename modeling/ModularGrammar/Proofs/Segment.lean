import ModularGrammar.Text.Segment

/-!
# Laws of Segments

Cutting undoes gluing as long as no part holds the separator, and gluing always undoes cutting, so
a text and its parts determine each other.  Gluing is the usual intercalation.  Of two beginnings of
one text one goes on into the other.
-/

namespace ModularGrammar.Text

variable {sep : Char}

/-! ## Lists of characters -/

/-- No part holds the separator. -/
theorem notMem_of_mem_splitChars {cs part : List Char} (h : part ∈ splitChars sep cs) :
    sep ∉ part := by
  induction cs generalizing part with
  | nil =>
    rw [splitChars, List.mem_singleton] at h
    rw [h]
    exact List.not_mem_nil
  | cons c cs ih =>
    rw [splitChars] at h
    split at h
    · -- a separator: an empty part comes first
      rcases List.mem_cons.mp h with rfl | hrest
      · exact List.not_mem_nil
      · exact ih hrest
    · -- any other character goes to the front of the first part
      next hc =>
      split at h
      · rw [List.mem_singleton] at h
        rw [h, List.mem_singleton]
        exact Ne.symm hc
      · next first others hsplit =>
        rw [hsplit] at ih
        rcases List.mem_cons.mp h with rfl | hrest
        · rw [List.mem_cons, not_or]
          exact ⟨Ne.symm hc, ih (List.mem_cons_self ..)⟩
        · exact ih (List.mem_cons_of_mem _ hrest)

/-- A separator cuts a text whatever stands on both sides of it. -/
theorem splitChars_append_separator (front rest : List Char) :
    splitChars sep (front ++ sep :: rest) = splitChars sep front ++ splitChars sep rest := by
  induction front with
  | nil => simp [splitChars]
  | cons c front ih =>
    rw [List.cons_append, splitChars, splitChars]
    split
    · rw [ih, List.cons_append]
    · -- the first part of the front has one character more, also behind it
      cases hfront : splitChars sep front with
      | nil => exact absurd hfront (splitChars_ne_nil sep front)
      | cons first others => rw [ih, hfront, List.cons_append, List.cons_append]

theorem splitChars_of_notMem {cs : List Char} (h : sep ∉ cs) : splitChars sep cs = [cs] := by
  induction cs with
  | nil => rfl
  | cons c cs ih =>
    rw [List.mem_cons, not_or] at h
    rw [splitChars, if_neg (Ne.symm h.1), ih h.2]

theorem splitChars_append_cons {part rest : List Char} (h : sep ∉ part) :
    splitChars sep (part ++ sep :: rest) = part :: splitChars sep rest := by
  rw [splitChars_append_separator, splitChars_of_notMem h, List.singleton_append]

/-- Cutting undoes gluing. -/
theorem splitChars_joinChars {parts : List (List Char)} (hne : parts ≠ [])
    (h : ∀ part ∈ parts, sep ∉ part) : splitChars sep (joinChars [sep] parts) = parts := by
  induction parts with
  | nil => exact absurd rfl hne
  | cons part parts ih =>
    have hpart : sep ∉ part := h part (List.mem_cons_self ..)
    cases parts with
    | nil => exact splitChars_of_notMem hpart
    | cons next others =>
      -- the first separator of the glued text is the one that was put after `part`
      have hrest := ih (List.cons_ne_nil _ _) fun p hp => h p (List.mem_cons_of_mem _ hp)
      show splitChars sep (part ++ [sep] ++ joinChars [sep] (next :: others)) = _
      rw [List.append_assoc, List.singleton_append, splitChars_append_cons hpart, hrest]

theorem joinChars_eq_intercalate (sep : List Char) (parts : List (List Char)) :
    joinChars sep parts = sep.intercalate parts := by
  induction parts with
  | nil => rfl
  | cons part parts ih =>
    cases parts with
    | nil => simp [joinChars]
    | cons next others =>
      rw [List.intercalate_cons_cons, ← ih]
      rfl

/-! ## Strings -/

theorem join_eq_intercalate (sep : String) (parts : List String) :
    join sep parts = sep.intercalate parts := by
  apply String.toList_inj.mp
  rw [join, String.toList_ofList, joinChars_eq_intercalate, String.toList_intercalate]

/-- Two parts or more leave at least what separates them. -/
theorem join_ne_empty {sep : String} (hsep : sep ≠ "") (first second : String)
    (rest : List String) : join sep (first :: second :: rest) ≠ "" := by
  intro h
  rw [join_eq_intercalate, String.intercalate_cons_cons] at h
  simp [String.append_eq_empty_iff, hsep] at h

theorem split_ne_nil (sep : Char) (s : String) : split sep s ≠ [] := by
  intro h
  exact splitChars_ne_nil sep s.toList (List.map_eq_nil_iff.mp h)

/-- No part holds the separator. -/
theorem notMem_of_mem_split {s part : String} (h : part ∈ split sep s) : sep ∉ part.toList := by
  obtain ⟨cs, hcs, rfl⟩ := List.mem_map.mp h
  rw [String.toList_ofList]
  exact notMem_of_mem_splitChars hcs

/-- Cutting undoes gluing as long as no part holds the separator. -/
theorem split_join_singleton {parts : List String} (hne : parts ≠ [])
    (h : ∀ part ∈ parts, sep ∉ part.toList) :
    split sep (join (String.singleton sep) parts) = parts := by
  have hparts : ∀ part ∈ parts.map String.toList, sep ∉ part := by
    intro part hpart
    obtain ⟨s, hs, rfl⟩ := List.mem_map.mp hpart
    exact h s hs
  have hchars : splitChars sep (joinChars [sep] (parts.map String.toList)) =
      parts.map String.toList :=
    splitChars_joinChars (fun hnil => hne (List.map_eq_nil_iff.mp hnil)) hparts
  -- strings are glued and cut by way of their characters
  rw [split, join, String.toList_ofList, String.toList_singleton, hchars, List.map_map]
  simp [Function.comp_def]

/-- Cutting at spaces undoes gluing with spaces. -/
theorem split_join {parts : List String} (hne : parts ≠ [])
    (h : ∀ part ∈ parts, ' ' ∉ part.toList) : split ' ' (join " " parts) = parts :=
  split_join_singleton hne h

/-- A separator cuts a string whatever stands on both sides of it. -/
theorem split_append_separator (front rest : String) :
    split sep (front ++ String.singleton sep ++ rest) = split sep front ++ split sep rest := by
  rw [split, String.toList_append, String.toList_append, String.toList_singleton,
    List.append_assoc, List.singleton_append, splitChars_append_separator, List.map_append]
  rfl

theorem split_of_notMem {s : String} (h : sep ∉ s.toList) : split sep s = [s] := by
  rw [split, splitChars_of_notMem h, List.map_singleton, String.ofList_toList]

/-- A string with a separator in it has a last one. -/
theorem exists_append_last {s : String} (h : sep ∈ s.toList) :
    ∃ front last, s = front ++ String.singleton sep ++ last ∧ sep ∉ last.toList := by
  obtain ⟨last, front, hs, hlast⟩ := List.eq_append_cons_of_mem (List.mem_reverse.mpr h)
  refine ⟨String.ofList front.reverse, String.ofList last.reverse, ?_, ?_⟩
  · apply String.toList_inj.mp
    rw [← List.reverse_reverse s.toList, hs]
    simp
  · rw [String.toList_ofList, List.mem_reverse]
    exact hlast

/-- What is glued last stands at the end. -/
theorem join_concat {sep : String} {parts : List String} (hne : parts ≠ []) (last : String) :
    join sep (parts ++ [last]) = join sep parts ++ sep ++ last := by
  simp only [join_eq_intercalate]
  induction parts with
  | nil => exact absurd rfl hne
  | cons part parts ih =>
    cases parts with
    | nil => simp [String.intercalate_cons_cons]
    | cons next others =>
      rw [List.cons_append, List.cons_append, String.intercalate_cons_cons, ← List.cons_append,
        ih (List.cons_ne_nil _ _), String.intercalate_cons_cons]
      simp only [String.append_assoc]

/-! ## Known beginnings -/

theorem dropStart?_append (start rest : List Char) :
    dropStart? start (start ++ rest) = some rest :=
  dropStart?_eq_some_iff.mpr rfl

theorem dropStart?_eq_none_iff {start cs : List Char} :
    dropStart? start cs = none ↔ ¬ start <+: cs := by
  rw [Option.eq_none_iff_forall_ne_some]
  simp only [ne_eq, dropStart?_eq_some_iff]
  constructor
  · rintro h ⟨rest, rfl⟩
    exact h rest rfl
  · rintro h rest rfl
    exact h (List.prefix_append start rest)

/-- A beginning in two parts comes off part by part. -/
theorem dropStart?_append_start (start more cs : List Char) :
    dropStart? (start ++ more) cs = (dropStart? start cs).bind (dropStart? more) := by
  apply Option.ext
  intro rest
  simp [Option.bind_eq_some_iff, dropStart?_eq_some_iff]

theorem begins_iff {start s : String} : begins start s = true ↔ ∃ rest, s = start ++ rest := by
  simp only [begins, Option.isSome_iff_exists, dropStart?_eq_some_iff]
  constructor
  · rintro ⟨rest, hrest⟩
    refine ⟨String.ofList rest, String.toList_inj.mp ?_⟩
    simpa using hrest
  · rintro ⟨rest, rfl⟩
    exact ⟨rest.toList, String.toList_append⟩

/-- Two strings put together alike in two ways: one of the first halves goes on into the other. -/
theorem append_eq_append_cases {a b c d : String} (h : a ++ b = c ++ d) :
    (∃ part, c = a ++ part ∧ b = part ++ d) ∨ ∃ part, a = c ++ part ∧ d = part ++ b := by
  have hchars := congrArg String.toList h
  rw [String.toList_append, String.toList_append] at hchars
  rcases List.append_eq_append_iff.mp hchars with ⟨part, hc, hb⟩ | ⟨part, ha, hd⟩
  · refine Or.inl ⟨String.ofList part, ?_, ?_⟩
    · apply String.toList_inj.mp
      simpa using hc
    · apply String.toList_inj.mp
      simpa using hb
  · refine Or.inr ⟨String.ofList part, ?_, ?_⟩
    · apply String.toList_inj.mp
      simpa using ha
    · apply String.toList_inj.mp
      simpa using hd

end ModularGrammar.Text
