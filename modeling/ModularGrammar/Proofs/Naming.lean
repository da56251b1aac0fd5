import ModularGrammar.Naming
import ModularGrammar.Proofs.Table

/-!
# Laws of Qualifiers

In every state of a naming different paths have different qualifiers, a path that has been asked
for keeps the one it got, and each qualifier is one of the candidates of its path.

## Architecture

1. `candidate`, `firstFree`: the search takes the first candidate that is free
2. `Valid`: what holds of a naming whatever has been asked for, one step and a whole run
3. `register`: every path of a list has a qualifier afterwards
-/

namespace ModularGrammar.Naming

/-! ## Candidates -/

theorem writeNat_injective : Function.Injective Decimal.writeNat := by
  intro a b h
  have hvalue := congrArg (fun digits => Nat.ofDigitChars 10 digits 0) h
  simpa [Decimal.writeNat] using hvalue

/-- Distinct places in the search have distinct candidates. -/
theorem candidate_injective (stem : String) : Function.Injective (candidate stem) := by
  -- a numbered candidate is longer than the plain one
  have hlength : ∀ n, candidate stem 0 ≠ candidate stem (n + 1) := by
    intro n h
    have hchars := congrArg String.length h
    simp only [candidate, String.length_append] at hchars
    have hdollar : "$".length = 1 := rfl
    omega
  intro a b h
  match a, b with
  | 0, 0 => rfl
  | 0, b + 1 => exact absurd h (hlength b)
  | a + 1, 0 => exact absurd h.symm (hlength a)
  | a + 1, b + 1 =>
    -- stem and ending agree, which leaves the digits
    have hchars := congrArg String.toList h
    simp only [candidate, String.toList_append, String.toList_ofList, List.append_assoc,
      List.append_cancel_left_eq, List.append_cancel_right_eq] at hchars
    exact writeNat_injective hchars

theorem candidate_ne_empty (stem : String) (k : Nat) : candidate stem k ≠ "" := by
  intro h
  have hchars := congrArg String.toList h
  cases k <;> simp [candidate] at hchars

/-- Characters that cannot stand in an identifier, other than the one put in their place, do not
come into a stem. -/
theorem notMem_stem {c : Char} (hother : inIdentifier c = false) (hdollar : c ≠ '$')
    (path : String) : c ∉ (stem path).toList := by
  rw [stem, String.toList_ofList]
  intro h
  obtain ⟨d, -, hd⟩ := List.mem_map.mp h
  split at hd
  · next hid =>
    rw [hd, hother] at hid
    cases hid
  · exact hdollar hd.symm

/-- The same holds of candidates, which add identifier characters only. -/
theorem notMem_candidate {c : Char} (hother : inIdentifier c = false) (hdollar : c ≠ '$')
    (path : String) (k : Nat) : c ∉ (candidate (stem path) k).toList := by
  have hstem := notMem_stem hother hdollar path
  have hunderscore : c ≠ '_' := by
    rintro rfl
    cases hother
  cases k with
  | zero => simp [candidate, hstem, hunderscore]
  | succ n =>
    have hdigits : c ∉ Decimal.writeNat (n + 1) := by
      intro h
      have hdigit : c.isDigit = true := Nat.isDigit_of_mem_toDigits (by decide) (by decide) h
      simp [inIdentifier, Char.isAlphanum, hdigit] at hother
    simp [candidate, hstem, hdigits, hdollar, hunderscore]

/-- The search finds the first candidate that is free, after passing taken ones only, and each of
those is met once. -/
theorem firstFree_spec (stem : String) (taken : List String) (n : Nat) :
    ∃ k, n ≤ k ∧ firstFree stem taken n = candidate stem k ∧ candidate stem k ∉ taken ∧
      (∀ j, n ≤ j → j < k → candidate stem j ∈ taken) ∧ k ≤ n + taken.length := by
  fun_induction firstFree stem taken n with
  | case1 taken n htaken ih =>
    obtain ⟨k, hle, heq, hfree, hpassed, hbound⟩ := ih
    -- the candidate found later is another one, so striking out this one does not touch it
    have hne : candidate stem k ≠ candidate stem n := by
      intro h
      have := candidate_injective stem h
      omega
    refine ⟨k, by omega, heq, fun h => hfree ((List.mem_erase_of_ne hne).mpr h), ?_, ?_⟩
    · intro j hj hjk
      rcases Nat.eq_or_lt_of_le hj with rfl | hlt
      · exact htaken
      · exact List.mem_of_mem_erase (hpassed j hlt hjk)
    · have hpos := List.length_pos_of_mem htaken
      rw [List.length_erase_of_mem htaken] at hbound
      omega
  | case2 taken n hfree =>
    exact ⟨n, Nat.le_refl n, rfl, hfree, fun j hj hjn => absurd hj (by omega), by omega⟩

/-! ## States -/

/-- What holds of a naming whatever it has been asked for. -/
structure Valid (naming : Naming) : Prop where
  /-- A path has a qualifier exactly if the qualifier belongs to the path. -/
  inverse : ∀ path q, naming.assigned.get? path = some q ↔ naming.owners.get? q = some path
  /-- A qualifier is a candidate of its path. -/
  formed : ∀ path q, naming.assigned.get? path = some q → ∃ k, q = candidate (stem path) k

theorem valid_empty : Valid empty where
  inverse := by
    intro path q
    exact iff_of_false (fun h => by cases h) (fun h => by cases h)
  formed := by
    intro path q h
    cases h

/-- A path that has a qualifier gets it again, and nothing changes. -/
theorem qualifierFor_of_get? {naming : Naming} {path q : String}
    (h : naming.assigned.get? path = some q) : naming.qualifierFor path = (q, naming) := by
  rw [qualifierFor, h]

theorem get?_qualifierFor (naming : Naming) (path : String) :
    (naming.qualifierFor path).2.assigned.get? path = some (naming.qualifierFor path).1 := by
  rw [qualifierFor]
  split
  · next h => exact h
  · simp [Table.get?_insert]

/-- Asking takes no qualifier away and changes none. -/
theorem get?_qualifierFor_of_get? {naming : Naming} {path q : String} (other : String)
    (h : naming.assigned.get? path = some q) :
    (naming.qualifierFor other).2.assigned.get? path = some q := by
  rw [qualifierFor]
  split
  · exact h
  · next hnone =>
    have hne : path ≠ other := by
      rintro rfl
      rw [h] at hnone
      cases hnone
    simp [Table.get?_insert, hne, h]

/-- The qualifier of a new path belongs to no path yet. -/
theorem get?_owners_firstFree (naming : Naming) (stem : String) :
    naming.owners.get? (firstFree stem naming.owners.keys 0) = none := by
  obtain ⟨k, -, heq, hfree, -, -⟩ := firstFree_spec stem naming.owners.keys 0
  rw [heq]
  exact Table.get?_eq_none_iff.mpr hfree

/-- A step keeps a naming valid. -/
theorem Valid.qualifierFor {naming : Naming} (hvalid : naming.Valid) (path : String) :
    (naming.qualifierFor path).2.Valid := by
  rw [Naming.qualifierFor]
  split
  · exact hvalid
  · -- a new path: its qualifier belongs to no other path, and is a candidate of its stem
    next hnone =>
    have hfree := get?_owners_firstFree naming (stem path)
    obtain ⟨k, -, heq, -, -, -⟩ := firstFree_spec (stem path) naming.owners.keys 0
    constructor
    · intro other q
      simp only [Table.get?_insert]
      have hother := hvalid.inverse other q
      by_cases hpath : other = path <;>
        by_cases hq : q = firstFree (stem path) naming.owners.keys 0
      · simp [hpath, hq]
      · -- what belongs to the new path already would be its qualifier already
        subst hpath
        rw [hnone] at hother
        simpa [hq, Ne.symm hq] using hother
      · subst hq
        rw [hfree] at hother
        simpa [hpath, Ne.symm hpath] using hother
      · simpa [hpath, hq] using hother
    · intro other q h
      rw [Table.get?_insert] at h
      split at h
      · next hother =>
        cases h
        rw [hother]
        exact ⟨k, heq⟩
      · exact hvalid.formed other q h

/-- Only one path has a given qualifier. -/
theorem Valid.path_eq {naming : Naming} (hvalid : naming.Valid) {path other q : String}
    (hpath : naming.assigned.get? path = some q) (hother : naming.assigned.get? other = some q) :
    path = other := by
  have howner := (hvalid.inverse path q).mp hpath
  rw [(hvalid.inverse other q).mp hother] at howner
  exact (Option.some.inj howner).symm

/-! ## Runs -/

theorem Valid.register {naming : Naming} (hvalid : naming.Valid) (paths : List String) :
    (naming.register paths).Valid := by
  induction paths generalizing naming with
  | nil => exact hvalid
  | cons path rest ih => exact ih (hvalid.qualifierFor path)

/-- Registering paths takes no qualifier away and changes none. -/
theorem get?_register_of_get? {naming : Naming} {path q : String} (paths : List String)
    (h : naming.assigned.get? path = some q) :
    (naming.register paths).assigned.get? path = some q := by
  induction paths generalizing naming with
  | nil => exact h
  | cons other rest ih => exact ih (get?_qualifierFor_of_get? other h)

/-- Every path that is registered has a qualifier. -/
theorem exists_get?_register {paths : List String} {path : String} (naming : Naming)
    (h : path ∈ paths) : ∃ q, (naming.register paths).assigned.get? path = some q := by
  induction paths generalizing naming with
  | nil => cases h
  | cons other rest ih =>
    rcases List.mem_cons.mp h with rfl | hrest
    · -- registered now, and not taken away by what follows
      exact ⟨_, get?_register_of_get? rest (get?_qualifierFor naming path)⟩
    · exact ih _ hrest

end ModularGrammar.Naming
