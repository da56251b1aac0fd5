import ModularGrammar.Proofs.Naming

/-!
# Runs of a Naming

A naming is asked for the qualifiers of single paths and of lists of paths, in any order and as
often as one likes.  In every state it can get into, paths and qualifiers match one to one, and they
do so for good; a new path takes the first of its candidates that is free, and as many candidates
are looked at as there are taken ones, or fewer, and one more.

## Architecture

1. `Request`, `serve`, `serveAll`: what a naming is asked for, one request and a run
2. `Search`: how a free candidate is found, one look at a time
3. `Consistent`: what holds of a state and of all states that may follow
4. `consistent_serveAll`: every state that can be reached is consistent
-/

namespace ModularGrammar.Naming

/-! ## Requests -/

/-- What a naming can be asked for. -/
inductive Request where
  /-- The qualifier of a path. -/
  | qualifier (path : String)
  /-- The qualifiers of some paths, one after the other. -/
  | registration (paths : List String)
deriving DecidableEq, Repr

/-- The paths a request is about. -/
def Request.paths : Request → List String
  | .qualifier path => [path]
  | .registration paths => paths

/-- The naming after a request. -/
def serve (naming : Naming) : Request → Naming
  | .qualifier path => (naming.qualifierFor path).2
  | .registration paths => naming.register paths

/-- The naming after some requests, one after the other. -/
def serveAll (naming : Naming) (requests : List Request) : Naming :=
  requests.foldl serve naming

section Runs

variable {naming : Naming} {path q : String}

theorem Valid.serve (hvalid : naming.Valid) (request : Request) : (naming.serve request).Valid := by
  cases request with
  | qualifier path => exact hvalid.qualifierFor path
  | registration paths => exact hvalid.register paths

theorem Valid.serveAll (hvalid : naming.Valid) (requests : List Request) :
    (naming.serveAll requests).Valid := by
  induction requests generalizing naming with
  | nil => exact hvalid
  | cons request rest ih => exact ih (hvalid.serve request)

/-- No request takes a qualifier away or changes it. -/
theorem get?_serve_of_get? (request : Request) (h : naming.assigned.get? path = some q) :
    (naming.serve request).assigned.get? path = some q := by
  cases request with
  | qualifier other => exact get?_qualifierFor_of_get? other h
  | registration paths => exact get?_register_of_get? paths h

/-- No run takes a qualifier away or changes it. -/
theorem get?_serveAll_of_get? (requests : List Request) (h : naming.assigned.get? path = some q) :
    (naming.serveAll requests).assigned.get? path = some q := by
  induction requests generalizing naming with
  | nil => exact h
  | cons request rest ih => exact ih (get?_serve_of_get? request h)

end Runs

/-! ## The search -/

/-- The search goes through the candidates of a stem, from the `n`-th on, until one of them has no
owner; `looks` counts the candidates that are looked at, the last one included. -/
inductive Search (naming : Naming) (stem : String) : (n looks : Nat) → String → Prop where
  | free {n : Nat} (h : naming.owners.get? (candidate stem n) = none) :
      Search naming stem n 1 (candidate stem n)
  | taken {n looks : Nat} {owner q : String}
      (h : naming.owners.get? (candidate stem n) = some owner)
      (more : Search naming stem (n + 1) looks q) : Search naming stem n (looks + 1) q

/-- A search passes all candidates with an owner and ends with the first one without. -/
theorem search_of_free {naming : Naming} {stem : String} {n k : Nat} (hle : n ≤ k)
    (hfree : naming.owners.get? (candidate stem k) = none)
    (hpassed : ∀ j, n ≤ j → j < k →
      ∃ owner, naming.owners.get? (candidate stem j) = some owner) :
    Search naming stem n (k - n + 1) (candidate stem k) := by
  induction hd : k - n generalizing n with
  | zero =>
    obtain rfl : n = k := by omega
    exact .free hfree
  | succ d ih =>
    obtain ⟨owner, howner⟩ := hpassed n (Nat.le_refl n) (by omega)
    exact .taken howner
      (ih (by omega) (fun j hj hjk => hpassed j (by omega) hjk) (by omega))

/-- A new path is given the first of its candidates that has no owner. -/
theorem exists_first_free {naming : Naming} {path : String} (hnew : path ∉ naming.assigned.keys) :
    ∃ k ≤ naming.owners.size, (naming.qualifierFor path).1 = candidate (stem path) k ∧
      naming.owners.get? (candidate (stem path) k) = none ∧
      ∀ j < k, ∃ owner, naming.owners.get? (candidate (stem path) j) = some owner := by
  obtain ⟨k, -, heq, hfree, hpassed, hbound⟩ :=
    firstFree_spec (stem path) naming.owners.keys 0
  rw [Nat.zero_add, Table.keys, List.length_map] at hbound
  refine ⟨k, hbound, ?_, Table.get?_eq_none_iff.mpr hfree, ?_⟩
  · rw [qualifierFor, Table.get?_eq_none_iff.mpr hnew]
    exact heq
  · intro j hj
    exact Table.mem_keys_iff.mp (hpassed j (Nat.zero_le j) hj)

/-! ## Consistency -/

/-- What holds of a state of a naming, and of the states that may follow it. -/
structure Consistent (naming : Naming) : Prop where
  /-- Paths have the qualifiers that they own. -/
  inverse : ∀ path q, naming.assigned.get? path = some q ↔ naming.owners.get? q = some path
  /-- A path that has a qualifier is given it, now and later, and nothing changes then. -/
  kept : ∀ path q, naming.assigned.get? path = some q → ∀ requests,
    (naming.serveAll requests).qualifierFor path = (q, naming.serveAll requests)
  /-- A path that is asked for again is given what it was given before. -/
  memoised : ∀ path requests,
    (((naming.qualifierFor path).2.serveAll requests).qualifierFor path).1 =
      (naming.qualifierFor path).1
  /-- What one path is given, no other path is given later. -/
  apart : ∀ path other, path ≠ other → ∀ requests,
    (((naming.qualifierFor path).2.serveAll requests).qualifierFor other).1 ≠
      (naming.qualifierFor path).1
  /-- A new path is given the first of its candidates that has no owner, found in one look more
  than there are owned qualifiers, or fewer. -/
  least : ∀ path, path ∉ naming.assigned.keys → ∃ k,
    (naming.qualifierFor path).1 = candidate (stem path) k ∧
    naming.owners.get? (candidate (stem path) k) = none ∧
    (∀ j < k, ∃ owner, naming.owners.get? (candidate (stem path) j) = some owner) ∧
    ∃ looks ≤ naming.owners.size + 1,
      Search naming (stem path) 0 looks (naming.qualifierFor path).1

theorem Valid.consistent {naming : Naming} (hvalid : naming.Valid) : naming.Consistent := by
  have hkept : ∀ path requests, ((naming.qualifierFor path).2.serveAll requests).assigned.get?
      path = some (naming.qualifierFor path).1 := by
    intro path requests
    exact get?_serveAll_of_get? requests (get?_qualifierFor naming path)
  refine ⟨hvalid.inverse, ?kept, ?memoised, ?apart, ?least⟩
  case kept =>
    intro path q h requests
    exact qualifierFor_of_get? (get?_serveAll_of_get? requests h)
  case memoised =>
    intro path requests
    rw [qualifierFor_of_get? (hkept path requests)]
  case apart =>
    intro path other hne requests heq
    -- in the last state both paths have the one qualifier
    have hlast := ((hvalid.qualifierFor path).serveAll requests).qualifierFor other
    have hpath := get?_qualifierFor_of_get? other (hkept path requests)
    have hother := get?_qualifierFor ((naming.qualifierFor path).2.serveAll requests) other
    rw [heq] at hother
    exact hne (hlast.path_eq hpath hother)
  case least =>
    intro path hnew
    obtain ⟨k, hbound, hqualifier, hfree, hpassed⟩ := exists_first_free hnew
    have hsearch := search_of_free (Nat.zero_le k) hfree fun j _ hj => hpassed j hj
    refine ⟨k, hqualifier, hfree, hpassed, k + 1, by omega, ?_⟩
    rw [hqualifier]
    exact hsearch

/-- Whatever a naming has been asked for, its state is consistent. -/
theorem consistent_serveAll (requests : List Request) : (empty.serveAll requests).Consistent :=
  (valid_empty.serveAll requests).consistent

/-- A numbered candidate of one path may be the plain one of another, which then has it already. -/
example :
    (empty.serveAll [.qualifier "a/b", .registration ["a/b/1", "a-b"]]).assigned.entries =
      [("a/b", "a$b__"), ("a/b/1", "a$b$1__"), ("a-b", "a$b$2__")] := by
  decide +kernel

end ModularGrammar.Naming
