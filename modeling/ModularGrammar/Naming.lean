import ModularGrammar.Decimal
import ModularGrammar.Table

/-!
# Qualifiers

Every module gets a qualifier, which is put before all names it defines.  The qualifier of a path is
the path with every character that cannot stand in an identifier replaced by `$`, followed by two
underscores.  Where paths become equal in this way, those that come later get `$1`, `$2`, … before
the underscores.

A `Naming` remembers the qualifiers given so far, so a path keeps its qualifier.
-/

namespace ModularGrammar

/-! ## Candidates -/

namespace Naming

/-- A character that can stand in an identifier. -/
def inIdentifier (c : Char) : Bool := c.isAlphanum || c == '_'

/-- The path with `$` for every character that cannot stand in an identifier. -/
def stem (path : String) : String :=
  String.ofList (path.toList.map fun c => if inIdentifier c then c else '$')

/-- The qualifiers a stem can have, in the order in which they are tried. -/
def candidate (stem : String) : Nat → String
  | 0 => stem ++ "__"
  | n + 1 => stem ++ "$" ++ String.ofList (Decimal.writeNat (n + 1)) ++ "__"

/-- The first candidate from the `n`-th on that is not taken.  A candidate that is taken needs no
more attention later, so the search ends with the taken ones. -/
def firstFree (stem : String) (taken : List String) (n : Nat) : String :=
  if _h : candidate stem n ∈ taken then
    firstFree stem (taken.erase (candidate stem n)) (n + 1)
  else candidate stem n
termination_by taken.length
decreasing_by
  rw [List.length_erase_of_mem _h]
  exact Nat.sub_lt (List.length_pos_of_mem _h) (by decide)

end Naming

/-! ## Assignment -/

/-- The qualifiers given so far. -/
structure Naming where
  /-- From paths to qualifiers, in the order in which they were given. -/
  assigned : Table String := .empty
  /-- From qualifiers to the paths they belong to. -/
  owners : Table String := .empty
deriving DecidableEq, Inhabited

namespace Naming

def empty : Naming := {}

/-- The qualifier of a path, which is given to it now if it has none. -/
def qualifierFor (naming : Naming) (path : String) : String × Naming :=
  match naming.assigned.get? path with
  | some qualifier => (qualifier, naming)
  | none =>
    let qualifier := firstFree (stem path) naming.owners.keys 0
    (qualifier, ⟨naming.assigned.insert path qualifier, naming.owners.insert qualifier path⟩)

/-- Gives qualifiers to all paths, in the given order. -/
def register (naming : Naming) (paths : List String) : Naming :=
  paths.foldl (fun naming path => (naming.qualifierFor path).2) naming

end Naming

end ModularGrammar
