/-!
# Precedence

Operator precedence is declared token group by token group.  A declaration has a priority of its
own, unrelated to the priority of the module it stands in; the table of a parser lists one row for
each priority, lowest first.

## Architecture

1. `Associativity` and its spelling
2. `Precedence`: one declaration; `PrecedenceRow`: one row of the table
3. `Precedence.mergeRows`: from declarations to the table
-/

namespace ModularGrammar

/-! ## Associativity -/

/-- How a chain of equal operators groups. -/
inductive Associativity where
  | left
  | nonassoc
  | right
deriving DecidableEq, Repr, Inhabited

namespace Associativity

def name : Associativity → String
  | .left => "left"
  | .nonassoc => "nonassoc"
  | .right => "right"

def ofName? (word : String) : Option Associativity :=
  [left, nonassoc, right].find? fun a => a.name == word

/-- A word is read as the associativity it is the name of. -/
theorem ofName?_eq_some_iff {word : String} {a : Associativity} :
    ofName? word = some a ↔ word = a.name := by
  constructor
  · intro h
    have := List.find?_some h
    simp only [beq_iff_eq] at this
    exact this.symm
  · rintro rfl
    cases a <;> decide

/-- The place of an associativity among declarations of equal priority. -/
def rank : Associativity → Nat
  | .left => 0
  | .nonassoc => 1
  | .right => 2

end Associativity

/-! ## Declarations and rows -/

/-- Some tokens with their associativity, at a priority among all such declarations. -/
structure Precedence where
  priority : Int64
  associativity : Associativity
  tokens : List String
deriving DecidableEq, Inhabited

/-- One row of a precedence table. -/
structure PrecedenceRow where
  associativity : Associativity
  tokens : List String
deriving DecidableEq, Inhabited

namespace PrecedenceRow

/-- A row as a list of words: the associativity, then the tokens. -/
def words (row : PrecedenceRow) : List String :=
  row.associativity.name :: row.tokens

def ofWords? : List String → Option PrecedenceRow
  | [] => none
  | word :: tokens => (Associativity.ofName? word).map fun a => ⟨a, tokens⟩

/-- A row is read back from its words. -/
theorem ofWords?_words (row : PrecedenceRow) : ofWords? row.words = some row := by
  simp [ofWords?, words, Associativity.ofName?_eq_some_iff.2 rfl]

end PrecedenceRow

/-! ## The table -/

namespace Precedence

/-- Lower priority comes first, and left before nonassoc before right at one priority. -/
def before (a b : Precedence) : Bool :=
  decide (a.priority < b.priority) ||
    (decide (a.priority = b.priority) && decide (a.associativity.rank ≤ b.associativity.rank))

/-- Puts a declaration in front of rows tagged with their priority.  It opens the first row if that
has its priority, and then decides the associativity of the row. -/
def addInFront (d : Precedence) : List (Int64 × PrecedenceRow) → List (Int64 × PrecedenceRow)
  | [] => [(d.priority, ⟨d.associativity, d.tokens⟩)]
  | (p, row) :: rows =>
    if p = d.priority then (p, ⟨d.associativity, d.tokens ++ row.tokens⟩) :: rows
    else (d.priority, ⟨d.associativity, d.tokens⟩) :: (p, row) :: rows

/-- The table of the given declarations: sorted, declarations of equal rank in the order given, with
one row for each priority. -/
def mergeRows (declarations : List Precedence) : List PrecedenceRow :=
  ((declarations.mergeSort before).foldr addInFront []).map Prod.snd

end Precedence

end ModularGrammar
