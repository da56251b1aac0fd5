/-!
# Decimal integers

Reading and writing decimal numbers.  A signed integer may carry one sign, `+` or `-`, directly
before its digits, an unsigned one only `+`; only the digits `0` to `9` count, and values outside
the 64-bit range are refused.
-/

namespace ModularGrammar.Decimal

/-! ## Reading -/

/-- The value of a list of digits, most significant first. -/
def value (digits : List Char) : Nat :=
  digits.foldl (fun n c => 10 * n + (c.toNat - '0'.toNat)) 0

/-- The number a non-empty run of digits stands for. -/
def readNat? (cs : List Char) : Option Nat :=
  if cs.isEmpty then none
  else if cs.all Char.isDigit then some (value cs) else none

/-- The natural number below 2^64 a text stands for: digits, with or without a plus sign. -/
def readNat64? (cs : List Char) : Option Nat :=
  let digits := if cs.head? = some '+' then cs.tail else cs
  (readNat? digits).filter fun n => decide (n < Nat.pow 2 64)

/-- The integer in 64-bit range. -/
def toInt64? (i : Int) : Option Int64 :=
  if Int64.minValue.toInt ≤ i ∧ i ≤ Int64.maxValue.toInt then some (Int64.ofInt i) else none

/-- The signed 64-bit integer a text stands for: an optional sign and digits, nothing else. -/
def readInt64? (cs : List Char) : Option Int64 :=
  match cs with
  | '-' :: digits => (readNat? digits).bind fun n => toInt64? (-(n : Int))
  | '+' :: digits => (readNat? digits).bind fun n => toInt64? n
  | digits => (readNat? digits).bind fun n => toInt64? n

/-! ## Writing -/

/-- The digits of a natural number, without leading zeros. -/
def writeNat (n : Nat) : List Char :=
  Nat.toDigits 10 n

/-- An integer in decimal, with a minus sign if it is negative. -/
def writeInt (i : Int) : List Char :=
  if i < 0 then '-' :: writeNat i.natAbs else writeNat i.natAbs

def int64 (n : Int64) : String :=
  String.ofList (writeInt n.toInt)

end ModularGrammar.Decimal
