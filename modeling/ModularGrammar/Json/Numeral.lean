import ModularGrammar.Decimal

/-!
# Numerals

A number in a JSON text, kept as it is spelled.  Documents use natural numbers only; of any other
number a reader may need to know whether a double-precision float can hold it.

A numeral is measured by its leading digits, as many as fit 64 bits, and a power of ten.  It is too
large if the product of both, each rounded to 53 significant bits, lies beyond the largest double.
-/

namespace ModularGrammar

/-- The exponent part of a numeral. -/
structure Exponent where
  /-- `e` or `E`. -/
  letter : Char
  /-- `+` or `-`, if written. -/
  sign : Option Char
  digits : List Char
deriving DecidableEq, Repr

/-- The spelling of a number. -/
structure Numeral where
  negative : Bool
  /-- The digits before the point. -/
  whole : List Char
  /-- The digits after the point, if there is one. -/
  fraction : Option (List Char)
  exponent : Option Exponent
deriving DecidableEq, Repr

namespace Numeral

/-! ## Reading and writing -/

/-- The run of digits at the front of a text, and the rest. -/
def spanDigits (cs : List Char) : List Char × List Char :=
  (cs.takeWhile Char.isDigit, cs.dropWhile Char.isDigit)

/-- The digits before the point: a lone zero, or a run that does not start with zero. -/
def readWhole? : List Char → Option (List Char × List Char)
  | '0' :: rest => some (['0'], rest)
  | c :: rest =>
    if c.isDigit then
      let (digits, after) := spanDigits rest
      some (c :: digits, after)
    else none
  | [] => none

/-- A point with at least one digit, if the text begins with one. -/
def readFraction : List Char → Option (List Char) × List Char
  | '.' :: rest =>
    match spanDigits rest with
    | ([], _) => (none, '.' :: rest)
    | (digits, after) => (some digits, after)
  | cs => (none, cs)

/-- The sign of an exponent, if the text begins with one. -/
def readSign : List Char → Option Char × List Char
  | c :: rest => if c = '+' ∨ c = '-' then (some c, rest) else (none, c :: rest)
  | [] => (none, [])

/-- An exponent with at least one digit, if the text begins with one. -/
def readExponent : List Char → Option Exponent × List Char
  | c :: rest =>
    if c = 'e' ∨ c = 'E' then
      let (sign, rest') := readSign rest
      match spanDigits rest' with
      | ([], _) => (none, c :: rest)
      | (digits, after) => (some ⟨c, sign, digits⟩, after)
    else (none, c :: rest)
  | [] => (none, [])

/-- The minus sign a text may begin with. -/
def readMinus : List Char → Bool × List Char
  | '-' :: rest => (true, rest)
  | cs => (false, cs)

/-- The numeral a text begins with, and what follows it. -/
def read? (cs : List Char) : Option (Numeral × List Char) :=
  let (negative, cs) := readMinus cs
  (readWhole? cs).map fun (whole, cs) =>
    let (fraction, cs) := readFraction cs
    let (exponent, cs) := readExponent cs
    (⟨negative, whole, fraction, exponent⟩, cs)

/-- A fraction takes nothing or some characters off the text. -/
theorem readFraction_length (cs : List Char) : (readFraction cs).2.length ≤ cs.length := by
  unfold readFraction
  split
  · next rest =>
    have h := (List.dropWhile_sublist (l := rest) Char.isDigit).length_le
    simp only [spanDigits]
    split
    · simp
    · next heq =>
      cases heq
      simp only [List.length_cons]
      omega
  · simp

/-- A sign takes at most one character off the text. -/
theorem readSign_length (cs : List Char) : (readSign cs).2.length ≤ cs.length := by
  unfold readSign
  split
  · split <;> simp
  · simp

/-- An exponent takes nothing or some characters off the text. -/
theorem readExponent_length (cs : List Char) : (readExponent cs).2.length ≤ cs.length := by
  unfold readExponent
  split
  · next c rest =>
    -- whatever sign there is, the digits are dropped from what follows it
    have h := (List.dropWhile_sublist (l := (readSign rest).2) Char.isDigit).length_le
    have h' := readSign_length rest
    simp only [spanDigits]
    split
    · split
      · simp
      · next heq =>
        cases heq
        simp only [List.length_cons]
        omega
    · simp
  · simp

/-- The digits before the point take at least one character off the text. -/
theorem readWhole?_length {cs digits rest : List Char}
    (h : readWhole? cs = some (digits, rest)) : rest.length < cs.length := by
  unfold readWhole? at h
  split at h
  · simp only [Option.some.injEq, Prod.mk.injEq] at h
    simp [h.2]
  · next c tail _ =>
    have := (List.dropWhile_sublist (l := tail) Char.isDigit).length_le
    split at h
    · simp only [spanDigits, Option.some.injEq, Prod.mk.injEq] at h
      rw [← h.2, List.length_cons]
      omega
    · simp at h
  · simp at h

/-- A numeral takes at least one character off the text. -/
theorem read?_length {cs rest : List Char} {n : Numeral} (h : read? cs = some (n, rest)) :
    rest.length < cs.length := by
  have hm : (readMinus cs).2.length ≤ cs.length := by
    unfold readMinus
    split <;> simp
  simp only [read?] at h
  obtain ⟨⟨whole, after⟩, hw, heq⟩ := Option.map_eq_some_iff.1 h
  have := readWhole?_length hw
  have := readFraction_length after
  have := readExponent_length (readFraction after).2
  simp only [Prod.mk.injEq] at heq
  rw [← heq.2]
  omega

def exponentText (e : Exponent) : List Char :=
  e.letter :: e.sign.toList ++ e.digits

def text (n : Numeral) : List Char :=
  (if n.negative then ['-'] else []) ++ n.whole ++
    (match n.fraction with
      | none => []
      | some digits => '.' :: digits) ++
    (match n.exponent with
      | none => []
      | some e => exponentText e)

/-! ## Natural numbers -/

def ofNat (n : Nat) : Numeral := ⟨false, Decimal.writeNat n, none, none⟩

/-- The natural number a numeral spells, if it is written with digits only. -/
def natural? (n : Numeral) : Option Nat :=
  if n.negative ∨ n.fraction.isSome ∨ n.exponent.isSome then none else some (Decimal.value n.whole)

/-! ## Range -/

/-- Appends digits to a number as long as it stays below 2^64; the digits left over follow. -/
def gather (n : Nat) : List Char → Nat × List Char
  | [] => (n, [])
  | c :: cs =>
    let next := 10 * n + (c.toNat - '0'.toNat)
    if next < Nat.pow 2 64 then gather next cs else (n, c :: cs)

def writtenExponent : Option Exponent → Int
  | none => 0
  | some e => if e.sign = some '-' then -(Decimal.value e.digits : Int) else Decimal.value e.digits

/-- The leading digits of the numeral as a number, and the power of ten they are multiplied by. -/
def scaled (n : Numeral) : Nat × Int :=
  let (front, skipped) := gather 0 n.whole
  let fraction := n.fraction.getD []
  let (front, unused) := gather front fraction
  (front, writtenExponent n.exponent + skipped.length - (fraction.length - unused.length))

/-- The number rounded to 53 significant bits, a tie to the even neighbour. -/
def round53 (n : Nat) : Nat :=
  if n < Nat.pow 2 53 then n
  else
    let unit := Nat.pow 2 (n.log2 - 52)
    let q := n / unit
    let r := n % unit
    if unit < 2 * r ∨ (unit = 2 * r ∧ q % 2 = 1) then (q + 1) * unit else q * unit

/-- Whether a double-precision float can hold the number, up to rounding. -/
def inDoubleRange (n : Numeral) : Bool :=
  let (front, power) := n.scaled
  front == 0 || decide (power < 0) ||
    (decide (power ≤ 308) &&
      decide (round53 front * round53 (Nat.pow 10 power.toNat) < Nat.pow 2 1024 - Nat.pow 2 970))

end Numeral

end ModularGrammar
