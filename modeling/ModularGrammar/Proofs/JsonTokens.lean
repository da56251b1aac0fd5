import Mathlib.Data.Nat.Digits.Defs
import ModularGrammar.Json.Token
import ModularGrammar.Json.Writer

/-!
# Scanning What Is Written

The strings and numbers that a writer produces are scanned as the tokens they were written for,
whatever follows them.  After a number what follows must not continue it.

## Architecture

1. Strings: one character of a text, then the text, then the quotes around it
2. Numbers: the digits of a natural number, and its range
3. `Token.scan`: one token more at the front, and gaps
-/

namespace ModularGrammar

namespace Json

/-! ## Strings -/

/-- The piece of a string that a character is written as: a control character without a short form
is written as its code. -/
def pieceOf (c : Char) : Piece :=
  if c.toNat < 0x20 ∧ c ∉ ['\x08', '\x0c', '\n', '\r', '\t'] then .code c.toNat else .char c

theorem hexValue?_hexDigit {n : Nat} (h : n < 16) : hexValue? (hexDigit n) = some n := by
  have hall : ∀ n < 16, hexValue? (hexDigit n) = some n := by decide
  exact hall n h

theorem code?_hexDigits {n : Nat} (h : n < 256) :
    code? '0' '0' (hexDigit (n / 16)) (hexDigit (n % 16)) = some n := by
  have hzero : hexValue? '0' = some 0 := by decide
  have hhigh : hexValue? (hexDigit (n / 16)) = some (n / 16) := hexValue?_hexDigit (by omega)
  have hlow : hexValue? (hexDigit (n % 16)) = some (n % 16) := hexValue?_hexDigit (by omega)
  simp only [code?, hzero, hhigh, hlow, bind, Option.bind, pure, Option.some.injEq]
  omega

theorem readPieces_escaped {c e : Char} (he : escaped? e = some c) (text : List Char) :
    readPieces ('\\' :: e :: text) =
      (readPieces text).map fun (pieces, after) => (.char c :: pieces, after) := by
  have hu : e ≠ 'u' := by
    rintro rfl
    cases he
  simp [readPieces, hu, he]

theorem readPieces_escapeChar (c : Char) (text : List Char) :
    readPieces (escapeChar c ++ text) =
      (readPieces text).map fun (pieces, after) => (pieceOf c :: pieces, after) := by
  rw [escapeChar]
  split_ifs with hquote hbackslash h08 h0c hn hr ht hcontrol
  -- the escapes of two characters
  any_goals subst c; exact readPieces_escaped rfl text
  · have hcode := code?_hexDigits (Nat.lt_trans hcontrol (by decide))
    have hpiece : pieceOf c = .code c.toNat := by simp [pieceOf, *]
    simp only [List.cons_append, List.nil_append, readPieces, hcode, hpiece]
  · have hpiece : pieceOf c = .char c := by simp [pieceOf, hcontrol]
    simp [readPieces, *]

/-- No control character is half of a surrogate pair. -/
theorem assemble_pieceOf (c : Char) (pieces : List Piece) :
    assemble (pieceOf c :: pieces) = (assemble pieces).map (c :: ·) := by
  rw [pieceOf]
  split
  · next h =>
    have hhigh : isHighSurrogate c.toNat = false := by
      rw [isHighSurrogate, decide_eq_false (by omega), Bool.false_and]
    have hlow : isLowSurrogate c.toNat = false := by
      rw [isLowSurrogate, decide_eq_false (by omega), Bool.false_and]
    rw [assemble.eq_def]
    simp only [hhigh, hlow, Bool.false_eq_true, if_false, Char.ofNat_toNat]
  · rfl

theorem readPieces_flatMap_escapeChar (cs rest : List Char) :
    readPieces (cs.flatMap escapeChar ++ '"' :: rest) = some (cs.map pieceOf, rest) := by
  induction cs with
  | nil => rfl
  | cons c cs ih =>
    rw [List.flatMap_cons, List.append_assoc, readPieces_escapeChar, ih]
    rfl

theorem assemble_map_pieceOf (cs : List Char) : assemble (cs.map pieceOf) = some cs := by
  induction cs with
  | nil => rfl
  | cons c cs ih =>
    rw [List.map_cons, assemble_pieceOf, ih]
    rfl

/-- A quoted text is one token, the text. -/
theorem Token.next?_quote (s : String) (rest : List Char) :
    Token.next? (quote s ++ rest) = some (.string (some s), rest) := by
  have hpieces := readPieces_flatMap_escapeChar s.toList rest
  simp only [quote, List.cons_append, List.append_assoc, List.nil_append, Token.next?, hpieces,
    assemble_map_pieceOf, Option.map_some, String.ofList_toList]

end Json

/-! ## Numbers -/

namespace Numeral

/-- A text that does not continue a number. -/
def Ends (text : List Char) : Prop :=
  ∀ c ∈ text.head?, c.isDigit = false ∧ c ≠ '.' ∧ c ≠ 'e' ∧ c ≠ 'E'

theorem ends_cons {c : Char} {text : List Char} :
    Ends (c :: text) ↔ c.isDigit = false ∧ c ≠ '.' ∧ c ≠ 'e' ∧ c ≠ 'E' := by
  simp [Ends]

theorem ends_append {text more : List Char} (h : Ends text) (hmore : Ends more) :
    Ends (text ++ more) := by
  cases text with
  | nil => exact hmore
  | cons c text => exact h

theorem spanDigits_append {digits rest : List Char} (hdigits : ∀ c ∈ digits, c.isDigit = true)
    (hrest : Ends rest) : spanDigits (digits ++ rest) = (digits, rest) := by
  rw [spanDigits, List.takeWhile_append_of_pos hdigits, List.dropWhile_append_of_pos hdigits]
  cases rest with
  | nil => simp
  | cons c rest =>
    have hc : ¬ c.isDigit = true := by simp [(ends_cons.mp hrest).1]
    rw [List.takeWhile_cons_of_neg hc, List.dropWhile_cons_of_neg hc, List.append_nil]

theorem readFraction_of_ends {text : List Char} (h : Ends text) :
    readFraction text = (none, text) := by
  cases text with
  | nil => rfl
  | cons c text =>
    rw [ends_cons] at h
    simp [readFraction, h.2.1]

theorem readExponent_of_ends {text : List Char} (h : Ends text) :
    readExponent text = (none, text) := by
  cases text with
  | nil => rfl
  | cons c text =>
    rw [ends_cons] at h
    simp [readExponent, h.2.2]

theorem isDigit_of_mem_writeNat {n : Nat} {c : Char} (h : c ∈ Decimal.writeNat n) :
    c.isDigit = true :=
  Nat.isDigit_of_mem_toDigits (by decide) (by decide) h

/-- A number is written with at least one digit, and only zero begins with a zero. -/
theorem exists_writeNat_eq_cons (n : Nat) :
    ∃ c digits, Decimal.writeNat n = c :: digits ∧ (c = '0' → n = 0) := by
  induction n using Nat.strongRecOn with
  | _ n ih =>
    by_cases hn : n < 10
    · refine ⟨_, [], Nat.toDigits_of_lt_base hn, ?_⟩
      intro hzero
      exact Nat.digitChar_eq_zero.mp hzero
    · -- a longer number begins as its tenth does
      obtain ⟨c, digits, hdigits, hc⟩ := ih (n / 10) (by omega)
      refine ⟨c, digits ++ [(n % 10).digitChar], ?_, ?_⟩
      · rw [Decimal.writeNat] at hdigits ⊢
        rw [Nat.toDigits_of_base_le (by decide) (by omega), hdigits, List.cons_append]
      · intro hzero
        have := hc hzero
        omega

theorem readWhole?_writeNat {n : Nat} {rest : List Char} (hrest : Ends rest) :
    readWhole? (Decimal.writeNat n ++ rest) = some (Decimal.writeNat n, rest) := by
  obtain ⟨c, digits, hn, hzero⟩ := exists_writeNat_eq_cons n
  by_cases hc : c = '0'
  · -- a zero at the front is read alone, and here it does stand alone
    obtain rfl := hzero hc
    rfl
  · have hall : ∀ d ∈ c :: digits, d.isDigit = true := by
      rw [← hn]
      intro d hd
      exact isDigit_of_mem_writeNat hd
    rw [List.forall_mem_cons] at hall
    simp [hn, readWhole?, hall.1, spanDigits_append hall.2 hrest]

/-- A natural number is read back up to where its digits end. -/
theorem read?_writeNat (n : Nat) {rest : List Char} (hrest : Ends rest) :
    read? (Decimal.writeNat n ++ rest) = some (ofNat n, rest) := by
  have hminus : readMinus (Decimal.writeNat n ++ rest) = (false, Decimal.writeNat n ++ rest) := by
    obtain ⟨c, digits, hn, -⟩ := exists_writeNat_eq_cons n
    have hc : c ≠ '-' := by
      rintro rfl
      have hdigit : '-'.isDigit = true := isDigit_of_mem_writeNat (by rw [hn]; simp)
      exact absurd hdigit (by decide)
    simp [hn, readMinus, hc]
  simp only [read?, hminus, readWhole?_writeNat hrest, readFraction_of_ends hrest,
    readExponent_of_ends hrest, Option.map_some, ofNat]

theorem value_writeNat (n : Nat) : Decimal.value (Decimal.writeNat n) = n :=
  Nat.ofDigitChars_ten_toDigits

theorem natural?_ofNat (n : Nat) : (ofNat n).natural? = some n := by
  simp [natural?, ofNat, value_writeNat]

theorem le_ofDigitChars (n : Nat) (digits : List Char) : n ≤ Nat.ofDigitChars 10 digits n := by
  induction digits generalizing n with
  | nil => exact Nat.le_refl n
  | cons c digits ih =>
    rw [Nat.ofDigitChars_cons]
    have := ih (10 * n + (c.toNat - '0'.toNat))
    omega

/-- Digits are gathered all of them if their number fits 64 bits. -/
theorem gather_of_lt {n : Nat} {digits : List Char}
    (h : Nat.ofDigitChars 10 digits n < Nat.pow 2 64) :
    gather n digits = (Nat.ofDigitChars 10 digits n, []) := by
  induction digits generalizing n with
  | nil => rfl
  | cons c digits ih =>
    rw [Nat.ofDigitChars_cons] at h ⊢
    have hnext : 10 * n + (c.toNat - '0'.toNat) < Nat.pow 2 64 :=
      Nat.lt_of_le_of_lt (le_ofDigitChars _ _) h
    rw [gather, if_pos hnext, ih h]

theorem pow_le_pow_sub_pow {k m n : Nat} (hkm : k ≤ m) (hmn : m < n) :
    Nat.pow 2 k ≤ Nat.pow 2 n - Nat.pow 2 m := by
  have hsmall : Nat.pow 2 k ≤ Nat.pow 2 m := Nat.pow_le_pow_right (by decide) hkm
  have hdouble : Nat.pow 2 m * 2 ≤ Nat.pow 2 n := Nat.pow_le_pow_right (show 0 < 2 by decide) hmn
  omega

/-- Numbers of 53 bits are exact as doubles. -/
theorem inDoubleRange_ofNat {n : Nat} (h : n < Nat.pow 2 53) : (ofNat n).inDoubleRange = true := by
  have hscaled : (ofNat n).scaled = (n, 0) := by
    have hvalue : Nat.ofDigitChars 10 (Decimal.writeNat n) 0 = n := value_writeNat n
    have hlt : Nat.ofDigitChars 10 (Decimal.writeNat n) 0 < Nat.pow 2 64 := by
      rw [hvalue]
      exact Nat.lt_trans h (by decide)
    simp [scaled, ofNat, gather_of_lt hlt, hvalue, gather, writtenExponent]
  -- all digits are gathered, and 53 bits need no rounding
  have hround : round53 n = n := if_pos h
  have hone : round53 (Nat.pow 10 0) = 1 := by decide
  have hfits : ∀ k m, 53 ≤ k → k < m →
      round53 n * round53 (Nat.pow 10 0) < Nat.pow 2 m - Nat.pow 2 k := by
    intro k m hk hm
    rw [hround, hone, Nat.mul_one]
    exact Nat.lt_of_lt_of_le h (pow_le_pow_sub_pow hk hm)
  rw [inDoubleRange, hscaled]
  simp only [Bool.or_eq_true, Bool.and_eq_true, decide_eq_true_eq]
  exact Or.inr ⟨by decide, hfits 970 1024 (by decide) (by decide)⟩

end Numeral

/-! ## Tokens -/

namespace Json.Token

theorem next?_of_isDigit {c : Char} {cs : List Char} (h : c.isDigit = true) :
    next? (c :: cs) =
      (Numeral.read? (c :: cs)).map fun (n, after) => (.scalar (ofNumeral n), after) := by
  unfold next?
  split
  -- the other tokens begin with other characters
  case h_11 => rfl
  all_goals simp_all

/-- The digits of a number are one token, the number. -/
theorem next?_writeNat {n : Nat} {rest : List Char} (h : n < Nat.pow 2 53)
    (hrest : Numeral.Ends rest) :
    next? (Decimal.writeNat n ++ rest) = some (.scalar (natural n), rest) := by
  obtain ⟨c, digits, hn, -⟩ := Numeral.exists_writeNat_eq_cons n
  have hdigit : c.isDigit = true := Numeral.isDigit_of_mem_writeNat (by rw [hn]; simp)
  have hread := Numeral.read?_writeNat n hrest
  rw [hn, List.cons_append] at hread ⊢
  simp only [next?_of_isDigit hdigit, hread, Option.map_some, ofNumeral,
    Numeral.inDoubleRange_ofNat h, if_true, natural]

/-- Tokens do not begin with gaps. -/
theorem next?_of_isGap {c : Char} {cs : List Char} (h : isGap c = true) :
    next? (c :: cs) = none := by
  simp only [isGap, Bool.or_eq_true, beq_iff_eq] at h
  rcases h with ((rfl | rfl) | rfl) | rfl <;> rfl

theorem scan_of_isGap {c : Char} {cs : List Char} (h : isGap c = true) :
    scan (c :: cs) = scan cs := by
  rw [scan, scan, List.dropWhile_cons_of_pos h]

theorem scan_of_next? {cs rest : List Char} {token : Token} {tokens : List Token}
    (h : next? cs = some (token, rest)) (hrest : scan rest = some tokens) :
    scan cs = some (token :: tokens) := by
  cases cs with
  | nil => simp [next?, Numeral.read?, Numeral.readMinus, Numeral.readWhole?] at h
  | cons c cs =>
    -- no token begins with a gap, so no gap is skipped
    have hgap : ¬ isGap c = true := by
      intro hgap
      rw [next?_of_isGap hgap] at h
      cases h
    rw [scan, List.dropWhile_cons_of_neg hgap, if_neg (by simp)]
    split
    · next hnone =>
      rw [h] at hnone
      cases hnone
    · next hsome =>
      rw [h] at hsome
      cases hsome
      rw [hrest, Option.map_some]

end Json.Token

end ModularGrammar
