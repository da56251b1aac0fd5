import ModularGrammar.Json.Basic

/-!
# Tokens of JSON

Cuts a JSON text into tokens: the six structural characters, strings, and the other scalars.
Strings are read in two steps.  First their pieces are taken off the text, characters and `\u`
codes; then the pieces are assembled, which fails if a code is one half of a surrogate pair without
the other half beside it.
-/

namespace ModularGrammar.Json

/-! ## Strings -/

inductive Piece where
  /-- A character, as it stands or after a backslash. -/
  | char (c : Char)
  /-- The code of a `\u` escape. -/
  | code (n : Nat)
deriving DecidableEq, Repr

def hexValue? (c : Char) : Option Nat :=
  if '0' ≤ c ∧ c ≤ '9' then some (c.toNat - '0'.toNat)
  else if 'a' ≤ c ∧ c ≤ 'f' then some (c.toNat - 'a'.toNat + 10)
  else if 'A' ≤ c ∧ c ≤ 'F' then some (c.toNat - 'A'.toNat + 10)
  else none

def code? (a b c d : Char) : Option Nat := do
  return 4096 * (← hexValue? a) + 256 * (← hexValue? b) + 16 * (← hexValue? c) + (← hexValue? d)

/-- The character a backslash makes of the next one. -/
def escaped? : Char → Option Char
  | '"' => some '"'
  | '\\' => some '\\'
  | '/' => some '/'
  | 'b' => some '\x08'
  | 'f' => some '\x0c'
  | 'n' => some '\n'
  | 'r' => some '\r'
  | 't' => some '\t'
  | _ => none

/-- The pieces of a string after its opening quote, and what follows its closing quote. -/
def readPieces : List Char → Option (List Piece × List Char)
  | [] => none
  | '"' :: rest => some ([], rest)
  | '\\' :: 'u' :: a :: b :: c :: d :: rest =>
    match code? a b c d with
    | none => none
    | some n => (readPieces rest).map fun (pieces, after) => (.code n :: pieces, after)
  | '\\' :: c :: rest =>
    match escaped? c with
    | none => none
    | some e => (readPieces rest).map fun (pieces, after) => (.char e :: pieces, after)
  | c :: rest =>
    if c = '\\' ∨ c.toNat < 0x20 then none
    else (readPieces rest).map fun (pieces, after) => (.char c :: pieces, after)

/-- Whether a code is the first half of a surrogate pair. -/
def isHighSurrogate (n : Nat) : Bool := decide (0xD800 ≤ n) && decide (n < 0xDC00)

/-- Whether a code is the second half of a surrogate pair. -/
def isLowSurrogate (n : Nat) : Bool := decide (0xDC00 ≤ n) && decide (n < 0xE000)

def pairChar (high low : Nat) : Char :=
  Char.ofNat (0x10000 + 0x400 * (high - 0xD800) + (low - 0xDC00))

/-- The text the pieces make up, unless half of a surrogate pair stands alone. -/
def assemble : List Piece → Option (List Char)
  | [] => some []
  | .char c :: pieces => (assemble pieces).map (c :: ·)
  | .code n :: pieces =>
    if isHighSurrogate n then
      match pieces with
      | .code low :: pieces =>
        if isLowSurrogate low then (assemble pieces).map (pairChar n low :: ·) else none
      | _ => none
    else if isLowSurrogate n then none
    else (assemble pieces).map (Char.ofNat n :: ·)

/-! ## Tokens -/

inductive Token where
  | openArray
  | closeArray
  | openObject
  | closeObject
  | colon
  | comma
  /-- A string, without text if half of a surrogate pair stands alone in it. -/
  | string (text : Option String)
  /-- Another scalar. -/
  | scalar (value : Json)

/-- A character between tokens. -/
def isGap (c : Char) : Bool := c == ' ' || c == '\t' || c == '\n' || c == '\r'

/-- The value of a numeral. -/
def ofNumeral (n : Numeral) : Json :=
  if n.inDoubleRange then .number n else .unreadable

/-- The token a text begins with, and what follows it. -/
def Token.next? : List Char → Option (Token × List Char)
  | '[' :: rest => some (.openArray, rest)
  | ']' :: rest => some (.closeArray, rest)
  | '{' :: rest => some (.openObject, rest)
  | '}' :: rest => some (.closeObject, rest)
  | ':' :: rest => some (.colon, rest)
  | ',' :: rest => some (.comma, rest)
  | '"' :: rest =>
    (readPieces rest).map fun (pieces, after) =>
      (.string ((assemble pieces).map String.ofList), after)
  | 'n' :: 'u' :: 'l' :: 'l' :: rest => some (.scalar .null, rest)
  | 't' :: 'r' :: 'u' :: 'e' :: rest => some (.scalar (.bool true), rest)
  | 'f' :: 'a' :: 'l' :: 's' :: 'e' :: rest => some (.scalar (.bool false), rest)
  | cs => (Numeral.read? cs).map fun (n, after) => (.scalar (ofNumeral n), after)

/-- The pieces of a string end before the text does. -/
theorem readPieces_length {cs rest : List Char} {pieces : List Piece}
    (h : readPieces cs = some (pieces, rest)) : rest.length < cs.length := by
  fun_induction readPieces cs generalizing pieces rest with
  | case1 => simp at h
  | case2 tail =>
    simp only [Option.some.injEq, Prod.mk.injEq] at h
    simp [h.2]
  | case3 => simp at h
  | case5 => simp at h
  | case7 => simp at h
  -- the three kinds of pieces after which reading goes on
  | case4 _ _ _ _ _ _ _ ih | case6 _ _ _ _ _ ih | case8 _ _ _ _ _ _ ih =>
    obtain ⟨⟨ps, after⟩, hr, heq⟩ := Option.map_eq_some_iff.1 h
    simp only [Prod.mk.injEq] at heq
    obtain ⟨-, rfl⟩ := heq
    have := ih hr
    simp only [List.length_cons]
    omega

/-- A token takes at least one character. -/
theorem Token.next?_length {cs rest : List Char} {token : Token}
    (h : Token.next? cs = some (token, rest)) : rest.length < cs.length := by
  unfold Token.next? at h
  split at h
  case h_7 tail =>
    obtain ⟨⟨ps, after⟩, hr, heq⟩ := Option.map_eq_some_iff.1 h
    simp only [Prod.mk.injEq] at heq
    obtain ⟨-, rfl⟩ := heq
    have := readPieces_length hr
    simp only [List.length_cons]
    omega
  case h_11 =>
    obtain ⟨⟨n, after⟩, hr, heq⟩ := Option.map_eq_some_iff.1 h
    simp only [Prod.mk.injEq] at heq
    obtain ⟨-, rfl⟩ := heq
    exact Numeral.read?_length hr
  -- all other tokens are single characters or words of known length
  all_goals
    simp only [Option.some.injEq, Prod.mk.injEq] at h
    rw [← h.2]
    simp only [List.length_cons]
    omega

/-- The tokens of a text; `none` if something in it is no token. -/
def Token.scan (cs : List Char) : Option (List Token) :=
  if cs.dropWhile isGap = [] then some []
  else
    match _h : Token.next? (cs.dropWhile isGap) with
    | none => none
    | some (token, rest) => (Token.scan rest).map (token :: ·)
termination_by cs.length
decreasing_by
  have := Token.next?_length _h
  have : (cs.dropWhile isGap).length ≤ cs.length := (List.dropWhile_sublist _).length_le
  omega

end ModularGrammar.Json
