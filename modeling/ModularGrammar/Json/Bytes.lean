import ModularGrammar.Json.Reader

/-!
# Reading JSON from bytes

A file may hold bytes that belong to no character.  In a string that nobody looks at they do no
harm: the string is well formed and denotes no text, just as one in which half of a surrogate pair
stands alone.  So where a stray byte stands, an escape of such a half is read.

Main definition: `Json.readBytes?`.  On the bytes of a text it is `Json.read?`
(`readBytes?_toUTF8`).
-/

namespace ModularGrammar.Json

/-- The characters in some bytes from a place on, with `none` for a byte that belongs to no
character. -/
def decode (bytes : ByteArray) (place : Nat) : List (Option Char) :=
  if place < bytes.size then
    match bytes.utf8DecodeChar? place with
    | some c => some c :: decode bytes (place + c.utf8Size)
    | none => none :: decode bytes (place + 1)
  else []
termination_by bytes.size - place
decreasing_by
  · have := c.utf8Size_pos
    omega
  · omega

/-- What is read for a stray byte.  At least one of the two second halves stays alone, whatever
stands before them. -/
def strayText : List Char := "\\udc00\\udc00".toList

/-- The text that is read for some characters and stray bytes.  A backslash does not escape a stray
byte; `escaping` tells whether there is one that escapes what comes next. -/
def spell? (escaping : Bool) : List (Option Char) → Option (List Char)
  | [] => some []
  | some c :: rest => (spell? (c == '\\' && !escaping) rest).map (c :: ·)
  | none :: rest => if escaping then none else (spell? false rest).map (strayText ++ ·)

/-- The value of a text that is given by its bytes. -/
def readBytes? (bytes : ByteArray) : Option Json :=
  match String.fromUTF8? bytes with
  | some s => read? s
  | none => (spell? false (decode bytes 0)).bind readChars?

/-- The bytes of a text are read as the text is. -/
theorem readBytes?_toUTF8 (s : String) : readBytes? s.toUTF8 = read? s := by
  have h : String.fromUTF8? s.toUTF8 = some s := by
    unfold String.fromUTF8?
    rw [String.toUTF8_eq_toByteArray, dif_pos s.isValidUTF8]
    rfl
  simp only [readBytes?, h]

end ModularGrammar.Json
