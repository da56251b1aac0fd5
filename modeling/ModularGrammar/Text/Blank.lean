/-!
# Blanks

Which characters separate the words of a directive, and how blanks are removed from the ends of a
text.  The class is the `White_Space` property of Unicode; it holds neither the zero-width space
nor the byte order mark, and of the control characters only tab to carriage return and NEL.

Texts are handled as lists of characters; `Text.trim` is the same operation on strings.
-/

namespace ModularGrammar.Text

/-! ## The class -/

/-- The code points of the `White_Space` property. -/
def blankCodes : List Nat :=
  [0x09, 0x0A, 0x0B, 0x0C, 0x0D, 0x20, 0x85, 0xA0, 0x1680,
   0x2000, 0x2001, 0x2002, 0x2003, 0x2004, 0x2005, 0x2006, 0x2007, 0x2008, 0x2009, 0x200A,
   0x2028, 0x2029, 0x202F, 0x205F, 0x3000]

/-- A character is blank if it has the `White_Space` property. -/
def isBlank (c : Char) : Bool :=
  blankCodes.contains c.toNat

/-! ## Trimming -/

/-- The text without its leading blanks. -/
def trimStart (cs : List Char) : List Char :=
  cs.dropWhile isBlank

/-- The text without its trailing blanks. -/
def trimEnd (cs : List Char) : List Char :=
  (cs.reverse.dropWhile isBlank).reverse

/-- The text without blanks at either end. -/
def trimBoth (cs : List Char) : List Char :=
  trimEnd (trimStart cs)

/-- The string without blanks at either end. -/
def trim (s : String) : String :=
  String.ofList (trimBoth s.toList)

end ModularGrammar.Text
