import ModularGrammar.Json.Numeral

/-!
# JSON values

The value a JSON text denotes.  Objects keep their members in order and keep repeated names, since
both matter to the documents read from them.

Some texts are well formed although a part of them denotes nothing: a string with an unpaired
surrogate, or a number beyond the range of doubles.  Such a part is `unreadable`; it does no harm
where nobody looks at it.
-/

namespace ModularGrammar

inductive Json where
  | null
  | bool (b : Bool)
  | number (n : Numeral)
  | string (s : String)
  | array (items : List Json)
  | object (members : List (String × Json))
  /-- A part of a text that is well formed but denotes no value. -/
  | unreadable
deriving Inhabited

namespace Json

/-- How many containers may enclose each other in a document that is read as a whole. -/
def maxDepth : Nat := 127

/-- Whether the value can be read as a whole: containers nest at most `levels` deep, and no part of
it is unreadable. -/
def fits : (levels : Nat) → Json → Bool
  | _, .unreadable => false
  | 0, .array _ => false
  | 0, .object _ => false
  | levels + 1, .array items => items.all (fits levels)
  | levels + 1, .object members => members.all fun member => fits levels member.2
  | _, _ => true

def text? : Json → Option String
  | .string s => some s
  | _ => none

def natural (n : Nat) : Json := .number (.ofNat n)

def texts (l : List String) : Json := .array (l.map .string)

end Json

end ModularGrammar
