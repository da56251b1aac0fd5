import ModularGrammar.Json.Token

/-!
# Reading JSON

A text is read token by token.  The state of the reading is what may come next together with the
containers that are still open, innermost first, so nesting costs no recursion and may be of any
depth.

Main definition: `Json.read?`, the value of a text that holds exactly one value.
-/

namespace ModularGrammar.Json

/-! ## States -/

/-- A container that is still open, with what has been read of it, latest first. -/
inductive Open where
  | array (items : List Json)
  | object (members : List (Option String × Json))
  /-- An object in which the value of a member is to come. -/
  | member (members : List (Option String × Json)) (key : Option String)

/-- What may come next. -/
inductive Awaited where
  | value
  /-- The first item of an array, or its end. -/
  | itemOrEnd
  /-- The first member of an object, or its end. -/
  | memberOrEnd
  /-- A further member. -/
  | member
  /-- The colon after a member's name. -/
  | colon (key : Option String)
  /-- A comma, or the end of the innermost container. -/
  | commaOrEnd
  /-- Nothing: the value is complete. -/
  | nothing (result : Json)

/-- What may come next, and the containers that are still open. -/
structure State where
  awaited : Awaited
  opened : List Open

def State.start : State := ⟨.value, []⟩

/-! ## Steps -/

/-- The object with the given members, latest first.  A member without a readable name makes the
object unreadable. -/
def closeObject (members : List (Option String × Json)) : Json :=
  match members.reverse.mapM fun member => member.1.map (·, member.2) with
  | some members => .object members
  | none => .unreadable

/-- The state after a value has been completed. -/
def complete (value : Json) : List Open → State
  | [] => ⟨.nothing value, []⟩
  | .array items :: opened => ⟨.commaOrEnd, .array (value :: items) :: opened⟩
  | .object members :: opened => ⟨.commaOrEnd, .object members :: opened⟩
  | .member members key :: opened => ⟨.commaOrEnd, .object ((key, value) :: members) :: opened⟩

/-- The state after a token with which a value begins. -/
def beginValue (opened : List Open) : Token → Option State
  | .openArray => some ⟨.itemOrEnd, .array [] :: opened⟩
  | .openObject => some ⟨.memberOrEnd, .object [] :: opened⟩
  | .string (some s) => some (complete (.string s) opened)
  | .string none => some (complete .unreadable opened)
  | .scalar value => some (complete value opened)
  | _ => none

def State.step (state : State) (token : Token) : Option State :=
  match state.awaited, token, state.opened with
  | .value, token, opened => beginValue opened token
  | .itemOrEnd, .closeArray, .array items :: opened =>
    some (complete (.array items.reverse) opened)
  | .itemOrEnd, token, opened => beginValue opened token
  | .memberOrEnd, .closeObject, .object members :: opened =>
    some (complete (closeObject members) opened)
  | .memberOrEnd, .string key, opened => some ⟨.colon key, opened⟩
  | .member, .string key, opened => some ⟨.colon key, opened⟩
  | .colon key, .colon, .object members :: opened => some ⟨.value, .member members key :: opened⟩
  | .commaOrEnd, .comma, .array items :: opened => some ⟨.value, .array items :: opened⟩
  | .commaOrEnd, .comma, .object members :: opened => some ⟨.member, .object members :: opened⟩
  | .commaOrEnd, .closeArray, .array items :: opened =>
    some (complete (.array items.reverse) opened)
  | .commaOrEnd, .closeObject, .object members :: opened =>
    some (complete (closeObject members) opened)
  | _, _, _ => none

def State.run (state : State) (tokens : List Token) : Option State :=
  tokens.foldlM State.step state

/-- The value that has been completed. -/
def State.result? (state : State) : Option Json :=
  match state.awaited with
  | .nothing value => some value
  | _ => none

/-! ## Texts -/

/-- The value of a text: one value, with nothing but gaps around it. -/
def readChars? (cs : List Char) : Option Json := do
  (← State.start.run (← Token.scan cs)).result?

/-- The value of a text. -/
def read? (s : String) : Option Json := readChars? s.toList

end ModularGrammar.Json
