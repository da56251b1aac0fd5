import ModularGrammar.Json.Basic
import ModularGrammar.Table

/-!
# Records in JSON

How a document is taken out of a JSON value.  A record with known fields is written as an object,
or as an array of its fields in their order.  In an object each known field stands at most once and
other members are passed over; an array has no more items than the record has fields.
-/

namespace ModularGrammar.Json

/-! ## Fields -/

/-- The value of the member with the given name, if there is one; fails if there are several. -/
def member? (members : List (String × Json)) (name : String) : Option (Option Json) :=
  match members.filter fun member => member.1 = name with
  | [] => some none
  | [member] => some (some member.2)
  | _ => none

/-- The values of the fields with the given names, in this order; `none` for a field that is not
written. -/
def fields? (names : List String) : Json → Option (List (Option Json))
  | .object members => names.mapM (member? members)
  | .array items =>
    if items.length ≤ names.length then
      some (items.map some ++ List.replicate (names.length - items.length) none)
    else none
  | _ => none

/-! ## Values of fields -/

/-- A field that must be written. -/
def required {α : Type} (read : Json → Option α) : Option Json → Option α
  | some value => read value
  | none => none

/-- A field that stands for `default` where it is not written. -/
def withDefault {α : Type} (default : α) (read : Json → Option α) : Option Json → Option α
  | some value => read value
  | none => some default

/-- A field that may be left out or be `null`. -/
def optional {α : Type} (read : Json → Option α) : Option Json → Option (Option α)
  | none | some .null => some none
  | some value => (read value).map some

/-! ## Lists and tables -/

def list? {α : Type} (read : Json → Option α) : Json → Option (List α)
  | .array items => items.mapM read
  | _ => none

/-- The members of an object as a table. -/
def table? {α : Type} (read : Json → Option α) : Json → Option (Table α)
  | .object members =>
    (members.mapM fun member => (read member.2).map (member.1, ·)).map Table.ofList
  | _ => none

def bool? : Json → Option Bool
  | .bool b => some b
  | _ => none

/-- A natural number below 256. -/
def byte? : Json → Option UInt8
  | .number n => n.natural?.bind fun k => if k < 256 then some (UInt8.ofNat k) else none
  | _ => none

def ofTable {α : Type} (write : α → Json) (t : Table α) : Json :=
  .object (t.entries.map fun entry => (entry.1, write entry.2))

def ofList {α : Type} (write : α → Json) (l : List α) : Json :=
  .array (l.map write)

/-- A member that is written only if there is a value. -/
def optionalMember {α : Type} (name : String) (write : α → Json) (value : Option α) :
    List (String × Json) :=
  value.toList.map fun a => (name, write a)

end ModularGrammar.Json
