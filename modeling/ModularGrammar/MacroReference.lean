import ModularGrammar.Text.Segment

/-!
# References to macros

In the patterns of a lexicon a macro is referred to by its name in braces.  Qualifying the macros of
a lexicon puts the qualifier into all references to them; braces around anything else stay as they
are.
-/

namespace ModularGrammar.MacroReference

/-- A reference to the macro with the given name. -/
def written (name : List Char) : List Char := '{' :: (name ++ ['}'])

/-- All references to some names are found by one expression, which a library makes of the names.
It may refuse to, as the expression grows with them, and then says why. -/
abbrev Refusal := List String → Option String

/-- Nothing is refused. -/
def Refusal.never : Refusal := fun _ => none

/-! ## Finding references -/

/-- The name that is referred to at the beginning of a text, and what follows the reference.  Where
several names would do, the first of them counts. -/
def atStart? (names : List String) (cs : List Char) : Option (String × List Char) :=
  names.findSome? fun name =>
    (Text.dropStart? (written name.toList) cs).map fun after => (name, after)

/-- What follows a reference is shorter than the text it stands in. -/
theorem length_of_atStart? {names : List String} {cs after : List Char} {name : String}
    (h : atStart? names cs = some (name, after)) : after.length < cs.length := by
  obtain ⟨n, -, hn⟩ := List.exists_of_findSome?_eq_some h
  obtain ⟨a, ha, heq⟩ := Option.map_eq_some_iff.1 hn
  cases heq
  rw [Text.dropStart?_eq_some_iff.1 ha]
  simp only [written, List.length_append, List.length_cons]
  omega

/-- The first reference in a text: what stands before it, the name, and what follows it. -/
def first? (names : List String) : List Char → Option (List Char × String × List Char)
  | [] => none
  | c :: cs =>
    match atStart? names (c :: cs) with
    | some (name, after) => some ([], name, after)
    | none => (first? names cs).map fun (before, name, after) => (c :: before, name, after)

/-- What follows the first reference is shorter than the text. -/
theorem length_of_first? {names : List String} {cs before after : List Char} {name : String}
    (h : first? names cs = some (before, name, after)) : after.length < cs.length := by
  induction cs generalizing before with
  | nil => simp [first?] at h
  | cons c cs ih =>
    rw [first?] at h
    split at h
    · next hs => cases h; exact length_of_atStart? hs
    · obtain ⟨⟨b, n, a⟩, hr, heq⟩ := Option.map_eq_some_iff.1 h
      cases heq
      exact Nat.lt_succ_of_lt (ih hr)

/-! ## Qualifying references -/

/-- The text with the qualifier in every reference to one of the names.  What has been written is
not looked at again. -/
def qualifyChars (names : List String) (qualifier : List Char) (cs : List Char) : List Char :=
  match _h : first? names cs with
  | none => cs
  | some (before, name, after) =>
    before ++ written (qualifier ++ name.toList) ++ qualifyChars names qualifier after
termination_by cs.length
decreasing_by exact length_of_first? _h

/-- The pattern with the qualifier in every reference to one of the names. -/
def qualify (names : List String) (qualifier pattern : String) : String :=
  String.ofList (qualifyChars names qualifier.toList pattern.toList)

end ModularGrammar.MacroReference
