import ModularGrammar.MacroReference

/-!
# Laws of Macro References

A text is cut into names in braces and single characters.  Qualifying references to macros goes
through the text from left to right and changes names in braces only, each on its own, provided
that no name to be qualified and no qualifier holds a brace.

## Architecture

1. `qualifyChars_of_atStart?`, `qualifyChars_of_notAtStart`: qualifying as a scan from left to right
2. `closing?`, `pieces`: names in braces, and which they are (`cutIntoPieces`)
3. `atStart?_eq_some_iff`: where a reference stands
4. `pieces_qualify`: qualifying changes each piece on its own
-/

namespace ModularGrammar.MacroReference

variable {names : List String} {c : Char} {cs : List Char}

/-! ## From left to right

Qualifying looks for the first reference of a text and goes on behind it.  Looking at one character
at a time, this is a scan. -/

theorem qualifyChars_of_first?_eq_none (qualifier : List Char) (h : first? names cs = none) :
    qualifyChars names qualifier cs = cs := by
  rw [qualifyChars]
  split
  · rfl
  · next hsome => simp [h] at hsome

theorem qualifyChars_of_first? {before after : List Char} {name : String} (qualifier : List Char)
    (h : first? names cs = some (before, name, after)) :
    qualifyChars names qualifier cs =
      before ++ written (qualifier ++ name.toList) ++ qualifyChars names qualifier after := by
  rw [qualifyChars]
  split
  · next hnone => simp [h] at hnone
  · next hsome =>
    rw [h] at hsome
    cases hsome
    rfl

theorem qualifyChars_nil (names : List String) (qualifier : List Char) :
    qualifyChars names qualifier [] = [] :=
  qualifyChars_of_first?_eq_none qualifier rfl

theorem qualifyChars_of_atStart? {after : List Char} {name : String} (qualifier : List Char)
    (h : atStart? names (c :: cs) = some (name, after)) :
    qualifyChars names qualifier (c :: cs) =
      written (qualifier ++ name.toList) ++ qualifyChars names qualifier after := by
  have hfirst : first? names (c :: cs) = some ([], name, after) := by rw [first?, h]
  simpa using qualifyChars_of_first? qualifier hfirst

theorem qualifyChars_of_notAtStart (qualifier : List Char) (h : atStart? names (c :: cs) = none) :
    qualifyChars names qualifier (c :: cs) = c :: qualifyChars names qualifier cs := by
  -- the first reference behind the character is the first reference of the whole text
  cases hrest : first? names cs with
  | none =>
    have hfirst : first? names (c :: cs) = none := by rw [first?, h, hrest]; rfl
    rw [qualifyChars_of_first?_eq_none qualifier hfirst,
      qualifyChars_of_first?_eq_none qualifier hrest]
  | some found =>
    obtain ⟨before, name, after⟩ := found
    have hfirst : first? names (c :: cs) = some (c :: before, name, after) := by
      rw [first?, h, hrest]
      rfl
    rw [qualifyChars_of_first? qualifier hfirst, qualifyChars_of_first? qualifier hrest]
    rfl

/-! ## Names in braces -/

/-- The name has no brace, so in braces it ends where it should. -/
def BraceFree (name : List Char) : Prop := '{' ∉ name ∧ '}' ∉ name

/-- Behind an opening brace: the name up to the closing brace, if no other brace comes before, and
what follows. -/
def closing? : List Char → Option (List Char × List Char)
  | [] => none
  | c :: cs =>
    if c = '}' then some ([], cs)
    else if c = '{' then none
    else (closing? cs).map fun (name, after) => (c :: name, after)

theorem closing?_append {name : List Char} (hname : BraceFree name) (after : List Char) :
    closing? (name ++ '}' :: after) = some (name, after) := by
  induction name with
  | nil => simp [closing?]
  | cons c name ih =>
    simp only [BraceFree, List.mem_cons, not_or] at hname
    obtain ⟨⟨hopen, hname⟩, hclose, hname'⟩ := hname
    rw [List.cons_append, closing?, if_neg (Ne.symm hclose), if_neg (Ne.symm hopen),
      ih ⟨hname, hname'⟩]
    rfl

theorem eq_append_of_closing? {name after : List Char} (h : closing? cs = some (name, after)) :
    BraceFree name ∧ cs = name ++ '}' :: after := by
  -- every character passed on the way to the closing brace is one of the name
  induction cs generalizing name with
  | nil => cases h
  | cons c cs ih =>
    rw [closing?] at h
    split at h
    · next hclose =>
      cases h
      simp [BraceFree, hclose]
    · next hclose =>
      split at h
      · cases h
      · next hopen =>
        obtain ⟨⟨rest, after⟩, hrest, heq⟩ := Option.map_eq_some_iff.mp h
        cases heq
        obtain ⟨⟨hfree, hfree'⟩, rfl⟩ := ih hrest
        simp [BraceFree, hfree, hfree', Ne.symm hopen, Ne.symm hclose]

/-- A name in braces, or any other character. -/
inductive Piece where
  | character (c : Char)
  | group (name : String)
deriving DecidableEq, Repr

def Piece.chars : Piece → List Char
  | character c => [c]
  | group name => written name.toList

/-- The pieces of a text, from left to right. -/
def piecesOf : List Char → List Piece
  | [] => []
  | c :: cs =>
    match _h : if c = '{' then closing? cs else none with
    | some (name, after) => .group (String.ofList name) :: piecesOf after
    | none => .character c :: piecesOf cs
termination_by cs => cs.length
decreasing_by
  · split at _h
    · rw [(eq_append_of_closing? _h).2]
      simp only [List.length_cons, List.length_append]
      omega
    · cases _h
  · exact Nat.lt_succ_self _

def pieces (pattern : String) : List Piece := piecesOf pattern.toList

theorem piecesOf_group {name after : List Char} (h : closing? cs = some (name, after)) :
    piecesOf ('{' :: cs) = .group (String.ofList name) :: piecesOf after := by
  rw [piecesOf]
  split
  · next hsome =>
    rw [if_pos rfl, h] at hsome
    cases hsome
    rfl
  · next hnone => simp [h] at hnone

theorem piecesOf_open (h : closing? cs = none) :
    piecesOf ('{' :: cs) = .character '{' :: piecesOf cs := by
  rw [piecesOf]
  split
  · next hsome => simp [h] at hsome
  · rfl

theorem piecesOf_cons (h : c ≠ '{') : piecesOf (c :: cs) = .character c :: piecesOf cs := by
  rw [piecesOf]
  split
  · next hsome => simp [h] at hsome
  · rfl

/-- Put together again, the pieces of a text are the text. -/
theorem flatMap_chars_piecesOf (cs : List Char) : (piecesOf cs).flatMap Piece.chars = cs := by
  fun_induction piecesOf cs with
  | case1 => rfl
  | case2 c cs name after h ih =>
    split at h
    · next hopen =>
      obtain ⟨-, hcs⟩ := eq_append_of_closing? h
      simp [Piece.chars, written, ih, hopen, hcs]
    · cases h
  | case3 c cs h ih => simp [Piece.chars, ih]

theorem closing?_append_open (cs rest : List Char) : closing? (cs ++ '{' :: rest) =
    (closing? cs).map fun (name, after) => (name, after ++ '{' :: rest) := by
  induction cs with
  | nil =>
    -- an opening brace ends the search for a closing one
    simp [closing?]
  | cons c cs ih =>
    rw [List.cons_append, closing?, closing?]
    by_cases hclose : c = '}'
    · simp [hclose]
    · by_cases hopen : c = '{'
      · simp [hopen]
      · simp [hclose, hopen, ih, Function.comp_def]

/-- A text is cut before every opening brace. -/
theorem piecesOf_append_open (cs rest : List Char) :
    piecesOf (cs ++ '{' :: rest) = piecesOf cs ++ piecesOf ('{' :: rest) := by
  -- a name that is closed stays closed, and a brace that is not closed stays so
  fun_induction piecesOf cs with
  | case1 => rfl
  | case2 c cs name after h ih =>
    split at h
    case isFalse => cases h
    case isTrue hopen =>
    subst hopen
    have hclosing := closing?_append_open cs rest
    rw [h] at hclosing
    rw [List.cons_append, piecesOf_group hclosing, ih, List.cons_append]
  | case3 c cs h ih =>
    by_cases hopen : c = '{'
    · subst hopen
      have hnone : closing? cs = none := by simpa using h
      have hclosing := closing?_append_open cs rest
      rw [hnone] at hclosing
      rw [List.cons_append, piecesOf_open hclosing, ih, List.cons_append]
    · rw [List.cons_append, piecesOf_cons hopen, ih, List.cons_append]

/-- The names in braces are those that stand somewhere between braces and have none. -/
theorem group_mem_piecesOf_iff {name : String} : Piece.group name ∈ piecesOf cs ↔
    BraceFree name.toList ∧ ∃ before after, cs = before ++ (written name.toList ++ after) := by
  constructor
  · intro h
    fun_induction piecesOf cs with
    | case1 => cases h
    | case2 c cs found after hfound ih =>
      split at hfound
      case isFalse => cases hfound
      case isTrue hopen =>
      obtain ⟨hfree, hcs⟩ := eq_append_of_closing? hfound
      rcases List.mem_cons.mp h with heq | hrest
      · cases heq
        refine ⟨by simpa using hfree, [], after, ?_⟩
        simp [written, hopen, hcs]
      · obtain ⟨hname, before, rest, rfl⟩ := ih hrest
        exact ⟨hname, c :: (found ++ '}' :: before), rest, by simp [hcs]⟩
    | case3 c cs hnone ih =>
      rcases List.mem_cons.mp h with heq | hrest
      · cases heq
      · obtain ⟨hname, before, rest, rfl⟩ := ih hrest
        exact ⟨hname, c :: before, rest, rfl⟩
  · rintro ⟨hname, before, after, rfl⟩
    -- whatever stands before, the text is cut at the opening brace
    have hclosing := closing?_append hname after
    simp only [written, List.cons_append, List.append_assoc, List.nil_append]
    rw [piecesOf_append_open, piecesOf_group hclosing, String.ofList_toList]
    simp

/-- The pieces of a pattern make it up, and the groups among them are all the names in braces. -/
structure CutIntoPieces (pattern : String) : Prop where
  chars : (pieces pattern).flatMap Piece.chars = pattern.toList
  groups : ∀ name, .group name ∈ pieces pattern ↔ BraceFree name.toList ∧
    ∃ before after, pattern.toList = before ++ (written name.toList ++ after)

theorem cutIntoPieces (pattern : String) : CutIntoPieces pattern where
  chars := flatMap_chars_piecesOf pattern.toList
  groups := fun _ => group_mem_piecesOf_iff

/-! ## Where references stand -/

theorem atStart?_of_ne (names : List String) (cs : List Char) (h : c ≠ '{') :
    atStart? names (c :: cs) = none := by
  rw [atStart?, List.findSome?_eq_none_iff]
  intro name _
  rw [Option.map_eq_none_iff, written, Text.dropStart?, if_neg (Ne.symm h)]

section BraceFree

variable (hnames : ∀ name ∈ names, BraceFree name.toList)

include hnames

private theorem closing?_of_atStart? {name : String} {after : List Char}
    (h : atStart? names ('{' :: cs) = some (name, after)) :
    name ∈ names ∧ closing? cs = some (name.toList, after) := by
  obtain ⟨found, hfound, hdrop⟩ := List.exists_of_findSome?_eq_some h
  obtain ⟨rest, hrest, heq⟩ := Option.map_eq_some_iff.mp hdrop
  cases heq
  have hcs := Text.dropStart?_eq_some_iff.mp hrest
  simp only [written, List.cons_append, List.append_assoc, List.cons.injEq, true_and] at hcs
  refine ⟨hfound, ?_⟩
  rw [hcs]
  exact closing?_append (hnames name hfound) after

/-- Behind an opening brace a reference stands exactly if the brace is closed behind one of the
names. -/
theorem atStart?_eq_some_iff {name : String} {after : List Char} :
    atStart? names ('{' :: cs) = some (name, after) ↔
      name ∈ names ∧ closing? cs = some (name.toList, after) := by
  refine ⟨closing?_of_atStart? hnames, ?_⟩
  rintro ⟨hname, hclosing⟩
  obtain ⟨-, hcs⟩ := eq_append_of_closing? hclosing
  -- some reference stands there, and it can only be to the name before the closing brace
  have hfound : (atStart? names ('{' :: cs)).isSome := by
    rw [atStart?, List.findSome?_isSome_iff]
    refine ⟨name, hname, ?_⟩
    have hdrop : Text.dropStart? (written name.toList) ('{' :: cs) = some after := by
      rw [Text.dropStart?_eq_some_iff, hcs]
      simp [written]
    simp [hdrop]
  obtain ⟨⟨found, rest⟩, hat⟩ := Option.isSome_iff_exists.mp hfound
  obtain ⟨-, hclosing'⟩ := closing?_of_atStart? hnames hat
  rw [hclosing, Option.some.injEq, Prod.mk.injEq] at hclosing'
  rw [hat, String.toList_inj.mp hclosing'.1, hclosing'.2]

/-- No reference stands behind an opening brace that is not closed behind one of the names. -/
theorem atStart?_eq_none
    (h : ∀ name after, closing? cs = some (name, after) → String.ofList name ∉ names) :
    atStart? names ('{' :: cs) = none := by
  rw [Option.eq_none_iff_forall_ne_some]
  rintro ⟨name, after⟩ hat
  obtain ⟨hname, hclosing⟩ := (atStart?_eq_some_iff hnames).mp hat
  apply h _ _ hclosing
  rwa [String.ofList_toList]

/-! ## Piece by piece -/

omit hnames in
/-- A text keeps the opening brace it begins with. -/
theorem qualifyChars_open (names : List String) (qualifier cs : List Char) :
    ∃ rest, qualifyChars names qualifier ('{' :: cs) = '{' :: rest := by
  cases hat : atStart? names ('{' :: cs) with
  | none => exact ⟨_, qualifyChars_of_notAtStart qualifier hat⟩
  | some found => exact ⟨_, qualifyChars_of_atStart? qualifier hat⟩

omit hnames in
/-- What stands before the next brace is not changed, nor is the brace. -/
theorem closing?_qualifyChars (names : List String) (qualifier cs : List Char) :
    closing? (qualifyChars names qualifier cs) =
      (closing? cs).map fun (name, after) => (name, qualifyChars names qualifier after) := by
  induction cs with
  | nil => rw [qualifyChars_nil]; rfl
  | cons c cs ih =>
    by_cases hopen : c = '{'
    · -- on both sides an opening brace comes before any closing one
      subst hopen
      obtain ⟨rest, hrest⟩ := qualifyChars_open names qualifier cs
      rw [hrest]
      simp [closing?]
    · rw [qualifyChars_of_notAtStart qualifier (atStart?_of_ne names cs hopen), closing?, closing?]
      by_cases hclose : c = '}'
      · simp [hclose]
      · simp [hopen, hclose, ih, Function.comp_def]

/-- The piece with the qualifier before its name, if it is one of the given names in braces. -/
def Piece.qualify (names : List String) (qualifier : String) : Piece → Piece
  | character c => character c
  | group name => group (if name ∈ names then qualifier ++ name else name)

/-- Qualifying changes each piece of a text on its own. -/
theorem piecesOf_qualifyChars {qualifier : String} (hqualifier : BraceFree qualifier.toList)
    (cs : List Char) : piecesOf (qualifyChars names qualifier.toList cs) =
      (piecesOf cs).map (Piece.qualify names qualifier) := by
  fun_induction piecesOf cs with
  | case1 => simp [qualifyChars_nil, piecesOf]
  | case2 c cs name after h ih =>
    split at h
    case isFalse => cases h
    case isTrue hopen =>
    subst hopen
    by_cases hname : String.ofList name ∈ names
    · -- a reference: its braces are found again around the qualified name
      have hat : atStart? names ('{' :: cs) = some (String.ofList name, after) := by
        apply (atStart?_eq_some_iff hnames).mpr
        simpa [hname] using h
      have hfree : BraceFree (qualifier.toList ++ name) := by
        obtain ⟨hfree, -⟩ := eq_append_of_closing? h
        simp only [BraceFree, List.mem_append, not_or] at hqualifier hfree ⊢
        exact ⟨⟨hqualifier.1, hfree.1⟩, hqualifier.2, hfree.2⟩
      rw [qualifyChars_of_atStart? _ hat]
      simp only [written, String.toList_ofList, List.cons_append, List.append_assoc,
        List.nil_append]
      rw [← List.append_assoc, piecesOf_group (closing?_append hfree _), ih]
      simp [Piece.qualify, hname, String.ofList_append]
    · -- no reference: the braces and the name stay
      have hat : atStart? names ('{' :: cs) = none := by
        apply atStart?_eq_none hnames
        intro found rest hfound
        rw [h] at hfound
        cases hfound
        exact hname
      have hclosing := closing?_qualifyChars names qualifier.toList cs
      rw [h] at hclosing
      rw [qualifyChars_of_notAtStart _ hat, piecesOf_group hclosing, ih]
      simp [Piece.qualify, hname]
  | case3 c cs h ih =>
    by_cases hopen : c = '{'
    · -- a brace that is not closed stays so, since what follows keeps its braces
      subst hopen
      have hnone : closing? cs = none := by simpa using h
      have hat : atStart? names ('{' :: cs) = none := by
        apply atStart?_eq_none hnames
        simp [hnone]
      have hclosing := closing?_qualifyChars names qualifier.toList cs
      rw [hnone] at hclosing
      rw [qualifyChars_of_notAtStart _ hat, piecesOf_open hclosing, ih]
      rfl
    · rw [qualifyChars_of_notAtStart _ (atStart?_of_ne names cs hopen), piecesOf_cons hopen, ih]
      rfl

/-- Qualifying a pattern changes each of its pieces on its own. -/
theorem pieces_qualify {qualifier : String} (hqualifier : BraceFree qualifier.toList)
    (pattern : String) : pieces (qualify names qualifier pattern) =
      (pieces pattern).map (Piece.qualify names qualifier) := by
  rw [pieces, qualify, String.toList_ofList]
  exact piecesOf_qualifyChars hnames hqualifier _

end BraceFree

end ModularGrammar.MacroReference
