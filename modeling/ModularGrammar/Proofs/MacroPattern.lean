import Mathlib.Data.List.Basic
import ModularGrammar.Proofs.MacroReference
import ModularGrammar.Proofs.RegularExpression
import ModularGrammar.Proofs.Segment
import ModularGrammar.Renaming

/-!
# References to Macros as a Regular Expression

All references to the macros of a lexicon are found by one regular expression, the choice of the
escaped names between braces.  Replacing its matches is the same as scanning a text from left to
right, and if no name holds a brace it does not matter in which order the names are given.

## Architecture

1. `Scan`: scanning a text for references (`scan_iff`)
2. `pattern`, `rewriter?`: the regular expression and its use
3. `read?_pattern`: what is written is the choice of the names
4. `matchesAt_expression`: where it matches, and in which order of preference
5. `replaceAll_expression`, `rewriter?_eq`: replacing its matches
6. `qualifyChars_congr`: when the order of the names does not matter
7. `rewriter_scans`: rewriting the references in a text
-/

namespace ModularGrammar.MacroReference

/-! ## Scanning -/

/-- Scanning a text from left to right.  Where references to some of the names stand, the one to the
first of these names gets the qualifier; anywhere else a character is copied. -/
inductive Scan (names : List String) (qualifier : List Char) : List Char → List Char → Prop where
  | done : Scan names qualifier [] []
  | reference {before after : List String} {name : String} {rest out : List Char}
      (hnames : names = before ++ name :: after)
      (hfirst : ∀ other ∈ before, ¬ written other.toList <+: written name.toList ++ rest)
      (h : Scan names qualifier rest out) :
      Scan names qualifier (written name.toList ++ rest) (written (qualifier ++ name.toList) ++ out)
  | copy {c : Char} {rest out : List Char}
      (hnone : ∀ name ∈ names, ¬ written name.toList <+: c :: rest)
      (h : Scan names qualifier rest out) :
      Scan names qualifier (c :: rest) (c :: out)

theorem atStart?_eq_none_iff {names : List String} {cs : List Char} :
    atStart? names cs = none ↔ ∀ name ∈ names, ¬ written name.toList <+: cs := by
  simp only [atStart?, List.findSome?_eq_none_iff, Option.map_eq_none_iff,
    Text.dropStart?_eq_none_iff]

theorem atStart?_nil (names : List String) : atStart? names [] = none := by
  apply atStart?_eq_none_iff.mpr
  simp [written]

/-- A reference stands at the beginning of a text to the first name of which one stands there. -/
theorem atStart?_eq_some_iff_first {names : List String} {cs rest : List Char} {name : String} :
    atStart? names cs = some (name, rest) ↔ cs = written name.toList ++ rest ∧
      ∃ before after, names = before ++ name :: after ∧
        ∀ other ∈ before, ¬ written other.toList <+: cs := by
  simp only [atStart?, List.findSome?_eq_some_iff, Option.map_eq_some_iff, Option.map_eq_none_iff,
    Text.dropStart?_eq_none_iff, Text.dropStart?_eq_some_iff, Prod.mk.injEq]
  constructor
  · rintro ⟨before, _, after, rfl, ⟨_, hcs, rfl, rfl⟩, hfirst⟩
    exact ⟨hcs, before, after, rfl, hfirst⟩
  · rintro ⟨hcs, before, after, rfl, hfirst⟩
    exact ⟨before, name, after, rfl, ⟨rest, hcs, rfl, rfl⟩, hfirst⟩

/-- Qualifying references is scanning for them. -/
theorem scan_iff {names : List String} {qualifier cs out : List Char} :
    Scan names qualifier cs out ↔ out = qualifyChars names qualifier cs := by
  constructor
  · intro h
    induction h with
    | done => exact (qualifyChars_nil names qualifier).symm
    | reference hnames hfirst h ih =>
      have hat := atStart?_eq_some_iff_first.mpr ⟨rfl, _, _, hnames, hfirst⟩
      rw [ih]
      exact (qualifyChars_of_atStart? qualifier hat).symm
    | copy hnone h ih =>
      rw [ih, qualifyChars_of_notAtStart qualifier (atStart?_eq_none_iff.mpr hnone)]
  · rintro rfl
    -- a scan goes on behind a reference, so the induction is on the length of the text
    induction hlength : cs.length using Nat.strongRecOn generalizing cs with
    | ind length ih =>
      cases cs with
      | nil =>
        rw [qualifyChars_nil]
        exact .done
      | cons c rest =>
        cases hat : atStart? names (c :: rest) with
        | none =>
          rw [qualifyChars_of_notAtStart qualifier hat]
          exact .copy (atStart?_eq_none_iff.mp hat) (ih _ (by simp [← hlength]) rfl)
        | some found =>
          obtain ⟨name, after⟩ := found
          have hshorter := length_of_atStart? hat
          rw [qualifyChars_of_atStart? qualifier hat]
          obtain ⟨hcs, before, later, hnames, hfirst⟩ := atStart?_eq_some_iff_first.mp hat
          rw [hcs] at hfirst ⊢
          exact .reference hnames hfirst (ih _ (hlength ▸ hshorter) rfl)

/-! ## The regular expression -/

/-- The regular expression for references to the names, as it is written. -/
def pattern (library : RegexLibrary) (names : List String) : String :=
  "\\\x7b(" ++ Text.join "|" (names.map library.escape) ++ ")\\\x7d"

/-- What puts the qualifier into all references to the names.  If there are no names, nothing is
compiled. -/
def rewriter? (library : RegexLibrary) (names : List String) (qualifier : String) :
    Option (String → String) :=
  if names.isEmpty then some id
  else (library.compile (pattern library names)).map fun compiled text =>
    String.ofList (library.replaceAll compiled
      (fun groups => written (qualifier.toList ++ (groups 1).getD [])) text.toList)

/-! ## Reading it -/

/-- The expression that matches the name and nothing else. -/
def literal (name : String) : Regex := Regex.empty.followedBy name.toList

/-- The choice of the names, the first one preferred. -/
def choices : List String → Regex
  | [] => .empty
  | name :: names => names.foldl (fun e other => e.choice (literal other)) (literal name)

/-- The choice of the names between braces. -/
def expression (names : List String) : Regex :=
  ((Regex.empty.sequence (.character '{')).sequence (.group 1 (choices names))).sequence
    (.character '}')

/-- The tokens of further names of a choice. -/
def furtherTokens (names : List String) : List Regex.Token :=
  names.flatMap fun name => .bar :: name.toList.map .character

theorem tokens?_joinChars_append (name : String) (names : List String) (rest : List Char) :
    Regex.tokens? (Text.joinChars ['|']
        ((name :: names).map fun name => Regex.escapeChars name.toList) ++ rest) =
      (Regex.tokens? rest).map (name.toList.map .character ++ furtherTokens names ++ ·) := by
  induction names generalizing name with
  | nil => simp [Text.joinChars, Regex.tokens?_escapeChars_append, furtherTokens]
  | cons next others ih =>
    have hjoin : Text.joinChars ['|']
        ((name :: next :: others).map fun name => Regex.escapeChars name.toList) ++ rest =
      Regex.escapeChars name.toList ++ '|' :: (Text.joinChars ['|']
        ((next :: others).map fun name => Regex.escapeChars name.toList) ++ rest) := by
      simp [Text.joinChars]
    rw [hjoin, Regex.tokens?_escapeChars_append, Regex.tokens?, ih]
    simp [furtherTokens, Function.comp_def]

/-- Further names extend the choice that the group is. -/
theorem parse_furtherTokens (names : List String) (tokens : List Regex.Token)
    (next number : Nat) (frame around : Regex.Frame) (outer : List (Nat × Regex.Frame)) :
    Regex.parse (furtherTokens names ++ .closing :: tokens) next frame ((number, around) :: outer) =
      Regex.parse tokens next (around.add (.group number
        (names.foldl (fun e other => e.choice (literal other)) frame.whole))) outer := by
  induction names generalizing frame with
  | nil => rfl
  | cons name names ih =>
    have htokens : furtherTokens (name :: names) ++ .closing :: tokens =
        .bar :: (name.toList.map .character ++ (furtherTokens names ++ .closing :: tokens)) := by
      simp [furtherTokens]
    rw [htokens, Regex.parse, Regex.parse_characters, ih]
    rfl

/-- What is written is the choice of the names between braces, whatever the names hold. -/
theorem read?_pattern {library : RegexLibrary} (hlibrary : library.Documented)
    {names : List String} (hne : names ≠ []) :
    Regex.read? (pattern library names) = some (expression names) := by
  obtain ⟨name, names, rfl⟩ := List.exists_cons_of_ne_nil hne
  have hwritten : (pattern library (name :: names)).toList = '\\' :: '{' :: '(' ::
      (Text.joinChars ['|'] ((name :: names).map fun name => Regex.escapeChars name.toList) ++
        [')', '\\', '}']) := by
    have hescape : ∀ name : String,
        (library.escape name).toList = Regex.escapeChars name.toList := by
      intro name
      rw [hlibrary.escape, Regex.escape, String.toList_ofList]
    simp [pattern, Text.join, Function.comp_def, hescape]
  -- the outer braces are escaped, so of what is written around the names only the parentheses count
  have htokens : Regex.tokens? (pattern library (name :: names)).toList =
      some (.character '{' :: .opening :: (name.toList.map .character ++
        (furtherTokens names ++ [.closing, .character '}']))) := by
    have hjoined := tokens?_joinChars_append name names [')', '\\', '}']
    rw [hwritten]
    simp only [Regex.tokens?, hjoined]
    simp [Regex.metaCharacters]
  rw [Regex.read?, htokens, Option.bind_eq_bind, Option.bind_some]
  simp only [Regex.parse, Regex.parse_characters, parse_furtherTokens]
  rfl

/-! ## Matching it -/

theorem matchesAt_choices {names : List String} (hne : names ≠ []) (cs : List Char) :
    (choices names).matchesAt cs = names.flatMap fun name =>
      ((Text.dropStart? name.toList cs).map fun rest => ⟨name.toList, [], rest⟩).toList := by
  obtain ⟨name, names, rfl⟩ := List.exists_cons_of_ne_nil hne
  have hliteral : ∀ name : String, (literal name).matchesAt cs =
      ((Text.dropStart? name.toList cs).map fun rest => ⟨name.toList, [], rest⟩).toList := by
    intro name
    simp [literal, Regex.matchesAt_followedBy, Regex.matchesAt]
  -- the choice grows from the left, and what is added is tried last
  have hfold : ∀ e : Regex,
      (names.foldl (fun e other => e.choice (literal other)) e).matchesAt cs =
        e.matchesAt cs ++ names.flatMap fun name => (literal name).matchesAt cs := by
    induction names with
    | nil => simp
    | cons other names ih =>
      intro e
      rw [List.foldl_cons, ih (List.cons_ne_nil _ _)]
      simp [Regex.matchesAt]
  rw [choices, hfold, List.flatMap_cons, hliteral]
  simp only [hliteral]

/-- The match at the beginning of a text in which a reference to the name stands there. -/
def referenceAt? (cs : List Char) (name : String) : Option Regex.Match :=
  (Text.dropStart? (written name.toList) cs).map fun rest =>
    ⟨written name.toList, [(1, name.toList)], rest⟩

/-- The expression matches where a reference to one of the names stands.  The earlier a name is
given, the more it is preferred. -/
theorem matchesAt_expression {names : List String} (hne : names ≠ []) (cs : List Char) :
    (expression names).matchesAt cs = names.filterMap (referenceAt? cs) := by
  rw [List.filterMap_eq_flatMap_toList]
  cases cs with
  | nil => simp [expression, Regex.matchesAt, referenceAt?, written, Text.dropStart?]
  | cons c cs =>
    by_cases hopen : '{' = c
    case neg => simp [expression, Regex.matchesAt, referenceAt?, written, Text.dropStart?, hopen]
    case pos =>
    subst hopen
    -- of a reference, the name comes behind the opening brace and the closing one behind the name
    have hdrop : ∀ name : List Char, Text.dropStart? (written name) ('{' :: cs) =
        (Text.dropStart? name cs).bind (Text.dropStart? ['}']) := by
      intro name
      rw [← Text.dropStart?_append_start, written, Text.dropStart?, if_pos rfl]
    have hmatches : (expression names).matchesAt ('{' :: cs) =
        ((choices names).matchesAt cs).flatMap fun m =>
          ((Text.dropStart? ['}'] m.rest).map fun rest =>
            ⟨'{' :: (m.text ++ ['}']), (1, m.text) :: m.groups, rest⟩).toList := by
      rw [expression, Regex.matchesAt, Regex.matchesAt, Regex.matchesAt]
      simp only [Regex.matchesAt_character]
      simp [Regex.matchesAt, Text.dropStart?, List.flatMap_map, Option.toList_map,
        Function.comp_def]
    rw [hmatches, matchesAt_choices hne, List.flatMap_assoc]
    congr 1
    funext name
    rw [referenceAt?, hdrop]
    cases Text.dropStart? name.toList cs with
    | none => rfl
    | some rest => simp [written]

theorem head?_matchesAt_expression {names : List String} (hne : names ≠ []) (cs : List Char) :
    ((expression names).matchesAt cs).head? = (atStart? names cs).map fun (name, rest) =>
      ⟨written name.toList, [(1, name.toList)], rest⟩ := by
  rw [matchesAt_expression hne, List.head?_filterMap, atStart?, List.map_findSome?]
  congr 1
  funext name
  simp [referenceAt?, Function.comp_def]

/-- A match is as long as the reference that stands there. -/
theorem consumes_expression {names : List String} (hne : names ≠ []) :
    (expression names).Consumes := by
  intro cs m hm
  rw [matchesAt_expression hne, List.mem_filterMap] at hm
  obtain ⟨name, -, hm⟩ := hm
  obtain ⟨rest, hrest, rfl⟩ := Option.map_eq_some_iff.mp hm
  rw [Text.dropStart?_eq_some_iff.mp hrest]
  simp only [written, List.length_append, List.length_cons]
  omega

/-! ## Replacing its matches -/

/-- The leftmost match is the first reference. -/
theorem find?_expression {names : List String} (hne : names ≠ []) (cs : List Char) :
    (expression names).find? cs = (first? names cs).map fun (before, name, rest) =>
      (before, ⟨written name.toList, [(1, name.toList)], rest⟩) := by
  induction cs with
  | nil => rw [Regex.find?, head?_matchesAt_expression hne, atStart?_nil]; rfl
  | cons c cs ih =>
    rw [Regex.find?, head?_matchesAt_expression hne, first?]
    cases atStart? names (c :: cs) with
    | some found => rfl
    | none => simp [ih, Function.comp_def]

/-- Replacing all matches is qualifying all references. -/
theorem replaceAll_expression {names : List String} (hne : names ≠ []) (qualifier cs : List Char) :
    (expression names).replaceAll (fun groups => written (qualifier ++ (groups 1).getD [])) cs =
      qualifyChars names qualifier cs := by
  fun_induction qualifyChars names qualifier cs with
  | case1 cs hfirst => rw [Regex.replaceAll, find?_expression hne, hfirst]; rfl
  | case2 cs before name after hfirst ih =>
    rw [Regex.replaceAll, find?_expression hne, hfirst]
    simp only [Option.map_some, length_of_first? hfirst, dite_true, ih]
    rfl

/-- Without names there are no references. -/
theorem qualifyChars_noNames (qualifier cs : List Char) : qualifyChars [] qualifier cs = cs := by
  induction cs with
  | nil => exact qualifyChars_nil [] qualifier
  | cons c cs ih => rw [qualifyChars_of_notAtStart qualifier rfl, ih]

/-- What is compiled, if anything has to be, qualifies all references. -/
theorem rewriter?_eq {library : RegexLibrary} (hlibrary : library.Documented) {names : List String}
    (hcompiles : names ≠ [] → (library.compile (pattern library names)).isSome)
    (qualifier : String) : rewriter? library names qualifier = some (qualify names qualifier) := by
  by_cases hne : names = []
  · subst hne
    rw [rewriter?, List.isEmpty_nil, if_pos rfl]
    -- without names there is nothing to find, and the text stays as it is
    congr 1
    funext text
    rw [qualify, qualifyChars_noNames, String.ofList_toList, id]
  · obtain ⟨compiled, hcompiled⟩ := Option.isSome_iff_exists.mp (hcompiles hne)
    have hreplace := hlibrary.replaceAll (read?_pattern hlibrary hne) (consumes_expression hne)
      hcompiled
    rw [rewriter?, if_neg (by simpa using hne), hcompiled, Option.map_some]
    congr 1
    funext text
    rw [hreplace, replaceAll_expression hne, qualify]

/-! ## The order of the names -/

/-- If no name holds a brace, only one name can be referred to at a place, so it does not matter in
which order the names are given. -/
theorem qualifyChars_congr {names others : List String}
    (hnames : ∀ name ∈ names, BraceFree name.toList)
    (hsame : ∀ name, name ∈ others ↔ name ∈ names) (qualifier cs : List Char) :
    qualifyChars others qualifier cs = qualifyChars names qualifier cs := by
  have hothers : ∀ name ∈ others, BraceFree name.toList :=
    fun name hname => hnames name ((hsame name).mp hname)
  -- behind an opening brace the name up to the next brace decides, and it does not matter which
  -- of the names are tried before it
  have hat : ∀ cs, atStart? others cs = atStart? names cs := by
    intro cs
    cases cs with
    | nil => rw [atStart?_nil, atStart?_nil]
    | cons c cs =>
      by_cases hopen : c = '{'
      · subst hopen
        apply Option.ext
        rintro ⟨name, after⟩
        rw [atStart?_eq_some_iff hothers, atStart?_eq_some_iff hnames, hsame]
      · rw [atStart?_of_ne others cs hopen, atStart?_of_ne names cs hopen]
  have hfirst : ∀ cs, first? others cs = first? names cs := by
    intro cs
    induction cs with
    | nil => rfl
    | cons c cs ih => rw [first?, first?, hat, ih]
  fun_induction qualifyChars names qualifier cs with
  | case1 cs hnone => exact qualifyChars_of_first?_eq_none qualifier ((hfirst cs).trans hnone)
  | case2 cs before name after hsome ih =>
    rw [qualifyChars_of_first? qualifier ((hfirst cs).trans hsome), ih]

/-! ## Rewriting the references in a text -/

/-- What becomes of the references to the macros of a lexicon in a text. -/
structure Scans (library : RegexLibrary) (l : Lexicon) (qualifier text : String) : Prop where
  /-- Whatever the macros are called, what is written is an expression, and it matches references
  only. -/
  readable : l.macros.keys ≠ [] →
    Regex.read? (pattern library l.macros.keys) = some (expression l.macros.keys) ∧
      ∀ cs, (expression l.macros.keys).matchesAt cs = l.macros.keys.filterMap (referenceAt? cs)
  /-- If it can be compiled, the text becomes what it becomes when the lexicon is renamed; if there
  are no macros, nothing is compiled. -/
  rewritten : (l.macros.keys ≠ [] → (library.compile (pattern library l.macros.keys)).isSome) →
    (rewriter? library l.macros.keys qualifier).map (fun rewrite => rewrite text) =
      some (qualify l.macros.keys qualifier text)
  /-- A scan from left to right gives the same, and nothing else. -/
  scanned : ∀ out, Scan l.macros.keys qualifier.toList text.toList out ↔
    out = (qualify l.macros.keys qualifier text).toList
  /-- If no macro has a brace in its name, the order of the macros does not matter. -/
  reordered : (∀ name ∈ l.macros.keys, BraceFree name.toList) → ∀ other : Lexicon,
    (∀ name, name ∈ other.macros.keys ↔ name ∈ l.macros.keys) →
      qualify other.macros.keys qualifier text = qualify l.macros.keys qualifier text

/-- References are rewritten as by a scan, by any library that does what its documentation says. -/
theorem rewriter_scans {library : RegexLibrary} (hlibrary : library.Documented) (l : Lexicon)
    (qualifier text : String) : Scans library l qualifier text where
  readable := fun hne => ⟨read?_pattern hlibrary hne, matchesAt_expression hne⟩
  rewritten := by
    intro hcompiles
    rw [rewriter?_eq hlibrary hcompiles, Option.map_some]
  scanned := by
    intro out
    rw [scan_iff, qualify, String.toList_ofList]
  reordered := by
    intro hnames other hsame
    rw [qualify, qualify, qualifyChars_congr hnames hsame]

/-- A lexicon with macros some of whose names mean something in a regular expression, begin alike or
hold braces. -/
def awkwardLexicon : Lexicon where
  macros := .ofList [("a", "."), ("a.b", "[0-9]"), ("", "x"), ("$1", "y"), ("a\x7d\x7bb", "z")]

/-- An open brace and then names in braces. -/
def bracedNames (names : List String) : String :=
  String.ofList ('{' :: names.flatMap fun name => written name.toList)

theorem awkwardLexicon_scans : Regex.library.Documented ∧
    (rewriter? Regex.library awkwardLexicon.macros.keys "m$0__").map
      (fun rewrite => rewrite (bracedNames ["a", "b", "a.b", "axb", "", "$1"])) =
        some (bracedNames ["m$0__a", "b", "m$0__a.b", "axb", "m$0__", "m$0__$1"]) ∧
    Scans Regex.library awkwardLexicon "m$0__" (bracedNames ["a", "b", "a.b", "axb", "", "$1"]) :=
  ⟨Regex.documented_library, by decide +kernel,
    rewriter_scans Regex.documented_library awkwardLexicon _ _⟩

end ModularGrammar.MacroReference
