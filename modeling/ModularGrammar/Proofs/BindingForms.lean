import ModularGrammar.Directive.Reader
import ModularGrammar.Proofs.Merging

/-!
# The Forms of Imports and Exports

Imports and exports are written in a few forms, in which the words `lex`, `from`, `as` and `default`
may stand for names as well.  The readers accept exactly these forms.

## Architecture

1. `Item`, `Contents`, `Group`: a group in braces and its lexemes
2. `ImportForm`, `ExportForm`: the forms, their lexemes, and what they say
3. The readers of groups, imports and exports accept their forms and nothing else
4. `HasLexemes`: the same for texts
-/

namespace ModularGrammar.Directive

/-! ## Groups -/

/-- The lexeme, if it is there. -/
def optionally (present : Bool) (l : Lexeme) : List Lexeme :=
  if present then [l] else []

/-- An item of a group: a name, and the name it is to be known as, if that is another. -/
structure Item where
  name : String
  /-- The name that follows the word `as`. -/
  renamed : Option String
deriving DecidableEq

namespace Item

def knownAs (i : Item) : String := i.renamed.getD i.name

def lexemes (i : Item) : List Lexeme :=
  .word i.name :: i.renamed.elim [] fun knownAs => [.word "as", .word knownAs]

/-- The two names of an item. -/
def pair (i : Item) : String × String := (i.name, i.knownAs)

end Item

/-- What stands between braces: any number of items, and perhaps a comma after the last one. -/
structure Contents where
  items : List Item
  comma : Bool
  /-- There is no comma without an item. -/
  items_ne_nil : comma = true → items ≠ []
deriving DecidableEq

namespace Contents

/-- The items with commas between them, and the closing brace. -/
def lexemes (c : Contents) : List Lexeme :=
  [.mark ','].intercalate (c.items.map Item.lexemes) ++ optionally c.comma (.mark ',') ++
    [.mark '}']

def pairs (c : Contents) : List (String × String) := c.items.map Item.pair

end Contents

/-- A group in braces, with the word `lex` before or after it, at both places or at none. -/
structure Group where
  lexBefore : Bool
  contents : Contents
  lexAfter : Bool
deriving DecidableEq

namespace Group

def lexemes (g : Group) : List Lexeme :=
  optionally g.lexBefore (.word "lex") ++ .mark '{' :: g.contents.lexemes ++
    optionally g.lexAfter (.word "lex")

/-- A group is lexical if the word `lex` stands on one of its sides. -/
def lexical (g : Group) : Bool := g.lexBefore || g.lexAfter

/-- The items of a group, in order, each lexical if the group is. -/
def bindings (g : Group) : List Binding :=
  g.contents.items.map fun i => ⟨i.name, i.knownAs, g.lexical⟩

end Group

/-! ## Imports and exports -/

/-- The local name of a default import, and perhaps a comma after it. -/
structure DefaultPart where
  name : String
  ne_lex : name ≠ "lex"
  ne_from : name ≠ "from"
  comma : Bool
deriving DecidableEq

namespace DefaultPart

def lexemes (d : DefaultPart) : List Lexeme :=
  .word d.name :: optionally d.comma (.mark ',')

def binding (d : DefaultPart) : Binding := ⟨"default", d.name, false⟩

end DefaultPart

inductive ImportForm where
  | bare (path : String)
  | grouped (group : Group) (path : String)
  | named (first : DefaultPart) (path : String)
  | both (first : DefaultPart) (group : Group) (path : String)
deriving DecidableEq

/-- The end of an import that has bindings. -/
def originLexemes (path : String) : List Lexeme := [.word "from", .quoted path]

namespace ImportForm

def lexemes : ImportForm → List Lexeme
  | bare path => [.quoted path]
  | grouped group path => group.lexemes ++ originLexemes path
  | named first path => first.lexemes ++ originLexemes path
  | both first group path => first.lexemes ++ group.lexemes ++ originLexemes path

/-- What an import says: the default binding comes first. -/
def directive : ImportForm → ImportDirective
  | bare path => ⟨path, []⟩
  | grouped group path => ⟨path, group.bindings⟩
  | named first path => ⟨path, [first.binding]⟩
  | both first group path => ⟨path, first.binding :: group.bindings⟩

end ImportForm

inductive ExportForm where
  | named (name : String) (ne_lex : name ≠ "lex")
  | grouped (group : Group)
deriving DecidableEq

namespace ExportForm

def lexemes : ExportForm → List Lexeme
  | named name _ => [.word "default", .word name]
  | grouped group => group.lexemes

/-- What an export says. -/
def directive : ExportForm → ExportDirective
  | named name _ => ⟨[⟨name, "default", false⟩]⟩
  | grouped group => ⟨group.bindings⟩

end ExportForm

/-! ## Reading groups -/

section Groups

variable {lexemes rest after : List Lexeme} {pairs : List (String × String)}

namespace Contents

def empty : Contents := ⟨[], false, by simp⟩

def single (i : Item) : Contents := ⟨[i], false, by simp⟩

/-- One item more at the front, with a comma after it. -/
def push (i : Item) (c : Contents) : Contents :=
  ⟨i :: c.items, c.comma || c.items.isEmpty, by simp⟩

theorem lexemes_push (i : Item) (c : Contents) :
    (c.push i).lexemes = i.lexemes ++ .mark ',' :: c.lexemes := by
  obtain ⟨items, comma, h⟩ := c
  cases items with
  | nil =>
    have hcomma : comma = false := by simpa using h
    simp [push, lexemes, optionally, hcomma]
  | cons j items => simp [push, lexemes, List.intercalate_cons_cons]

theorem lexemes_single (i : Item) : (single i).lexemes = i.lexemes ++ [.mark '}'] := by
  simp [single, lexemes, optionally]

/-- Contents are read as they are built: empty, one item, or one item more at the front. -/
@[elab_as_elim]
theorem induction {motive : Contents → Prop} (hempty : motive empty)
    (hsingle : ∀ i, motive (single i)) (hpush : ∀ i c, motive c → motive (push i c))
    (c : Contents) : motive c := by
  obtain ⟨items, comma, h⟩ := c
  induction items with
  | nil =>
    have hcomma : comma = false := by simpa using h
    subst hcomma
    exact hempty
  | cons i items ih =>
    by_cases hlast : items = [] ∧ comma = false
    · obtain ⟨rfl, rfl⟩ := hlast
      exact hsingle i
    · -- a comma follows the first item; it is the last one if no other item follows
      by_cases hitems : items = []
      · subst hitems
        have hcomma : comma = true := by simpa using hlast
        subst hcomma
        exact hpush i empty hempty
      · have hrest := hpush i _ (ih fun _ => hitems)
        have hnot : items.isEmpty = false := by simpa using hitems
        simpa only [push, hnot, Bool.or_false] using hrest

end Contents

theorem readItems_item (i : Item) (c : Char) (rest : List Lexeme) :
    readItems (i.lexemes ++ .mark c :: rest) = readMore i.pair (.mark c :: rest) := by
  obtain ⟨name, renamed⟩ := i
  cases renamed <;> simp [Item.lexemes, Item.pair, Item.knownAs, readItems]

theorem readItems_contents (c : Contents) (after : List Lexeme) :
    readItems (c.lexemes ++ after) = .ok (c.pairs, after) := by
  induction c using Contents.induction with
  | hempty => rfl
  | hsingle i =>
    rw [Contents.lexemes_single, List.append_assoc, List.singleton_append, readItems_item]
    rfl
  | hpush i c ih =>
    rw [Contents.lexemes_push, List.append_assoc, List.cons_append, readItems_item, readMore, ih]
    rfl

/-- What is read as items begins with an item or is closed at once. -/
theorem readItems_eq_ok (h : readItems lexemes = .ok (pairs, after)) :
    lexemes = .mark '}' :: after ∧ pairs = [] ∨
      ∃ (i : Item) (rest : List Lexeme), lexemes = i.lexemes ++ rest ∧
        readMore i.pair rest = .ok (pairs, after) := by
  unfold readItems at h
  split at h
  · cases h
    exact .inl ⟨rfl, rfl⟩
  · next name knownAs rest => exact .inr ⟨⟨name, some knownAs⟩, rest, rfl, h⟩
  · cases h
  · next name rest _ _ => exact .inr ⟨⟨name, none⟩, rest, rfl, h⟩
  · cases h

/-- Behind an item the group is closed, or a comma and further items follow. -/
theorem readMore_eq_ok {item : String × String} (h : readMore item lexemes = .ok (pairs, after)) :
    lexemes = .mark '}' :: after ∧ pairs = [item] ∨
      ∃ rest more, lexemes = .mark ',' :: rest ∧ readItems rest = .ok (more, after) ∧
        pairs = item :: more := by
  unfold readMore at h
  split at h
  · next rest =>
    cases hread : readItems rest with
    | error e => simp [hread, Except.map] at h
    | ok found =>
      simp only [hread, Except.map, Except.ok.injEq, Prod.mk.injEq] at h
      obtain ⟨rfl, rfl⟩ := h
      exact .inr ⟨rest, found.1, rfl, hread, rfl⟩
  · cases h
    exact .inl ⟨rfl, rfl⟩
  · cases h

theorem exists_contents_of_readItems (h : readItems lexemes = .ok (pairs, after)) :
    ∃ c : Contents, lexemes = c.lexemes ++ after ∧ pairs = c.pairs := by
  -- an item and a comma are taken off the front before items are read again
  induction hlength : lexemes.length using Nat.strongRecOn generalizing lexemes pairs with
  | ind n ih =>
    subst hlength
    rcases readItems_eq_ok h with ⟨rfl, rfl⟩ | ⟨i, rest, rfl, hmore⟩
    · exact ⟨.empty, rfl, rfl⟩
    · rcases readMore_eq_ok hmore with ⟨rfl, rfl⟩ | ⟨more, items, rfl, hitems, rfl⟩
      · exact ⟨.single i, by simp [Contents.lexemes_single], rfl⟩
      · obtain ⟨c, rfl, rfl⟩ := ih _ (by simp [Item.lexemes]; omega) hitems rfl
        exact ⟨c.push i, by simp [Contents.lexemes_push], rfl⟩

/-- The items of a group are read up to the closing brace. -/
theorem readItems_eq_ok_iff : readItems lexemes = .ok (pairs, after) ↔
    ∃ c : Contents, lexemes = c.lexemes ++ after ∧ pairs = c.pairs := by
  constructor
  · exact exists_contents_of_readItems
  · rintro ⟨c, rfl, rfl⟩
    exact readItems_contents c after

theorem readGroup_eq_ok_iff : readGroup lexemes = .ok (pairs, after) ↔
    ∃ c : Contents, lexemes = .mark '{' :: c.lexemes ++ after ∧ pairs = c.pairs := by
  unfold readGroup
  split
  · next rest => simp [readItems_eq_ok_iff]
  · next hother =>
    constructor
    · intro h
      cases h
    · rintro ⟨c, rfl, -⟩
      exact absurd rfl (hother (c.lexemes ++ after))

end Groups

/-! ## Words that may be left out -/

section Words

variable {word : String} {lexemes rest : List Lexeme}

/-- Some lexemes that do not begin with a word. -/
def LacksWord (word : String) (lexemes : List Lexeme) : Prop :=
  lexemes.head? ≠ some (.word word)

theorem takeWord_optionally (present : Bool) (h : LacksWord word rest) :
    takeWord word (optionally present (.word word) ++ rest) = (present, rest) := by
  cases present with
  | true => simp [optionally, takeWord]
  | false =>
    cases rest with
    | nil => rfl
    | cons l rest =>
      cases l with
      | word w =>
        -- what follows does not begin with the word, by assumption
        have hne : w ≠ word := by
          rintro rfl
          exact h rfl
        simp [optionally, takeWord, hne]
      | mark | quoted => rfl

/-- A word is taken off the front if it is there. -/
theorem exists_takeWord (word : String) (lexemes : List Lexeme) :
    ∃ present rest, takeWord word lexemes = (present, rest) ∧
      lexemes = optionally present (.word word) ++ rest ∧
      (present = false → LacksWord word rest) := by
  unfold takeWord
  split
  · next w rest =>
    by_cases h : w = word
    · exact ⟨true, rest, by simp [h], by simp [h, optionally], by simp⟩
    · exact ⟨false, .word w :: rest, by simp [h], rfl, by simp [LacksWord, h]⟩
  · next hother =>
    refine ⟨false, lexemes, rfl, rfl, fun _ hword => ?_⟩
    obtain ⟨rest, rfl⟩ := List.head?_eq_some_iff.mp hword
    exact hother word rest rfl

theorem dropComma_optionally (present : Bool) (h : rest.head? ≠ some (.mark ',')) :
    dropComma (optionally present (.mark ',') ++ rest) = rest := by
  cases present with
  | true => rfl
  | false =>
    show dropComma rest = rest
    unfold dropComma
    split
    · exact absurd rfl h
    · rfl

/-- A comma is taken off the front if it is there. -/
theorem dropComma_spec (lexemes : List Lexeme) :
    ∃ comma, lexemes = optionally comma (.mark ',') ++ dropComma lexemes := by
  unfold dropComma
  split
  · exact ⟨true, rfl⟩
  · exact ⟨false, rfl⟩

theorem atEnd_eq_ok_iff {α : Type} {result found : α} :
    atEnd result lexemes = .ok found ↔ lexemes = [] ∧ found = result := by
  cases lexemes <;> simp [atEnd, eq_comm]

end Words

/-! ## Reading imports -/

section Imports

variable {lexemes : List Lexeme} {first : List Binding} {d : ImportDirective}

theorem readOrigin_eq_ok_iff : readOrigin first lexemes = .ok d ↔
    ∃ path, lexemes = originLexemes path ∧ d = ⟨path, first⟩ := by
  constructor
  · intro h
    obtain ⟨present, rest, htake, rfl, -⟩ := exists_takeWord "from" lexemes
    rw [readOrigin, htake] at h
    split at h
    · cases h
    · next path rest heq =>
      cases heq
      obtain ⟨rfl, rfl⟩ := atEnd_eq_ok_iff.mp h
      exact ⟨path, rfl, rfl⟩
    · cases h
  · rintro ⟨path, rfl, rfl⟩
    rfl

theorem lacksWord_origin (path : String) : LacksWord "lex" (originLexemes path) := by
  simp [LacksWord, originLexemes]

/-- The lexemes of a group without the word `lex` that may stand before it. -/
def Group.braced (g : Group) : List Lexeme :=
  .mark '{' :: g.contents.lexemes ++ optionally g.lexAfter (.word "lex")

theorem Group.lexemes_eq (g : Group) :
    g.lexemes = optionally g.lexBefore (.word "lex") ++ g.braced := by
  simp [Group.lexemes, Group.braced]

theorem Group.bindings_eq (g : Group) :
    groupBindings (g.lexBefore || g.lexAfter) g.contents.pairs = g.bindings := by
  simp [groupBindings, Group.bindings, Group.lexical, Contents.pairs, Item.pair]

theorem readGroup_braced (g : Group) (rest : List Lexeme) :
    readGroup (g.braced ++ rest) =
      .ok (g.contents.pairs, optionally g.lexAfter (.word "lex") ++ rest) :=
  readGroup_eq_ok_iff.mpr ⟨g.contents, by simp [Group.braced], rfl⟩

theorem readImportGroup_eq_ok_iff {lexBefore : Bool} :
    readImportGroup first lexBefore lexemes = .ok d ↔
      ∃ (g : Group) (path : String), g.lexBefore = lexBefore ∧
        lexemes = g.braced ++ originLexemes path ∧ d = ⟨path, first ++ g.bindings⟩ := by
  unfold readImportGroup
  rw [except_bind_eq_ok]
  constructor
  · rintro ⟨⟨pairs, rest⟩, hgroup, h⟩
    -- read from the left: the braces, then perhaps `lex`, then the origin
    obtain ⟨c, rfl, rfl⟩ := readGroup_eq_ok_iff.mp hgroup
    obtain ⟨lexAfter, rest, htake, rfl, -⟩ := exists_takeWord "lex" rest
    simp only [htake] at h
    obtain ⟨path, rfl, rfl⟩ := readOrigin_eq_ok_iff.mp h
    refine ⟨⟨lexBefore, c, lexAfter⟩, path, rfl, ?_, by rw [← Group.bindings_eq]⟩
    simp [Group.braced]
  · rintro ⟨g, path, rfl, rfl, rfl⟩
    refine ⟨_, readGroup_braced g (originLexemes path), ?_⟩
    simp only [takeWord_optionally g.lexAfter (lacksWord_origin path), Group.bindings_eq]
    exact readOrigin_eq_ok_iff.mpr ⟨path, rfl, rfl⟩

theorem takeWord_group (g : Group) (rest : List Lexeme) :
    takeWord "lex" (g.lexemes ++ rest) = (g.lexBefore, g.braced ++ rest) := by
  rw [Group.lexemes_eq, List.append_assoc]
  exact takeWord_optionally g.lexBefore (by simp [LacksWord, Group.braced])

/-- Behind the name of a default import there may be a comma, and there may be a group. -/
theorem readAfterDefault_eq_ok_iff {name : String} : readAfterDefault name lexemes = .ok d ↔
    ∃ comma rest, lexemes = optionally comma (.mark ',') ++ rest ∧
      ((∃ path, rest = originLexemes path ∧ d = ⟨path, [⟨"default", name, false⟩]⟩) ∨
        ∃ (g : Group) (path : String), rest = g.lexemes ++ originLexemes path ∧
          d = ⟨path, ⟨"default", name, false⟩ :: g.bindings⟩) := by
  constructor
  · intro h
    obtain ⟨comma, hcomma⟩ := dropComma_spec lexemes
    refine ⟨comma, _, hcomma, ?_⟩
    obtain ⟨lexBefore, rest, htake, hrest, -⟩ := exists_takeWord "lex" (dropComma lexemes)
    rw [hrest]
    simp only [readAfterDefault, htake] at h
    -- a brace opens a group; anything else, unless `lex` was there, must be the end
    split at h
    · next heq =>
      cases heq
      obtain ⟨g, path, rfl, hgroup, rfl⟩ := readImportGroup_eq_ok_iff.mp h
      exact .inr ⟨g, path, by rw [hgroup, Group.lexemes_eq, List.append_assoc], rfl⟩
    · cases h
    · next heq =>
      cases heq
      exact .inl (readOrigin_eq_ok_iff.mp h)
  · rintro ⟨comma, rest, rfl, ⟨path, rfl, rfl⟩ | ⟨g, path, rfl, rfl⟩⟩
    · rw [readAfterDefault, dropComma_optionally comma (by simp [originLexemes])]
      rfl
    · -- no group begins with a comma, so only the optional one is dropped
      have hdrop : dropComma (optionally comma (.mark ',') ++
          (g.lexemes ++ originLexemes path)) = g.lexemes ++ originLexemes path := by
        apply dropComma_optionally
        cases hlex : g.lexBefore <;> simp [Group.lexemes, optionally, hlex]
      rw [readAfterDefault, hdrop, takeWord_group]
      exact readImportGroup_eq_ok_iff.mpr ⟨g, path, rfl, rfl, rfl⟩

theorem readImportLexemes_default (first : DefaultPart) (rest : List Lexeme) :
    readImportLexemes (first.lexemes ++ rest) =
      readAfterDefault first.name (optionally first.comma (.mark ',') ++ rest) := by
  simp [readImportLexemes, DefaultPart.lexemes, takeWord, first.ne_lex, first.ne_from]

/-- The lexemes of an import are read exactly if they are those of one of the forms. -/
theorem readImportLexemes_eq_ok_iff : readImportLexemes lexemes = .ok d ↔
    ∃ form : ImportForm, form.lexemes = lexemes ∧ form.directive = d := by
  constructor
  · intro h
    unfold readImportLexemes at h
    split at h
    · next path rest =>
      obtain ⟨rfl, rfl⟩ := atEnd_eq_ok_iff.mp h
      exact ⟨.bare path, rfl, rfl⟩
    · obtain ⟨lexBefore, rest, htake, rfl, hlacks⟩ := exists_takeWord "lex" lexemes
      simp only [htake] at h
      split at h
      · next heq =>
        cases heq
        obtain ⟨g, path, rfl, hgroup, rfl⟩ := readImportGroup_eq_ok_iff.mp h
        exact ⟨.grouped g path, by
          rw [hgroup, ImportForm.lexemes, Group.lexemes_eq, List.append_assoc], rfl⟩
      · next name rest heq =>
        cases heq
        -- a word is a default name unless it is one of the two that have a meaning here
        by_cases hfrom : name = "from"
        · simp [hfrom] at h
        by_cases hlex : lexBefore = true
        · simp [hfrom, hlex] at h
        obtain rfl := Bool.eq_false_iff.mpr hlex
        rw [if_neg hfrom, if_neg hlex] at h
        have hname : name ≠ "lex" := by
          rintro rfl
          exact hlacks rfl rfl
        obtain ⟨comma, rest, rfl, ⟨path, rfl, rfl⟩ | ⟨g, path, rfl, rfl⟩⟩ :=
          readAfterDefault_eq_ok_iff.mp h
        · exact ⟨.named ⟨name, hname, hfrom, comma⟩ path, rfl, rfl⟩
        · exact ⟨.both ⟨name, hname, hfrom, comma⟩ g path, by
            simp [ImportForm.lexemes, DefaultPart.lexemes, optionally], rfl⟩
      · cases h
  · rintro ⟨form, rfl, rfl⟩
    cases form with
    | bare path => rfl
    | grouped g path =>
      rw [ImportForm.lexemes, readImportLexemes]
      · rw [takeWord_group]
        exact readImportGroup_eq_ok_iff.mpr ⟨g, path, rfl, rfl, rfl⟩
      · cases hlex : g.lexBefore <;> simp [Group.lexemes, optionally, hlex]
    -- the comma belongs to the default name, and the group or the origin follows it
    | named first path =>
      rw [ImportForm.lexemes, readImportLexemes_default]
      exact readAfterDefault_eq_ok_iff.mpr ⟨first.comma, _, rfl, .inl ⟨path, rfl, rfl⟩⟩
    | both first g path =>
      rw [ImportForm.lexemes, List.append_assoc, readImportLexemes_default]
      exact readAfterDefault_eq_ok_iff.mpr ⟨first.comma, _, rfl, .inr ⟨g, path, rfl, rfl⟩⟩

end Imports

/-! ## Reading exports -/

section Exports

variable {lexemes : List Lexeme} {d : ExportDirective}

theorem readDefaultExport_eq_ok_iff : readDefaultExport lexemes = .ok d ↔
    ∃ name, name ≠ "lex" ∧ lexemes = [.word name] ∧ d = ⟨[⟨name, "default", false⟩]⟩ := by
  constructor
  · intro h
    obtain ⟨present, rest, htake, rfl, hlacks⟩ := exists_takeWord "lex" lexemes
    rw [readDefaultExport, htake] at h
    split at h
    · cases h
    · next name rest heq =>
      cases heq
      obtain ⟨rfl, rfl⟩ := atEnd_eq_ok_iff.mp h
      refine ⟨name, ?_, rfl, rfl⟩
      -- a name `lex` would have been taken for the word
      rintro rfl
      exact hlacks rfl rfl
    · cases h
  · rintro ⟨name, hname, rfl, rfl⟩
    simp [readDefaultExport, takeWord, hname, atEnd, defaultName]

theorem readExportGroup_eq_ok_iff {lexBefore : Bool} : readExportGroup lexBefore lexemes = .ok d ↔
    ∃ g : Group, g.lexBefore = lexBefore ∧ lexemes = g.braced ∧ d = ⟨g.bindings⟩ := by
  unfold readExportGroup
  rw [except_bind_eq_ok]
  constructor
  · rintro ⟨⟨pairs, rest⟩, hgroup, h⟩
    -- read from the left: the braces, then perhaps `lex`, then nothing
    obtain ⟨c, rfl, rfl⟩ := readGroup_eq_ok_iff.mp hgroup
    obtain ⟨lexAfter, rest, htake, rfl, -⟩ := exists_takeWord "lex" rest
    simp only [htake] at h
    obtain ⟨rfl, rfl⟩ := atEnd_eq_ok_iff.mp h
    refine ⟨⟨lexBefore, c, lexAfter⟩, rfl, ?_, by rw [← Group.bindings_eq]⟩
    simp [Group.braced]
  · rintro ⟨g, rfl, rfl, rfl⟩
    have hgroup := readGroup_braced g []
    rw [List.append_nil] at hgroup
    refine ⟨_, hgroup, ?_⟩
    simp only [takeWord_optionally g.lexAfter (show LacksWord "lex" [] by simp [LacksWord]),
      Group.bindings_eq]
    rfl

/-- The lexemes of an export are read exactly if they are those of one of the forms. -/
theorem readExportLexemes_eq_ok_iff : readExportLexemes lexemes = .ok d ↔
    ∃ form : ExportForm, form.lexemes = lexemes ∧ form.directive = d := by
  constructor
  · intro h
    obtain ⟨isDefault, rest, htake, rfl, -⟩ := exists_takeWord "default" lexemes
    simp only [readExportLexemes, htake] at h
    cases isDefault with
    | true =>
      obtain ⟨name, hname, rfl, rfl⟩ := readDefaultExport_eq_ok_iff.mp h
      exact ⟨.named name hname, rfl, rfl⟩
    | false =>
      obtain ⟨lexBefore, rest, hlex, rfl, -⟩ := exists_takeWord "lex" rest
      simp only [hlex] at h
      by_cases hdefault : (takeWord "default" rest).1 = true
      · simp [hdefault] at h
      · rw [if_neg hdefault] at h
        obtain ⟨g, rfl, rfl, rfl⟩ := readExportGroup_eq_ok_iff.mp h
        exact ⟨.grouped g, by simp [ExportForm.lexemes, Group.lexemes_eq, optionally], rfl⟩
  · rintro ⟨form, rfl, rfl⟩
    cases form with
    | named name hname =>
      exact readDefaultExport_eq_ok_iff.mpr ⟨name, hname, rfl, rfl⟩
    | grouped g =>
      -- `default` is looked for before and after the word `lex`, but stands inside the braces only
      have hnone : takeWord "default" g.lexemes = (false, g.lexemes) := by
        cases hlex : g.lexBefore <;> simp [Group.lexemes, optionally, takeWord, hlex]
      have htake := takeWord_group g []
      simp only [List.append_nil] at htake
      have hbraced : takeWord "default" g.braced = (false, g.braced) := rfl
      simp only [ExportForm.lexemes, readExportLexemes, hnone, htake, hbraced, Bool.false_eq_true,
        if_false]
      exact readExportGroup_eq_ok_iff.mpr ⟨g, rfl, rfl, rfl⟩

end Exports

/-! ## From texts to lexemes -/

/-- A line is made of its keyword, perhaps after blanks, and some lexemes. -/
def HasLexemes (kind : Kind) (line : String) (lexemes : List Lexeme) : Prop :=
  ∃ rest, Text.trimStart line.toList = '%' :: kind.keyword.toList ++ rest ∧
    Lexeme.scanBindings rest = .ok lexemes

section Lines

variable {kind : Kind} {line : String} {lexemes : List Lexeme}

theorem afterKeyword_eq_ok_iff {rest : List Char} : afterKeyword kind line = .ok rest ↔
    Text.trimStart line.toList = '%' :: kind.keyword.toList ++ rest := by
  rw [afterKeyword, ← Text.dropStart?_eq_some_iff]
  cases Text.dropStart? ('%' :: kind.keyword.toList) (Text.trimStart line.toList) <;> simp

/-- A directive is read by way of the lexemes that follow its keyword. -/
theorem scan_eq_ok_iff : (afterKeyword kind line >>= Lexeme.scanBindings) = .ok lexemes ↔
    HasLexemes kind line lexemes := by
  simp only [except_bind_eq_ok, afterKeyword_eq_ok_iff, HasLexemes]

/-- What reads exactly the lexemes of some forms reads exactly the lines with these lexemes. -/
theorem readLine_eq_ok_iff {Form Meaning : Type} {lexemesOf : Form → List Lexeme}
    {meaning : Form → Meaning}
    {readLexemes : List Lexeme → Except DirectiveError Meaning}
    (h : ∀ lexemes d, readLexemes lexemes = .ok d ↔
      ∃ form, lexemesOf form = lexemes ∧ meaning form = d) {d : Meaning} :
    (afterKeyword kind line >>= fun rest => Lexeme.scanBindings rest >>= readLexemes) = .ok d ↔
      ∃ form, HasLexemes kind line (lexemesOf form) ∧ meaning form = d := by
  rw [← bind_assoc, except_bind_eq_ok]
  simp only [scan_eq_ok_iff, h]
  constructor
  · rintro ⟨_, hline, form, rfl, rfl⟩
    exact ⟨form, hline, rfl⟩
  · rintro ⟨form, hline, rfl⟩
    exact ⟨_, hline, form, rfl, rfl⟩

theorem readImport_eq_ok_iff {d : ImportDirective} : readImport line = .ok d ↔
    ∃ form : ImportForm, HasLexemes .importing line form.lexemes ∧ form.directive = d :=
  readLine_eq_ok_iff fun _ _ => readImportLexemes_eq_ok_iff

theorem readExport_eq_ok_iff {d : ExportDirective} : readExport line = .ok d ↔
    ∃ form : ExportForm, HasLexemes .exporting line form.lexemes ∧ form.directive = d :=
  readLine_eq_ok_iff fun _ _ => readExportLexemes_eq_ok_iff

/-- The lexemes of a line are determined by its text. -/
theorem HasLexemes.unique {lexemes' : List Lexeme} (h : HasLexemes kind line lexemes)
    (h' : HasLexemes kind line lexemes') : lexemes = lexemes' := by
  rw [← scan_eq_ok_iff] at h h'
  exact Except.ok.inj (h.symm.trans h')

/-- A line has the lexemes of a form exactly if they are its own. -/
theorem HasLexemes.exists_form_iff {Form Meaning : Type} {lexemesOf : Form → List Lexeme}
    {meaning : Form → Meaning} {d : Meaning} (h : HasLexemes kind line lexemes) :
    (∃ form, HasLexemes kind line (lexemesOf form) ∧ meaning form = d) ↔
      ∃ form, lexemesOf form = lexemes ∧ meaning form = d := by
  constructor
  · rintro ⟨form, hform, rfl⟩
    exact ⟨form, hform.unique h, rfl⟩
  · rintro ⟨form, rfl, rfl⟩
    exact ⟨form, h, rfl⟩

end Lines

end ModularGrammar.Directive
