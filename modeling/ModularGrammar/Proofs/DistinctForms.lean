import Mathlib.Control.Monad.Basic
import ModularGrammar.Proofs.BindingForms

/-!
# Lexemes Determine the Form

The words that imports and exports are made of may be names as well, but where they stand tells
what they are: no two forms have the same lexemes.  So the text of an import or export that can be
read is read in one way.

## Architecture

1. Items, contents, groups and default names, each with what follows
2. `ImportForm.lexemes_injective`, `ExportForm.lexemes_injective`
3. `binding_directives_read_iff`: imports and exports from their texts
-/

namespace ModularGrammar.Directive

/-! ## Lexemes determine the form -/

section Unambiguous

variable {rest rest' : List Lexeme}

theorem Item.eq_of_append {i i' : Item} {c c' : Char}
    (h : i.lexemes ++ .mark c :: rest = i'.lexemes ++ .mark c' :: rest') :
    i = i' ∧ c = c' ∧ rest = rest' := by
  obtain ⟨name, renamed⟩ := i
  obtain ⟨name', renamed'⟩ := i'
  cases renamed <;> cases renamed' <;> simp_all [Item.lexemes]

/-- An item stands before a comma or before the closing brace, never in its place. -/
theorem Contents.eq_of_append {c c' : Contents} (h : c.lexemes ++ rest = c'.lexemes ++ rest') :
    c = c' ∧ rest = rest' := by
  have hempty : empty.lexemes = [.mark '}'] := rfl
  -- the two contents are compared item by item, and end at the same brace
  induction c using Contents.induction generalizing c' with
  | hempty =>
    cases c' using Contents.induction with
    | hempty => exact ⟨rfl, by simpa using h⟩
    | hsingle i => simp [hempty, lexemes_single, Item.lexemes] at h
    | hpush i c => simp [hempty, lexemes_push, Item.lexemes] at h
  | hsingle i =>
    rw [lexemes_single, List.append_assoc, List.singleton_append] at h
    cases c' using Contents.induction with
    | hempty => simp [hempty, Item.lexemes] at h
    | hsingle i' =>
      rw [lexemes_single, List.append_assoc] at h
      obtain ⟨rfl, -, rfl⟩ := Item.eq_of_append h
      exact ⟨rfl, rfl⟩
    | hpush i' c' =>
      rw [lexemes_push, List.append_assoc] at h
      -- after the item one text has a brace and the other a comma
      exact absurd (Item.eq_of_append h).2.1 (by decide)
  | hpush i c ih =>
    rw [lexemes_push, List.append_assoc, List.cons_append] at h
    cases c' using Contents.induction with
    | hempty => simp [hempty, Item.lexemes] at h
    | hsingle i' =>
      rw [lexemes_single, List.append_assoc] at h
      -- and the other way round
      exact absurd (Item.eq_of_append h).2.1 (by decide)
    | hpush i' c' =>
      rw [lexemes_push, List.append_assoc] at h
      obtain ⟨rfl, -, h⟩ := Item.eq_of_append h
      obtain ⟨rfl, rfl⟩ := ih h
      exact ⟨rfl, rfl⟩

theorem Group.eq_of_append {g g' : Group} (hrest : LacksWord "lex" rest)
    (hrest' : LacksWord "lex" rest') (h : g.lexemes ++ rest = g'.lexemes ++ rest') :
    g = g' ∧ rest = rest' := by
  -- the reader takes the word before the group, the contents and the word after it one by one
  have hbefore := congrArg (takeWord "lex") h
  rw [takeWord_group, takeWord_group, Prod.mk.injEq] at hbefore
  obtain ⟨hlex, hbraced⟩ := hbefore
  simp only [Group.braced, List.cons_append, List.append_assoc, List.cons.injEq,
    true_and] at hbraced
  obtain ⟨hcontents, hafter⟩ := Contents.eq_of_append hbraced
  have hword := congrArg (takeWord "lex") hafter
  rw [takeWord_optionally _ hrest, takeWord_optionally _ hrest', Prod.mk.injEq] at hword
  obtain ⟨hlexAfter, rfl⟩ := hword
  refine ⟨?_, rfl⟩
  cases g
  cases g'
  simp_all

theorem DefaultPart.eq_of_append {first first' : DefaultPart}
    (hrest : rest.head? ≠ some (.mark ',')) (hrest' : rest'.head? ≠ some (.mark ','))
    (h : first.lexemes ++ rest = first'.lexemes ++ rest') : first = first' ∧ rest = rest' := by
  simp only [DefaultPart.lexemes, List.cons_append, List.cons.injEq, Lexeme.word.injEq] at h
  obtain ⟨hname, htail⟩ := h
  have hdrop := congrArg dropComma htail
  rw [dropComma_optionally _ hrest, dropComma_optionally _ hrest'] at hdrop
  subst hdrop
  have hcomma := List.append_cancel_right htail
  refine ⟨?_, rfl⟩
  obtain ⟨name, _, _, comma⟩ := first
  obtain ⟨name', _, _, comma'⟩ := first'
  cases comma <;> cases comma' <;> simp_all [optionally]

theorem originLexemes_injective : Function.Injective originLexemes := by
  intro path path' h
  simpa [originLexemes] using h

/-- A group begins with the word `lex` or with its opening brace. -/
theorem Group.head?_append (g : Group) (rest : List Lexeme) :
    (g.lexemes ++ rest).head? = some (.word "lex") ∨
      (g.lexemes ++ rest).head? = some (.mark '{') := by
  cases hlex : g.lexBefore <;> simp [Group.lexemes, optionally, hlex]

theorem Group.append_ne_of_head? {g : Group} {l : Lexeme} (hrest' : rest'.head? = some l)
    (hlex : l ≠ .word "lex") (hbrace : l ≠ .mark '{') : g.lexemes ++ rest ≠ rest' := by
  rintro rfl
  rcases g.head?_append rest with h | h
  · exact hlex (Option.some.inj (hrest'.symm.trans h))
  · exact hbrace (Option.some.inj (hrest'.symm.trans h))

/-- No two forms of an import have the same lexemes, whatever words stand for names. -/
theorem ImportForm.lexemes_injective : Function.Injective ImportForm.lexemes := by
  -- what begins with a group begins with nothing else that an import may begin with
  have hbare : ∀ (g : Group) (rest : List Lexeme) (path : String),
      g.lexemes ++ rest ≠ [.quoted path] := by
    intro g rest path
    exact Group.append_ne_of_head? rfl (by simp) (by simp)
  have hdefault : ∀ (g : Group) (rest : List Lexeme) (first : DefaultPart) (rest' : List Lexeme),
      g.lexemes ++ rest ≠ first.lexemes ++ rest' := by
    intro g rest first rest'
    exact Group.append_ne_of_head? rfl (by simp [first.ne_lex]) (by simp)
  have horigin : ∀ (g : Group) (rest : List Lexeme) (path : String),
      g.lexemes ++ rest ≠ originLexemes path := by
    intro g rest path
    exact Group.append_ne_of_head? rfl (by simp) (by simp)
  -- what follows a default name does not begin with a comma of its own
  have hcomma : ∀ path, (originLexemes path).head? ≠ some (.mark ',') := by
    simp [originLexemes]
  have hgroupComma : ∀ (g : Group) (rest : List Lexeme),
      (g.lexemes ++ rest).head? ≠ some (.mark ',') := by
    intro g rest
    rcases g.head?_append rest with h | h <;> simp [h]
  intro form form' h
  cases form with
  | bare path =>
    cases form' with
    | bare path' => simpa [lexemes] using h
    | grouped g' path' => exact absurd h.symm (hbare g' _ path)
    | named first' path' => simp [lexemes, DefaultPart.lexemes] at h
    | both first' g' path' => simp [lexemes, DefaultPart.lexemes] at h
  | grouped g path =>
    cases form' with
    | bare path' => exact absurd h (hbare g _ path')
    | grouped g' path' =>
      obtain ⟨rfl, hpath⟩ := Group.eq_of_append (lacksWord_origin _) (lacksWord_origin _) h
      rw [originLexemes_injective hpath]
    | named first' path' => exact absurd h (hdefault g _ first' _)
    | both first' g' path' =>
      rw [lexemes, lexemes, List.append_assoc] at h
      exact absurd h (hdefault g _ first' _)
  | named first path =>
    cases form' with
    | bare path' => simp [lexemes, DefaultPart.lexemes] at h
    | grouped g' path' => exact absurd h.symm (hdefault g' _ first _)
    | named first' path' =>
      obtain ⟨rfl, hpath⟩ := DefaultPart.eq_of_append (hcomma _) (hcomma _) h
      rw [originLexemes_injective hpath]
    | both first' g' path' =>
      rw [lexemes, lexemes, List.append_assoc] at h
      have htail := (DefaultPart.eq_of_append (hcomma _) (hgroupComma _ _) h).2
      exact absurd htail.symm (horigin g' _ path)
  | both first g path =>
    rw [lexemes, List.append_assoc] at h
    cases form' with
    | bare path' => simp [lexemes, DefaultPart.lexemes] at h
    | grouped g' path' => exact absurd h.symm (hdefault g' _ first _)
    | named first' path' =>
      have htail := (DefaultPart.eq_of_append (hgroupComma _ _) (hcomma _) h).2
      exact absurd htail (horigin g _ path')
    | both first' g' path' =>
      rw [lexemes, List.append_assoc] at h
      obtain ⟨rfl, htail⟩ := DefaultPart.eq_of_append (hgroupComma _ _) (hgroupComma _ _) h
      obtain ⟨rfl, hpath⟩ := Group.eq_of_append (lacksWord_origin _) (lacksWord_origin _) htail
      rw [originLexemes_injective hpath]

/-- No two forms of an export have the same lexemes. -/
theorem ExportForm.lexemes_injective : Function.Injective ExportForm.lexemes := by
  -- a group begins with a brace or with `lex`, so it is no default export
  have hdefault : ∀ (g : Group) (name : String),
      g.lexemes ++ [] ≠ [.word "default", .word name] := by
    intro g name
    exact Group.append_ne_of_head? rfl (by simp) (by simp)
  have hlacks : LacksWord "lex" [] := by simp [LacksWord]
  intro form form' h
  cases form with
  | named name hname =>
    cases form' with
    | named name' hname' => simpa [lexemes] using h
    | grouped g' => exact absurd (by simpa [lexemes] using h.symm) (hdefault g' name)
  | grouped g =>
    cases form' with
    | named name' hname' => exact absurd (by simpa [lexemes] using h) (hdefault g name')
    | grouped g' =>
      obtain ⟨rfl, -⟩ := Group.eq_of_append hlacks hlacks (congrArg (· ++ []) h)
      rfl

end Unambiguous

/-! ## From texts -/

/-- The text of an import or export is read exactly if it is made of the lexemes of one of the
forms, and then as what this form says; the lexemes are those of no other form. -/
theorem binding_directives_read_iff :
    (∀ line lexemes, HasLexemes .importing line lexemes →
      ∀ d, readImport line = .ok d ↔
        ∃ form : ImportForm, form.lexemes = lexemes ∧ form.directive = d) ∧
    (∀ line lexemes, HasLexemes .exporting line lexemes →
      ∀ d, readExport line = .ok d ↔
        ∃ form : ExportForm, form.lexemes = lexemes ∧ form.directive = d) ∧
    Function.Injective ImportForm.lexemes ∧ Function.Injective ExportForm.lexemes := by
  refine ⟨?_, ?_, ImportForm.lexemes_injective, ExportForm.lexemes_injective⟩
  · intro line lexemes hline d
    rw [readImport_eq_ok_iff, hline.exists_form_iff]
  · intro line lexemes hline d
    rw [readExport_eq_ok_iff, hline.exists_form_iff]

/-- An import in which `as`, `lex`, `from` and `default` are names. -/
def keywordImport : String := "%import as, lex \x7b from as lex, default, \x7d from 'from'"

def keywordImportForm : ImportForm :=
  .both ⟨"as", by decide, by decide, true⟩
    ⟨true, ⟨[⟨"from", some "lex"⟩, ⟨"default", none⟩], true, by simp⟩, false⟩ "from"

def keywordExport : String := "%export \x7b as as as, default\x7d lex"

def keywordExportForm : ExportForm :=
  .grouped ⟨false, ⟨[⟨"as", some "as"⟩, ⟨"default", none⟩], false, by simp⟩, true⟩

theorem keywords_read_as_names :
    (HasLexemes .importing keywordImport keywordImportForm.lexemes ∧
      readImport keywordImport = .ok ⟨"from", [⟨"default", "as", false⟩, ⟨"from", "lex", true⟩,
        ⟨"default", "default", true⟩]⟩) ∧
    HasLexemes .exporting keywordExport keywordExportForm.lexemes ∧
      readExport keywordExport = .ok ⟨[⟨"as", "as", true⟩, ⟨"default", "default", true⟩]⟩ := by
  have himport : HasLexemes .importing keywordImport keywordImportForm.lexemes :=
    ⟨" as, lex \x7b from as lex, default, \x7d from 'from'".toList, rfl, by decide +kernel⟩
  have hexport : HasLexemes .exporting keywordExport keywordExportForm.lexemes :=
    ⟨" \x7b as as as, default\x7d lex".toList, rfl, by decide +kernel⟩
  refine ⟨⟨himport, ?_⟩, hexport, ?_⟩
  · exact (binding_directives_read_iff.1 _ _ himport _).mpr ⟨keywordImportForm, rfl, rfl⟩
  · exact (binding_directives_read_iff.2.1 _ _ hexport _).mpr ⟨keywordExportForm, rfl, rfl⟩

end ModularGrammar.Directive
