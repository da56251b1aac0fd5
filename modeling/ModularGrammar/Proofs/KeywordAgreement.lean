import ModularGrammar.Proofs.BindingForms
import ModularGrammar.Proofs.DocumentLines

/-!
# Two Readings of Keywords

Where lines are told apart, a keyword is the whole run of keyword characters behind the percent
sign.  A reader takes the spelling of its keyword off the line instead, and does not ask whether the
run ends there.  So every line with the keyword of a reader is one that the reader can take the
keyword off, but not the other way round: `%priority10` is read as a priority, although its keyword
is `priority10`.  Only precedence has a bracket or a blank behind its keyword wherever it is read.

## Architecture

1. `KeywordEnds`: the two readings side by side
2. `exists_rest_of_read`: what stands behind the keyword of a line that is read
3. `KeywordFree`: readers fail for other reasons once the keyword is off
4. `sort_read_agree`: the two readings compared
-/

namespace ModularGrammar.Directive

open Text

/-! ## Keywords -/

/-- The text does not go on with a character that would belong to a keyword before it. -/
def KeywordEnds (rest : List Char) : Prop := ∀ c ∈ rest.head?, inKeyword c = false

section Keywords

variable {kind : Kind} {line : String} {rest : List Char}

theorem takeWhile_inKeyword_eq_nil_iff : rest.takeWhile inKeyword = [] ↔ KeywordEnds rest := by
  cases rest with
  | nil => simp [KeywordEnds]
  | cons c rest => simp [KeywordEnds, List.takeWhile_cons]

theorem inKeyword_of_mem_keyword (kind : Kind) :
    ∀ c ∈ kind.keyword.toList, inKeyword c = true := by
  have hall : kind.keyword.toList.all inKeyword = true := by cases kind <;> decide
  exact List.all_eq_true.mp hall

/-- A line from which the keyword of a kind can be taken has that keyword, lengthened by what
keyword characters follow. -/
theorem keyword?_of_trimStart (h : trimStart line.toList = '%' :: kind.keyword.toList ++ rest) :
    keyword? line = some (kind.keyword ++ String.ofList (rest.takeWhile inKeyword)) := by
  have hrun : (kind.keyword.toList ++ rest).takeWhile inKeyword =
      kind.keyword.toList ++ rest.takeWhile inKeyword :=
    List.takeWhile_append_of_pos (inKeyword_of_mem_keyword kind)
  have hne : kind.keyword.toList ≠ [] := by cases kind <;> decide
  obtain ⟨first, more, hfirst⟩ := List.exists_cons_of_ne_nil hne
  rw [keyword?, h]
  simp only [List.cons_append, hrun]
  rw [hfirst, List.cons_append]
  refine congrArg some (String.toList_inj.mp ?_)
  rw [String.toList_ofList, String.toList_append, String.toList_ofList, hfirst, List.cons_append]

theorem keyword?_eq_keyword_iff (h : trimStart line.toList = '%' :: kind.keyword.toList ++ rest) :
    keyword? line = some kind.keyword ↔ KeywordEnds rest := by
  rw [keyword?_of_trimStart h, Option.some.injEq, ← takeWhile_inKeyword_eq_nil_iff]
  constructor
  · intro heq
    have hchars := congrArg String.toList heq
    rw [String.toList_append, String.toList_ofList] at hchars
    exact List.append_right_eq_self.mp hchars
  · intro hnil
    rw [hnil, String.ofList_nil, String.append_empty]

/-- The keyword can be taken off every line that has it. -/
theorem exists_trimStart_of_keyword? (h : keyword? line = some kind.keyword) :
    ∃ rest, trimStart line.toList = '%' :: kind.keyword.toList ++ rest := by
  rw [keyword?] at h
  split at h
  · next rest hline =>
    split at h
    · cases h
    · next word hword =>
      have hkeyword : rest.takeWhile inKeyword = kind.keyword.toList := by
        rw [← Option.some.inj h, String.toList_ofList]
      refine ⟨rest.dropWhile inKeyword, ?_⟩
      rw [hline, ← hkeyword, List.cons_append, List.takeWhile_append_dropWhile]
  · cases h

end Keywords

/-! ## Lines that are read -/

section Reading

variable {kind : Kind} {line : String} {rest : List Char}

/-- Blanks are no keyword characters. -/
theorem inKeyword_of_isBlank {c : Char} (h : isBlank c = true) : inKeyword c = false := by
  have hblanks : (blankCodes.all fun n => !inKeyword (Char.ofNat n)) = true := by decide
  rw [isBlank, List.contains_iff_mem] at h
  rw [← Char.ofNat_toNat c]
  simpa using List.all_eq_true.mp hblanks _ h

/-- A keyword ends before blanks and a character that is no keyword character. -/
theorem keywordEnds_of_trimStart {c : Char} {more : List Char} (h : trimStart rest = c :: more)
    (hc : inKeyword c = false) : KeywordEnds rest := by
  cases rest with
  | nil => cases h
  | cons first rest =>
    rw [trimStart, List.dropWhile_cons] at h
    intro c' hc'
    cases hc'
    split at h
    · next hblank => exact inKeyword_of_isBlank hblank
    · cases h
      exact hc

theorem exists_rest_of_precedenceHeader? {header : List Char × List Char}
    (h : precedenceHeader? line.toList = some header) :
    ∃ rest, trimStart line.toList = '%' :: Kind.precedence.keyword.toList ++ rest ∧
      KeywordEnds rest := by
  rw [precedenceHeader?] at h
  split at h
  · next inside hbracket =>
    obtain ⟨rest, hrest, htrim⟩ := Option.map_eq_some_iff.mp hbracket
    exact ⟨rest, dropStart?_eq_some_iff.mp hrest, keywordEnds_of_trimStart htrim (by decide)⟩
  · cases h

theorem exists_rest_of_afterKeyword {α β : Type} {f : List Char → Except DirectiveError α}
    {g : α → β} {b : β} (h : (afterKeyword kind line >>= f).map g = .ok b) :
    ∃ rest, trimStart line.toList = '%' :: kind.keyword.toList ++ rest := by
  cases htaken : afterKeyword kind line with
  | error e =>
    rw [htaken] at h
    cases h
  | ok rest => exact ⟨rest, afterKeyword_eq_ok_iff.mp htaken⟩

/-- What is read begins with the spelling of the keyword, and behind that of precedence the keyword
ends. -/
theorem exists_rest_of_read {d : Directive} (h : read kind line = .ok d) :
    ∃ rest, trimStart line.toList = '%' :: kind.keyword.toList ++ rest ∧
      (kind = .precedence → KeywordEnds rest) := by
  cases kind with
  | priority =>
    obtain ⟨rest, hrest⟩ := exists_rest_of_afterKeyword h
    exact ⟨rest, hrest, nofun⟩
  | importing =>
    obtain ⟨rest, hrest⟩ := exists_rest_of_afterKeyword h
    exact ⟨rest, hrest, nofun⟩
  | exporting =>
    obtain ⟨rest, hrest⟩ := exists_rest_of_afterKeyword h
    exact ⟨rest, hrest, nofun⟩
  | precedence =>
    -- this reader has a header of its own
    cases hheader : precedenceHeader? line.toList with
    | none =>
      rw [read, readPrecedence, hheader] at h
      cases h
    | some header =>
      obtain ⟨rest, hrest, hends⟩ := exists_rest_of_precedenceHeader? hheader
      exact ⟨rest, hrest, fun _ => hends⟩

end Reading

/-! ## Why readers fail -/

/-- If the computation fails, it is not for want of a keyword. -/
def KeywordFree {α : Type} (x : Except DirectiveError α) : Prop :=
  ∀ kind, x ≠ .error (.otherKeyword kind)

namespace KeywordFree

variable {α β : Type} {x : Except DirectiveError α}

theorem ok (a : α) : KeywordFree (.ok a) := nofun

theorem error {e : DirectiveError} (he : ∀ kind, e ≠ .otherKeyword kind) :
    KeywordFree (.error e : Except DirectiveError α) :=
  fun kind h => he kind (Except.error.inj h)

theorem unexpected (expected : String) (rest : List Lexeme) :
    KeywordFree (.error (unexpected expected rest) : Except DirectiveError α) :=
  error (by simp [Directive.unexpected])

theorem map {f : α → β} (hx : KeywordFree x) : KeywordFree (x.map f) :=
  fun kind h => hx kind (except_map_eq_error.mp h)

theorem bind {f : α → Except DirectiveError β} (hx : KeywordFree x)
    (hf : ∀ a, KeywordFree (f a)) : KeywordFree (x >>= f) := by
  intro kind h
  rcases except_bind_eq_error.mp h with he | ⟨a, -, hfa⟩
  · exact hx kind he
  · exact hf a kind hfa

end KeywordFree

section Readers

theorem keywordFree_scan (isMark : Char → Bool) (cs : List Char) :
    KeywordFree (Lexeme.scan isMark cs) := by
  induction cs using Lexeme.scan.induct isMark with
  | case1 cs hblank =>
    rw [Lexeme.scan, if_pos hblank]
    exact .ok _
  | case2 cs hne hnext =>
    rw [Lexeme.scan, if_neg hne]
    split
    · refine .error fun kind => ?_
      -- nothing is said but what stands there instead of a lexeme
      rw [Lexeme.noLexeme.eq_def]
      split
      · simp
      · split
        · simp
        · simp
    · next hsome => rw [hnext] at hsome; cases hsome
  | case3 cs hne lexeme rest hnext ih =>
    rw [Lexeme.scan, if_neg hne]
    split
    · next hnone => rw [hnext] at hnone; cases hnone
    · next hsome =>
      rw [hnext] at hsome
      cases hsome
      exact ih.map

theorem keywordFree_atEnd {α : Type} (result : α) (lexemes : List Lexeme) :
    KeywordFree (atEnd result lexemes) := by
  cases lexemes with
  | nil => exact .ok _
  | cons l rest => exact .unexpected _ _

mutual

theorem keywordFree_readItems (lexemes : List Lexeme) : KeywordFree (readItems lexemes) := by
  rw [readItems.eq_def]
  split
  · exact .ok _
  · exact keywordFree_readMore _ _
  · exact .unexpected _ _
  · exact keywordFree_readMore _ _
  · exact .unexpected _ _

theorem keywordFree_readMore (item : String × String) (lexemes : List Lexeme) :
    KeywordFree (readMore item lexemes) := by
  rw [readMore.eq_def]
  split
  · exact (keywordFree_readItems _).map
  · exact .ok _
  · exact .unexpected _ _

end

theorem keywordFree_readGroup (lexemes : List Lexeme) : KeywordFree (readGroup lexemes) := by
  rw [readGroup.eq_def]
  split
  · exact keywordFree_readItems _
  · exact .unexpected _ _

theorem keywordFree_readOrigin (bindings : List Binding) (lexemes : List Lexeme) :
    KeywordFree (readOrigin bindings lexemes) := by
  rw [readOrigin]
  split
  · exact .unexpected _ _
  · exact keywordFree_atEnd _ _
  · exact .unexpected _ _

theorem keywordFree_readImportGroup (first : List Binding) (lexBefore : Bool)
    (lexemes : List Lexeme) : KeywordFree (readImportGroup first lexBefore lexemes) :=
  (keywordFree_readGroup lexemes).bind fun _ => keywordFree_readOrigin _ _

theorem keywordFree_readAfterDefault (name : String) (lexemes : List Lexeme) :
    KeywordFree (readAfterDefault name lexemes) := by
  rw [readAfterDefault]
  split
  · exact keywordFree_readImportGroup _ _ _
  · exact .unexpected _ _
  · exact keywordFree_readOrigin _ _

theorem keywordFree_readImportLexemes (lexemes : List Lexeme) :
    KeywordFree (readImportLexemes lexemes) := by
  rw [readImportLexemes.eq_def]
  split
  · exact keywordFree_atEnd _ _
  · split
    · exact keywordFree_readImportGroup _ _ _
    · split
      · exact .unexpected _ _
      · split
        · exact .error (by simp)
        · exact keywordFree_readAfterDefault _ _
    · exact .unexpected _ _

theorem keywordFree_readDefaultExport (lexemes : List Lexeme) :
    KeywordFree (readDefaultExport lexemes) := by
  rw [readDefaultExport]
  split
  · exact .error (by simp)
  · exact keywordFree_atEnd _ _
  · exact .unexpected _ _

theorem keywordFree_readExportLexemes (lexemes : List Lexeme) :
    KeywordFree (readExportLexemes lexemes) := by
  rw [readExportLexemes]
  split
  · exact keywordFree_readDefaultExport _
  · simp only
    split
    · exact .error (by simp)
    · exact (keywordFree_readGroup _).bind fun _ => keywordFree_atEnd _ _

/-- A reader that can take its keyword off fails for other reasons only. -/
theorem keywordFree_read {kind : Kind} {line : String} (hkind : kind ≠ .precedence)
    (h : keyword? line = some kind.keyword) : KeywordFree (read kind line) := by
  obtain ⟨rest, hrest⟩ := exists_trimStart_of_keyword? h
  -- the keyword is there, so taking it off does not fail
  have htaken : KeywordFree (afterKeyword kind line) := by
    rw [afterKeyword_eq_ok_iff.mpr hrest]
    exact .ok rest
  cases kind with
  | priority =>
    refine (htaken.bind fun value => ?_).map
    simp only
    split
    · exact .ok _
    · exact .error (by simp)
  | importing =>
    exact (htaken.bind fun rest => (keywordFree_scan _ rest).bind
      keywordFree_readImportLexemes).map
  | exporting =>
    exact (htaken.bind fun rest => (keywordFree_scan _ rest).bind
      keywordFree_readExportLexemes).map
  | precedence => exact absurd rfl hkind

end Readers

/-! ## Wording -/

theorem message_otherKeyword (kind : Kind) :
    (DirectiveError.otherKeyword kind).message.toList.head? = some 'e' ∧
      ',' ∉ (DirectiveError.otherKeyword kind).message.toList := by
  cases kind <;> decide

/-- A text that begins with a piece begins with the first letter of the piece. -/
theorem head?_toList_pieces {s t u : String} {c : Char} (h : s.toList.head? = some c) :
    (s ++ t ++ u).toList.head? = some c := by
  rw [String.toList_append, String.toList_append, List.append_assoc, List.head?_append, h,
    Option.some_or]

theorem mem_toList_pieces {s t u : String} {c : Char} (h : c ∈ t.toList) :
    c ∈ (s ++ t ++ u).toList := by
  rw [String.toList_append, String.toList_append]
  exact List.mem_append_left _ (List.mem_append_right _ h)

/-- The messages of other errors begin with another letter or have a comma. -/
theorem head?_message_or_comma_mem {e : DirectiveError} (he : ∀ kind, e ≠ .otherKeyword kind) :
    (∃ c, c ≠ 'e' ∧ e.message.toList.head? = some c) ∨ ',' ∈ e.message.toList := by
  -- only the message about another keyword begins with `e` and has no comma
  cases e with
  | otherKeyword kind => exact absurd rfl (he kind)
  | unexpected expected found =>
    cases found with
    | none =>
      have hcomma : ',' ∈ ("expected " ++ expected ++ ", found end of declaration").toList := by
        rw [String.toList_append]
        exact List.mem_append_right _ (by decide)
      exact Or.inr hcomma
    | some l =>
      have hcomma : ',' ∈ ("expected " ++ expected ++ ", found " ++ l.shown).toList :=
        mem_toList_pieces (by decide)
      exact Or.inr hcomma
  | precedenceHeader => exact Or.inr (by decide)
  | invalidPriority text | invalidPrecedencePriority text =>
    exact Or.inl ⟨'i', by decide, head?_toList_pieces rfl⟩
  | unexpectedCharacter c | unknownAssociativity word =>
    exact Or.inl ⟨'u', by decide, head?_toList_pieces rfl⟩
  | unterminatedString | unexpectedEnd => exact Or.inl ⟨'u', by decide, rfl⟩
  | lexicalDefaultImport | lexicalDefaultExport | lexicalDefaultBinding =>
    exact Or.inl ⟨'d', by decide, rfl⟩
  | missingPrecedencePriority | surplusPrecedenceParameter | noPrecedenceTokens =>
    exact Or.inl ⟨'p', by decide, rfl⟩

/-- No other error is worded like that of a missing keyword. -/
theorem message_ne_otherKeyword {e : DirectiveError} (he : ∀ kind, e ≠ .otherKeyword kind)
    (kind : Kind) : e.message ≠ (DirectiveError.otherKeyword kind).message := by
  obtain ⟨hhead, hcomma⟩ := message_otherKeyword kind
  intro heq
  have hother := head?_message_or_comma_mem he
  rw [heq] at hother
  rcases hother with ⟨c, hne, hc⟩ | hmem
  · rw [hhead] at hc
    exact hne (Option.some.inj hc).symm
  · exact hcomma hmem

/-! ## Agreement -/

theorem mem_recognized_sort {interest : List Kind} {lines : List String} {kind : Kind}
    {line : String} : (kind, line) ∈ (sort interest lines).recognized ↔
      line ∈ lines ∧ kind ∈ interest ∧ keyword? line = some kind.keyword := by
  -- a line is kept together with the kind it was recognized as
  have hkind : ∀ l : String, (kind? interest l).map (·, l) = some (kind, line) ↔
      kind? interest l = some kind ∧ l = line := by
    intro l
    constructor
    · intro h
      obtain ⟨k, hk, heq⟩ := Option.map_eq_some_iff.mp h
      cases heq
      exact ⟨hk, rfl⟩
    · rintro ⟨hk, rfl⟩
      rw [hk, Option.map_some]
  simp only [sort, List.mem_filterMap, hkind, kind?_eq_some_iff]
  constructor
  · rintro ⟨l, hl, ⟨hkeyword, hinterest⟩, rfl⟩
    exact ⟨hl, hinterest, hkeyword⟩
  · rintro ⟨hl, hinterest, hkeyword⟩
    exact ⟨line, hl, ⟨hkeyword, hinterest⟩, rfl⟩

/-- A line that is read begins with the spelling of the keyword, and is sorted to its reader exactly
if the keyword ends there, as it always does with precedence.  The other way round, no line that is
sorted to one of the other three readers is refused for want of its keyword. -/
theorem sort_read_agree (kind : Kind) (line : String) :
    (∀ d, read kind line = .ok d →
      ∃ rest, trimStart line.toList = '%' :: kind.keyword.toList ++ rest ∧
        keyword? line = some (kind.keyword ++ String.ofList (rest.takeWhile inKeyword)) ∧
        (keyword? line = some kind.keyword ↔ KeywordEnds rest) ∧
        (∀ interest lines, line ∈ lines → ((kind, line) ∈ (sort interest lines).recognized ↔
          kind ∈ interest ∧ KeywordEnds rest)) ∧
        (kind = .precedence → KeywordEnds rest)) ∧
    ∀ interest lines, (kind, line) ∈ (sort interest lines).recognized → kind ≠ .precedence →
      ∀ e, read kind line = .error e →
        e.message ≠ (DirectiveError.otherKeyword kind).message := by
  constructor
  · intro d hread
    obtain ⟨rest, hrest, hprecedence⟩ := exists_rest_of_read hread
    have hends := keyword?_eq_keyword_iff hrest
    refine ⟨rest, hrest, keyword?_of_trimStart hrest, hends, ?_, hprecedence⟩
    intro interest lines hline
    rw [mem_recognized_sort, and_iff_right hline, hends]
  · intro interest lines hsorted hkind e hread
    obtain ⟨-, -, hkeyword⟩ := mem_recognized_sort.mp hsorted
    apply message_ne_otherKeyword
    rintro missing rfl
    exact keywordFree_read hkind hkeyword missing hread

/-- Behind a blank the two readings agree. -/
theorem spacedPriority_sorted :
    read .priority "%priority 10" = .ok (.priority 10) ∧
      (.priority, "%priority 10") ∈ (sort [.priority] ["%priority 10"]).recognized := by
  have hread : read .priority "%priority 10" = .ok (.priority 10) := rfl
  obtain ⟨rest, -, -, hends, hsorted, -⟩ := (sort_read_agree _ _).1 _ hread
  have hkeyword : keyword? "%priority 10" = some Kind.priority.keyword := by decide
  exact ⟨hread, (hsorted _ _ List.mem_cons_self).mpr ⟨List.mem_cons_self, hends.mp hkeyword⟩⟩

/-- Without a blank the line is read, but another keyword is seen. -/
theorem attachedPriority_passed_through :
    read .priority "%priority10" = .ok (.priority 10) ∧
      keyword? "%priority10" = some "priority10" ∧
      sort Kind.all ["%priority10"] = ⟨[], ["%priority10"]⟩ :=
  ⟨rfl, by decide, by decide⟩

end ModularGrammar.Directive
