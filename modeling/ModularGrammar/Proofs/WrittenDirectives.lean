import ModularGrammar.Proofs.BindingForms
import ModularGrammar.Proofs.JsonTokens
import ModularGrammar.Proofs.Segment
import ModularGrammar.Proofs.WrittenLexemes

/-!
# Directives and Their Texts

Whatever a directive says can be written so that it is read back: all 64-bit priorities, tokens and
paths of any text between quotes, and bindings in any of their forms.  Blanks between the parts make
no difference.

## Architecture

1. `readInt64?_int64`: a 64-bit integer is read back from its decimal
2. `priorityText`, `precedenceText`, `bindingText`: the texts of directives, each with its reader
3. `IsName`: which imports and exports can be laid out
4. `directives_read_back`: directives from their texts
-/

namespace ModularGrammar

open Text

/-! ## Integers -/

namespace Decimal

/-- The characters of a written integer are digits, and perhaps a minus sign. -/
theorem mem_int64 {n : Int64} {c : Char} (h : c ∈ (int64 n).toList) :
    c.isDigit = true ∨ c = '-' := by
  rw [int64, String.toList_ofList, writeInt] at h
  split at h
  · rcases List.mem_cons.mp h with hc | hc
    · exact .inr hc
    · exact .inl (Numeral.isDigit_of_mem_writeNat hc)
  · exact .inl (Numeral.isDigit_of_mem_writeNat h)

theorem int64_ne_nil (n : Int64) : (int64 n).toList ≠ [] := by
  obtain ⟨c, digits, hdigits, -⟩ := Numeral.exists_writeNat_eq_cons n.toInt.natAbs
  rw [int64, String.toList_ofList, writeInt, hdigits]
  split <;> simp

theorem readNat?_writeNat (n : Nat) : readNat? (writeNat n) = some n := by
  obtain ⟨c, digits, hdigits, -⟩ := Numeral.exists_writeNat_eq_cons n
  have hall : (writeNat n).all Char.isDigit = true :=
    List.all_eq_true.mpr fun c hc => Numeral.isDigit_of_mem_writeNat hc
  have hne : (writeNat n).isEmpty = false := by rw [hdigits]; rfl
  simp [readNat?, hne, hall, Numeral.value_writeNat]

theorem toInt64?_toInt (n : Int64) : toInt64? n.toInt = some n := by
  rw [toInt64?, if_pos ⟨Int64.minValue_le_toInt n, Int64.toInt_le n⟩, Int64.ofInt_toInt]

/-- No digit is a sign. -/
theorem readInt64?_of_isDigit {digits : List Char} (h : ∀ c ∈ digits, c.isDigit = true) :
    readInt64? digits = (readNat? digits).bind fun n => toInt64? n := by
  unfold readInt64?
  split
  · exact absurd (h '-' List.mem_cons_self) (by decide)
  · exact absurd (h '+' List.mem_cons_self) (by decide)
  · rfl

/-- An integer is read back from its decimal, the least and the greatest included. -/
theorem readInt64?_int64 (n : Int64) : readInt64? (int64 n).toList = some n := by
  have hvalue := toInt64?_toInt n
  have hread := readNat?_writeNat n.toInt.natAbs
  rw [int64, String.toList_ofList, writeInt]
  split
  · next hneg =>
    have habs : -(n.toInt.natAbs : Int) = n.toInt := by omega
    rw [readInt64?, hread, Option.bind_some, habs, hvalue]
  · next hnonneg =>
    have habs : (n.toInt.natAbs : Int) = n.toInt := by omega
    rw [readInt64?_of_isDigit fun c hc => Numeral.isDigit_of_mem_writeNat hc, hread,
      Option.bind_some, habs, hvalue]

end Decimal

namespace Directive

open Decimal Lexeme

/-! ## Characters -/

theorem isBlank_of_mem_int64 {n : Int64} {c : Char} (h : c ∈ (int64 n).toList) :
    isBlank c = false := by
  rcases mem_int64 h with hc | rfl
  · simp only [Char.isDigit, Bool.and_eq_true, decide_eq_true_eq] at hc
    have hlow : 48 ≤ c.toNat := hc.1
    have hhigh : c.toNat ≤ 57 := hc.2
    simp only [isBlank, blankCodes, List.contains_eq_mem, List.mem_cons, List.not_mem_nil, or_false,
      decide_eq_false_iff_not]
    omega
  · decide

theorem associativity_name (a : Associativity) :
    a.name.toList ≠ [] ∧ ∀ c ∈ a.name.toList, isBlank c = false ∧ c ≠ ',' ∧ c ≠ ']' := by
  have hne : a.name.toList ≠ [] := by cases a <;> decide
  have hall : (a.name.toList.all fun c => !isBlank c && c != ',' && c != ']') = true := by
    cases a <;> decide
  exact ⟨hne, by simpa [and_assoc] using hall⟩

/-- Neither commas nor brackets are blanks. -/
theorem notMem_of_blank {cs : List Char} (h : Blank cs) : ',' ∉ cs ∧ ']' ∉ cs := by
  constructor
  · intro hc
    exact absurd (h _ hc) (by decide)
  · intro hc
    exact absurd (h _ hc) (by decide)

theorem notMem_int64 (n : Int64) : ',' ∉ (int64 n).toList ∧ ']' ∉ (int64 n).toList := by
  constructor
  · intro hc
    exact absurd (mem_int64 hc) (by decide)
  · intro hc
    exact absurd (mem_int64 hc) (by decide)

/-! ## The texts of directives -/

/-- The text of a `%priority` directive; blanks may stand between its parts and at both ends. -/
def priorityText (gap : Nat → List Char) (n : Int64) : List Char :=
  gap 0 ++ "%priority".toList ++ gap 1 ++ (int64 n).toList ++ gap 2

/-- What stands between the brackets of a `%precedence` directive. -/
def parametersText (gap : Nat → List Char) (a : Associativity) (n : Int64) : List Char :=
  gap 2 ++ a.name.toList ++ gap 3 ++ ',' :: (gap 4 ++ (int64 n).toList ++ gap 5)

def precedenceText (gap : Nat → List Char) (p : Precedence) (tokens : List Char) : List Char :=
  gap 0 ++ "%precedence".toList ++ gap 1 ++
    '[' :: parametersText gap p.associativity p.priority ++ ']' :: tokens ++ gap 6

def bindingText (gap : Nat → List Char) (kind : Kind) (lexemes : List Char) : List Char :=
  gap 0 ++ '%' :: kind.keyword.toList ++ lexemes ++ gap 1

section Texts

variable {gap : Nat → List Char} (hgap : ∀ k, Blank (gap k))

include hgap

/-- What follows the keyword of a directive is found behind the blanks and the keyword. -/
theorem trimStart_keyword (kind : Kind) (rest : List Char) :
    trimStart (gap 0 ++ '%' :: kind.keyword.toList ++ rest) =
      '%' :: kind.keyword.toList ++ rest := by
  rw [List.append_assoc]
  exact trimStart_append (hgap 0) (by simp; decide)

theorem readPriority_priorityText (n : Int64) :
    readPriority (.ofList (priorityText gap n)) = .ok n := by
  have hafter : afterKeyword .priority (.ofList (priorityText gap n)) =
      .ok (gap 1 ++ (int64 n).toList ++ gap 2) := by
    rw [afterKeyword_eq_ok_iff, String.toList_ofList, ← trimStart_keyword hgap]
    simp [priorityText, Kind.keyword]
  have htrim : trimBoth (gap 1 ++ (int64 n).toList ++ gap 2) = (int64 n).toList :=
    trimBoth_append (hgap 1) (hgap 2) (int64_ne_nil n) fun c hc => isBlank_of_mem_int64 hc
  rw [readPriority, hafter]
  simp only [bind, Except.bind, htrim, readInt64?_int64]

theorem hasLexemes_bindingText (kind : Kind) {lexemes : List Lexeme}
    (layout : Layout isBindingMark lexemes) :
    HasLexemes kind (.ofList (bindingText gap kind layout.chars)) lexemes := by
  refine ⟨layout.chars ++ gap 1, ?_, layout.scan_chars (hgap 1)⟩
  rw [String.toList_ofList, bindingText, List.append_assoc]
  exact trimStart_keyword hgap kind _

/-! ## Precedence -/

/-- The parameters of a precedence declaration are read from between the brackets. -/
theorem readPrecedenceParameters_parametersText (a : Associativity) (n : Int64) :
    readPrecedenceParameters (parametersText gap a n) = .ok (a, n) := by
  obtain ⟨hname, hchars⟩ := associativity_name a
  have hfirst : trimBoth (gap 2 ++ a.name.toList ++ gap 3) = a.name.toList :=
    trimBoth_append (hgap 2) (hgap 3) hname fun c hc => (hchars c hc).1
  have hsecond : trimBoth (gap 4 ++ (int64 n).toList ++ gap 5) = (int64 n).toList :=
    trimBoth_append (hgap 4) (hgap 5) (int64_ne_nil n) fun c hc => isBlank_of_mem_int64 hc
  have hsplit : splitChars ',' (parametersText gap a n) =
      [gap 2 ++ a.name.toList ++ gap 3, gap 4 ++ (int64 n).toList ++ gap 5] := by
    rw [parametersText, splitChars_append_cons, splitChars_of_notMem]
    · simp [notMem_of_blank (hgap 4), notMem_of_blank (hgap 5), notMem_int64]
    · simp only [List.mem_append, notMem_of_blank (hgap 2), notMem_of_blank (hgap 3), false_or,
        or_false]
      exact fun hc => (hchars _ hc).2.1 rfl
  -- an empty priority would be a missing one
  obtain ⟨c, digits, hint⟩ := List.exists_cons_of_ne_nil (int64_ne_nil n)
  have hread := readInt64?_int64 n
  rw [hint] at hsecond hread
  have hpriority : readPrecedencePriority [c :: digits] = .ok n := by
    simp [readPrecedencePriority, hread]
  rw [readPrecedenceParameters, hsplit, List.map_cons, List.map_cons, hfirst, hint, hsecond]
  simp [Associativity.ofName?_eq_some_iff.mpr rfl, hpriority, bind, Except.bind, pure, Except.pure]

theorem notMem_parametersText (a : Associativity) (n : Int64) : ']' ∉ parametersText gap a n := by
  have hname : ']' ∉ a.name.toList := fun hc => ((associativity_name a).2 _ hc).2.2 rfl
  simp [parametersText, notMem_of_blank (hgap _), notMem_int64, hname]

/-- The first closing bracket ends the parameters. -/
theorem precedenceHeader?_brackets {parameters : List Char} (h : ']' ∉ parameters)
    (rest : List Char) :
    precedenceHeader? (gap 0 ++ '%' :: Kind.precedence.keyword.toList ++
      (gap 1 ++ '[' :: (parameters ++ ']' :: rest))) = some (parameters, rest) := by
  have hinside : ∀ c ∈ parameters, decide (c ≠ ']') = true := by
    intro c hc
    rw [decide_eq_true_eq]
    rintro rfl
    exact h hc
  have hopen : trimStart (gap 1 ++ '[' :: (parameters ++ ']' :: rest)) =
      '[' :: (parameters ++ ']' :: rest) := trimStart_append (hgap 1) (by simp; decide)
  have hline := dropStart?_eq_some_iff.mpr (trimStart_keyword hgap .precedence
    (gap 1 ++ '[' :: (parameters ++ ']' :: rest)))
  rw [precedenceHeader?, hline, Option.map_some, hopen]
  simp only [List.takeWhile_append_of_pos hinside, List.dropWhile_append_of_pos hinside]
  simp

theorem precedenceHeader?_precedenceText (p : Precedence) (tokens : List Char) :
    precedenceHeader? (precedenceText gap p tokens) =
      some (parametersText gap p.associativity p.priority, tokens ++ gap 6) := by
  have hheader := precedenceHeader?_brackets hgap
    (notMem_parametersText hgap p.associativity p.priority) (tokens ++ gap 6)
  rw [← hheader]
  simp [precedenceText, Kind.keyword]

/-- The tokens of a precedence declaration are read back if there are any. -/
theorem readPrecedence_precedenceText (p : Precedence) (hne : p.tokens ≠ [])
    (layout : Layout (fun _ => false) (p.tokens.map .quoted)) :
    readPrecedence (.ofList (precedenceText gap p layout.chars)) = .ok p := by
  have hheader := precedenceHeader?_precedenceText hgap p layout.chars
  have hparameters := readPrecedenceParameters_parametersText hgap p.associativity p.priority
  have htexts : (p.tokens.map Lexeme.quoted).map Lexeme.text = p.tokens := by
    rw [List.map_map]
    exact List.map_id' p.tokens
  have htokens : scanWords (layout.chars ++ gap 6) = .ok p.tokens := by
    rw [scanWords, layout.scan_chars (hgap 6), Except.map, htexts]
  have hsome : p.tokens.isEmpty = false := by simpa using hne
  rw [readPrecedence, String.toList_ofList, hheader]
  simp [hparameters, htokens, hsome, bind, Except.bind]

end Texts

/-! ## Lexemes that can be written -/

section Names

/-- A text that can stand for a name: not empty, without blanks, quotes, braces and commas. -/
def IsName (text : String) : Prop :=
  text.toList ≠ [] ∧ ∀ c ∈ text.toList, inWord isBindingMark c = true

/-- Some lexemes whose marks are braces and commas. -/
def OnlyBindingMarks (lexemes : List Lexeme) : Prop :=
  ∀ c, .mark c ∈ lexemes → isBindingMark c = true

theorem not_quote_of_isBindingMark {c : Char} (h : isBindingMark c = true) :
    isQuote c = false ∧ isBlank c = false := by
  simp only [isBindingMark, Bool.or_eq_true, beq_iff_eq] at h
  rcases h with (rfl | rfl) | rfl <;> decide

theorem mem_optionally {present : Bool} {l k : Lexeme} :
    k ∈ optionally present l ↔ present = true ∧ k = l := by
  cases present <;> simp [optionally]

theorem Contents.onlyBindingMarks (c : Contents) : OnlyBindingMarks c.lexemes := by
  -- the words of an item bring no marks, so only commas and the brace are left
  have hitem : ∀ (i : Item) (d : Char), .mark d ∉ i.lexemes := by
    rintro ⟨name, renamed⟩ d
    cases renamed <;> simp [Item.lexemes]
  intro d hd
  induction c using Contents.induction with
  | hempty =>
    have hbrace : d = '\x7d' := by simpa [Contents.empty, Contents.lexemes, optionally] using hd
    rw [hbrace]
    rfl
  | hsingle i =>
    have hbrace : d = '\x7d' := by simpa [Contents.lexemes_single, hitem] using hd
    rw [hbrace]
    rfl
  | hpush i c ih =>
    have hcases : d = ',' ∨ .mark d ∈ c.lexemes := by
      simpa [Contents.lexemes_push, hitem] using hd
    rcases hcases with rfl | hd
    · rfl
    · exact ih hd

theorem Group.onlyBindingMarks (g : Group) : OnlyBindingMarks g.lexemes := by
  intro d hd
  have hcases : d = '\x7b' ∨ .mark d ∈ g.contents.lexemes := by
    simpa [Group.lexemes, mem_optionally] using hd
  rcases hcases with rfl | hd
  · rfl
  · exact g.contents.onlyBindingMarks d hd

theorem DefaultPart.onlyBindingMarks (first : DefaultPart) : OnlyBindingMarks first.lexemes := by
  intro d hd
  have hcomma : first.comma = true ∧ d = ',' := by
    simpa [DefaultPart.lexemes, mem_optionally] using hd
  rw [hcomma.2]
  rfl

/-- All marks of an import are those of its group and of its default name. -/
theorem ImportForm.onlyBindingMarks (form : ImportForm) : OnlyBindingMarks form.lexemes := by
  intro d hd
  cases form with
  | bare path => simp [lexemes] at hd
  | grouped group path =>
    have hgroup : .mark d ∈ group.lexemes := by simpa [lexemes, originLexemes] using hd
    exact group.onlyBindingMarks d hgroup
  | named first path =>
    have hfirst : .mark d ∈ first.lexemes := by simpa [lexemes, originLexemes] using hd
    exact first.onlyBindingMarks d hfirst
  | both first group path =>
    have hcases : .mark d ∈ first.lexemes ∨ .mark d ∈ group.lexemes := by
      simpa [lexemes, originLexemes] using hd
    exact hcases.elim (first.onlyBindingMarks d) (group.onlyBindingMarks d)

theorem ExportForm.onlyBindingMarks (form : ExportForm) : OnlyBindingMarks form.lexemes := by
  intro d hd
  cases form with
  | named name _ => simp [lexemes] at hd
  | grouped group => exact group.onlyBindingMarks d hd

/-- Lexemes can be written if their marks are braces and commas and their words are names. -/
theorem writable_of_names {lexemes : List Lexeme} (hmarks : OnlyBindingMarks lexemes)
    (hnames : ∀ text, .word text ∈ lexemes → IsName text) :
    ∀ l ∈ lexemes, l.Writable isBindingMark := by
  intro l hl
  cases l with
  | mark c => exact ⟨hmarks c hl, not_quote_of_isBindingMark (hmarks c hl)⟩
  | quoted text => trivial
  | word text => exact hnames text hl

end Names

/-! ## Directives from their texts -/

/-- Directives are read back from their texts, however these are laid out.  Any tokens can be laid
out, and any import or export whose words are names. -/
theorem directives_read_back {gap : Nat → List Char} (hgap : ∀ k, Blank (gap k)) :
    (∀ n, read .priority (.ofList (priorityText gap n)) = .ok (.priority n)) ∧
    (∀ p : Precedence, p.tokens ≠ [] →
      Nonempty (Layout (fun _ => false) (p.tokens.map .quoted)) ∧
      ∀ layout : Layout (fun _ => false) (p.tokens.map .quoted),
        read .precedence (.ofList (precedenceText gap p layout.chars)) = .ok (.precedence p)) ∧
    (∀ form : ImportForm,
      ((∀ text, .word text ∈ form.lexemes → IsName text) →
        Nonempty (Layout isBindingMark form.lexemes)) ∧
      ∀ layout : Layout isBindingMark form.lexemes,
        read .importing (.ofList (bindingText gap .importing layout.chars)) =
          .ok (.importing form.directive)) ∧
    (∀ form : ExportForm,
      ((∀ text, .word text ∈ form.lexemes → IsName text) →
        Nonempty (Layout isBindingMark form.lexemes)) ∧
      ∀ layout : Layout isBindingMark form.lexemes,
        read .exporting (.ofList (bindingText gap .exporting layout.chars)) =
          .ok (.exporting form.directive)) := by
  refine ⟨fun n => ?_, fun p hne => ⟨?_, fun layout => ?_⟩,
    fun form => ⟨fun hnames => ?_, fun layout => ?_⟩,
    fun form => ⟨fun hnames => ?_, fun layout => ?_⟩⟩
  · rw [read, readPriority_priorityText hgap, Except.map]
  · refine nonempty_layout fun l hl => ?_
    -- tokens are quoted, and a quoted text can hold anything
    obtain ⟨token, -, rfl⟩ := List.mem_map.mp hl
    trivial
  · rw [read, readPrecedence_precedenceText hgap p hne layout, Except.map]
  · exact nonempty_layout (writable_of_names form.onlyBindingMarks hnames)
  · have hlexemes := hasLexemes_bindingText hgap .importing layout
    rw [read, readImport_eq_ok_iff.mpr ⟨form, hlexemes, rfl⟩, Except.map]
  · exact nonempty_layout (writable_of_names form.onlyBindingMarks hnames)
  · have hlexemes := hasLexemes_bindingText hgap .exporting layout
    rw [read, readExport_eq_ok_iff.mpr ⟨form, hlexemes, rfl⟩, Except.map]

/-- Blanks of several kinds. -/
def wideGap (k : Nat) : List Char := if k % 2 = 0 then ['\u3000'] else ['\n']

theorem blank_wideGap (k : Nat) : Blank (wideGap k) := by
  unfold wideGap
  split <;> simp [Blank] <;> decide

/-- Tokens that hold a closing bracket, a quote and a backslash, or nothing. -/
def awkwardPrecedence : Precedence := ⟨-1, .nonassoc, ["]'\\", ""]⟩

def awkwardTokens : Layout (fun _ => false) (awkwardPrecedence.tokens.map .quoted) :=
  ⟨[⟨[], by simp [Blank], .quoted "]'\\", trivial, by simp [isWord], '\'', rfl⟩,
    ⟨['\u2028'], by simp [Blank]; decide, .quoted "", trivial, by simp [isWord], '"', rfl⟩], rfl⟩

def awkwardPrecedenceLine : String :=
  "\u3000%precedence\n[\u3000nonassoc\n,\u3000-1\n]\']\\\'\\\\\'\u2028\"\"\u3000"

/-- An import with the local names `default` and `as`. -/
def awkwardImport : ImportForm :=
  .both ⟨"default", by decide, by decide, true⟩
    ⟨true, ⟨[⟨"lex", some "as"⟩], false, by simp⟩, false⟩ "\"\\"

theorem isName_awkwardImport (text : String) (h : .word text ∈ awkwardImport.lexemes) :
    IsName text := by
  have hmem : text ∈ ["default", "lex", "lex", "as", "as", "from"] := by
    simpa [awkwardImport, ImportForm.lexemes, DefaultPart.lexemes, Group.lexemes, Contents.lexemes,
      Item.lexemes, originLexemes, optionally] using h
  have hnames : (["default", "lex", "lex", "as", "as", "from"].all fun name =>
      !name.toList.isEmpty && name.toList.all (inWord isBindingMark)) = true := by decide
  simpa [IsName] using List.all_eq_true.mp hnames text hmem

theorem awkward_directives_read_back :
    read .priority "\u3000%priority\n-9223372036854775808\u3000" =
      .ok (.priority Int64.minValue) ∧
    read .precedence awkwardPrecedenceLine = .ok (.precedence awkwardPrecedence) ∧
    ∃ layout : Layout isBindingMark awkwardImport.lexemes,
      read .importing (.ofList (bindingText wideGap .importing layout.chars)) =
        .ok (.importing ⟨"\"\\", [⟨"default", "default", false⟩, ⟨"lex", "as", true⟩]⟩) := by
  obtain ⟨hpriority, hprecedence, himport, -⟩ := directives_read_back blank_wideGap
  refine ⟨?_, ?_, ?_⟩
  · have htext : "\u3000%priority\n-9223372036854775808\u3000" =
        String.ofList (priorityText wideGap Int64.minValue) := rfl
    rw [htext]
    exact hpriority _
  · have htext : awkwardPrecedenceLine =
        String.ofList (precedenceText wideGap awkwardPrecedence awkwardTokens.chars) := rfl
    rw [htext]
    exact (hprecedence _ (by decide)).2 _
  · obtain ⟨hlayout, hread⟩ := himport awkwardImport
    obtain ⟨layout⟩ := hlayout isName_awkwardImport
    exact ⟨layout, hread layout⟩

end Directive

end ModularGrammar
