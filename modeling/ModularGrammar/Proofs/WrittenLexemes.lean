import ModularGrammar.Directive.Scan

/-!
# Lexemes and Their Texts

A lexeme is written after some blanks; a quoted one between quotes of either kind, with a backslash
before every backslash and every quote of that kind in it.  However some lexemes are written, they
are scanned again, if only there is a blank before each word.

## Architecture

1. Blanks at the ends of a text
2. Quoted texts are read back
3. `Placed`, `Layout`: lexemes in a text
4. `Layout.scan_chars`: they are scanned one by one
-/

namespace ModularGrammar

/-! ## Blanks -/

namespace Text

/-- A text of blanks only. -/
def Blank (cs : List Char) : Prop := ∀ c ∈ cs, isBlank c = true

variable {gap last cs : List Char}

/-- Blanks are removed from the front of a text that does not begin with one. -/
theorem trimStart_append (hgap : Blank gap) (hcs : ∀ c ∈ cs.head?, isBlank c = false) :
    trimStart (gap ++ cs) = cs := by
  rw [trimStart, List.dropWhile_append_of_pos hgap]
  cases cs with
  | nil => rfl
  | cons c cs =>
    have hc : ¬ isBlank c = true := by simpa using hcs
    rw [List.dropWhile_cons_of_neg hc]

theorem trimStart_eq_self (hcs : ∀ c ∈ cs.head?, isBlank c = false) : trimStart cs = cs := by
  have hnone : Blank [] := by simp [Blank]
  exact trimStart_append hnone hcs

/-- Blanks at both ends are removed from a text that holds none. -/
theorem trimBoth_append (hgap : Blank gap) (hlast : Blank last) (hne : cs ≠ [])
    (hcs : ∀ c ∈ cs, isBlank c = false) : trimBoth (gap ++ cs ++ last) = cs := by
  have hstart : trimStart (gap ++ (cs ++ last)) = cs ++ last := by
    apply trimStart_append hgap
    obtain ⟨c, tail, rfl⟩ := List.exists_cons_of_ne_nil hne
    simpa using hcs c List.mem_cons_self
  have hend : trimStart (last.reverse ++ cs.reverse) = cs.reverse := by
    apply trimStart_append
    · intro c hc
      exact hlast c (List.mem_reverse.mp hc)
    · intro c hc
      exact hcs c (List.mem_reverse.mp (List.mem_of_head? hc))
  rw [trimStart, ← List.reverse_append] at hend
  rw [List.append_assoc, trimBoth, hstart, trimEnd, hend, List.reverse_reverse]

/-! ## Quotes -/

/-- A text is read back from between quotes for which it is escaped. -/
theorem readQuoted_escapeFor {quote : Char} (hbackslash : quote ≠ '\\') (hline : quote ≠ '\n')
    (cs rest : List Char) :
    readQuoted quote (escapeFor quote cs ++ quote :: rest) = some (cs, rest) := by
  induction cs with
  | nil => simp [escapeFor, readQuoted]
  | cons c cs ih =>
    rw [escapeFor]
    split
    · next h =>
      -- what is escaped is a backslash or the quote, so no line ends there
      have hc : c ≠ '\n' := by
        rcases h with rfl | rfl
        · decide
        · exact hline
      simp [readQuoted, hc, ih]
    · next h =>
      rw [not_or] at h
      simp [readQuoted, h.1, h.2, ih]

end Text

/-! ## Lexemes in a text -/

namespace Lexeme

open Text

/-- The text of a lexeme, between the given quotes if it is quoted. -/
def chars (quote : Char) : Lexeme → List Char
  | .mark c => [c]
  | .quoted text => quote :: escapeFor quote text.toList ++ [quote]
  | .word text => text.toList

def isWord : Lexeme → Bool
  | .word _ => true
  | _ => false

/-- A lexeme that can be written: a word has at least one character and only those that words have,
and a mark is none of what quotes and blanks are. -/
def Writable (isMark : Char → Bool) : Lexeme → Prop
  | .mark c => isMark c = true ∧ isQuote c = false ∧ isBlank c = false
  | .quoted _ => True
  | .word text => text.toList ≠ [] ∧ ∀ c ∈ text.toList, inWord isMark c = true

/-- A lexeme in a text: after some blanks, at least one if it is a word, and between quotes of some
kind if it is quoted. -/
structure Placed (isMark : Char → Bool) where
  gap : List Char
  blank : Blank gap
  lexeme : Lexeme
  writable : lexeme.Writable isMark
  apart : lexeme.isWord = true → gap ≠ []
  quote : Char
  isQuote_quote : isQuote quote = true

variable {isMark : Char → Bool}

def Placed.chars (p : Placed isMark) : List Char := p.gap ++ p.lexeme.chars p.quote

/-- The text of some lexemes. -/
def layOut (layout : List (Placed isMark)) : List Char := layout.flatMap Placed.chars

/-- A way to write the given lexemes one after the other. -/
def Layout (isMark : Char → Bool) (lexemes : List Lexeme) : Type :=
  { placed : List (Placed isMark) // placed.map Placed.lexeme = lexemes }

def Layout.chars {lexemes : List Lexeme} (layout : Layout isMark lexemes) : List Char :=
  layOut layout.val

/-- Lexemes that can be written one by one can be written together. -/
theorem nonempty_layout {lexemes : List Lexeme} (h : ∀ l ∈ lexemes, l.Writable isMark) :
    Nonempty (Layout isMark lexemes) := by
  induction lexemes with
  | nil => exact ⟨[], rfl⟩
  | cons l lexemes ih =>
    rw [List.forall_mem_cons] at h
    obtain ⟨⟨placed, hplaced⟩⟩ := ih h.2
    let first : Placed isMark := ⟨[' '], by simp [Blank]; decide, l, h.1, by simp, '"', rfl⟩
    exact ⟨first :: placed, by rw [List.map_cons, hplaced]⟩

/-! ## Scanning -/

section Scanning

variable {cs rest last : List Char} {quote : Char}

theorem ne_of_isQuote (h : isQuote quote = true) :
    quote ≠ '\\' ∧ quote ≠ '\n' ∧ isBlank quote = false := by
  simp only [isQuote, Bool.or_eq_true, beq_iff_eq] at h
  rcases h with rfl | rfl <;> decide

theorem inWord_eq_true_iff {c : Char} :
    inWord isMark c = true ↔ isBlank c = false ∧ isQuote c = false ∧ isMark c = false := by
  simp [inWord, and_assoc]

/-- No lexeme begins with a blank. -/
theorem not_blank_head?_chars {l : Lexeme} (hl : l.Writable isMark)
    (hquote : isQuote quote = true) :
    ∀ c ∈ (l.chars quote ++ rest).head?, isBlank c = false := by
  cases l with
  | mark c => simpa [chars] using hl.2.2
  | quoted text => simpa [chars] using (ne_of_isQuote hquote).2.2
  | word text =>
    obtain ⟨c, tail, htext⟩ := List.exists_cons_of_ne_nil hl.1
    have hc := inWord_eq_true_iff.mp (hl.2 c (by simp [htext]))
    simpa [chars, htext] using hc.1

/-- A text that does not continue a word. -/
def EndsWord (isMark : Char → Bool) (rest : List Char) : Prop :=
  ∀ c ∈ rest.head?, inWord isMark c = false

theorem takeWhile_append {tail : List Char} (htail : ∀ c ∈ tail, inWord isMark c = true)
    (hrest : EndsWord isMark rest) :
    (tail ++ rest).takeWhile (inWord isMark) = tail ∧
      (tail ++ rest).dropWhile (inWord isMark) = rest := by
  rw [List.takeWhile_append_of_pos htail, List.dropWhile_append_of_pos htail]
  cases rest with
  | nil => simp
  | cons d rest =>
    have hd : ¬ inWord isMark d = true := by simp [hrest d rfl]
    rw [List.takeWhile_cons_of_neg hd, List.dropWhile_cons_of_neg hd, List.append_nil]
    exact ⟨rfl, rfl⟩

/-- A lexeme is the next one of a text that begins with it, if what follows does not continue a
word. -/
theorem next?_chars {l : Lexeme} (hl : l.Writable isMark) (hquote : isQuote quote = true)
    (hrest : EndsWord isMark rest) :
    next? isMark (l.chars quote ++ rest) = some (l, rest) := by
  cases l with
  | mark c => simp [chars, next?, hl.1, hl.2.1]
  | quoted text =>
    obtain ⟨hbackslash, hline, -⟩ := ne_of_isQuote hquote
    have hread := readQuoted_escapeFor hbackslash hline text.toList rest
    simp [chars, next?, hquote, hread]
  | word text =>
    obtain ⟨c, tail, htext⟩ := List.exists_cons_of_ne_nil hl.1
    have hall := hl.2
    rw [htext, List.forall_mem_cons] at hall
    -- a character of a word begins nothing else
    obtain ⟨hblank, hnoquote, hnomark⟩ := inWord_eq_true_iff.mp hall.1
    obtain ⟨htake, hdrop⟩ := takeWhile_append hall.2 hrest
    have hword : String.ofList (c :: tail) = text := by rw [← htext, String.ofList_toList]
    simp [chars, htext, next?, hblank, hnoquote, hnomark, htake, hdrop, hword]

theorem scan_of_next? {l : Lexeme} (h : next? isMark (trimStart cs) = some (l, rest)) :
    scan isMark cs = (scan isMark rest).map (l :: ·) := by
  have hne : trimStart cs ≠ [] := by
    intro hnil
    rw [hnil] at h
    cases h
  rw [scan, if_neg hne]
  split
  · next hnone =>
    rw [h] at hnone
    cases hnone
  · next hsome =>
    rw [h] at hsome
    cases hsome
    rfl

theorem endsWord_blank {gap : List Char} (hgap : Blank gap) (hne : gap ≠ []) :
    EndsWord isMark (gap ++ rest) := by
  obtain ⟨d, gap, rfl⟩ := List.exists_cons_of_ne_nil hne
  have hd := hgap d List.mem_cons_self
  simp [EndsWord, inWord, hd]

theorem endsWord_chars {l : Lexeme} (hl : l.Writable isMark) (hquote : isQuote quote = true)
    (hword : ¬ l.isWord = true) : EndsWord isMark (l.chars quote ++ rest) := by
  cases l with
  | mark c => simp [EndsWord, chars, inWord, hl.1]
  | quoted text => simp [EndsWord, chars, inWord, hquote]
  | word text => exact absurd rfl hword

/-- Behind a word there is a blank, a mark, a quote or nothing. -/
theorem endsWord_layOut (layout : List (Placed isMark)) (hlast : Blank last) :
    EndsWord isMark (layOut layout ++ last) := by
  cases layout with
  | nil =>
    intro c hc
    have hblank := hlast c (List.mem_of_head? hc)
    simp [inWord, hblank]
  | cons p layout =>
    rw [layOut, List.flatMap_cons, Placed.chars, List.append_assoc, List.append_assoc]
    by_cases hgap : p.gap = []
    · rw [hgap, List.nil_append]
      exact endsWord_chars p.writable p.isQuote_quote fun hword => p.apart hword hgap
    · exact endsWord_blank p.blank hgap

/-- Lexemes that are written one after the other are scanned again. -/
theorem scan_layOut (layout : List (Placed isMark)) (hlast : Blank last) :
    scan isMark (layOut layout ++ last) = .ok (layout.map Placed.lexeme) := by
  induction layout with
  | nil =>
    have hnil : trimStart (last ++ []) = [] := trimStart_append hlast (by simp)
    rw [List.append_nil] at hnil
    rw [layOut, List.flatMap_nil, List.nil_append, scan, if_pos hnil]
    rfl
  | cons p layout ih =>
    have hends := endsWord_layOut layout hlast
    -- the blanks go, and the lexeme is what comes next
    have htrim : trimStart (layOut (p :: layout) ++ last) =
        p.lexeme.chars p.quote ++ (layOut layout ++ last) := by
      rw [layOut, List.flatMap_cons, Placed.chars, List.append_assoc, List.append_assoc]
      exact trimStart_append p.blank (not_blank_head?_chars p.writable p.isQuote_quote)
    rw [scan_of_next? (htrim ▸ next?_chars p.writable p.isQuote_quote hends), ih]
    rfl

theorem Layout.scan_chars {lexemes : List Lexeme} (layout : Layout isMark lexemes)
    (hlast : Blank last) : scan isMark (layout.chars ++ last) = .ok lexemes := by
  rw [chars, scan_layOut layout.val hlast, layout.property]

end Scanning

end Lexeme

end ModularGrammar
