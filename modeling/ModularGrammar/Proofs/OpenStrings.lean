import Mathlib.Data.List.Infix
import Mathlib.Data.List.TakeWhile
import ModularGrammar.Proofs.Merging
import ModularGrammar.Proofs.WrittenLexemes

/-!
# Texts Fail to Be Scanned for Open Strings Only

A text is cut from left to right into slices: runs of blanks, punctuation marks, quoted texts and
words.  Each slice is the longest one with which the rest of the text begins, and its first
character decides which of the four it is.  So there is a slice wherever a text goes on, unless a
quote stands there that nothing closes.  Whether there is such a quote does not depend on what the
punctuation is.

## Architecture

1. `Inside`, `unescape`: what stands between two quotes, and what it means
2. `Slice`: the slices of a text, and what their first characters tell
3. `Longest`, `next?_eq_some_iff`: the next lexeme is the longest slice
4. `Cut`, `scan_eq_ok_iff_cut`: the lexemes of a text are its slices, without the blanks
5. `HasOpenString`, `scan_eq_error_iff`: why a text is not scanned
6. `scanned_unless_open`: both ways to scan a text
-/

namespace ModularGrammar

/-! ## Between quotes -/

namespace Text

/-- What can stand between two quotes: characters other than the quote and the backslash, and
backslashes, each with the character behind it, which is no line feed. -/
inductive Inside (quote : Char) : List Char → Prop where
  | nil : Inside quote []
  | plain {c : Char} {cs : List Char} (hquote : c ≠ quote) (hbackslash : c ≠ '\\')
      (h : Inside quote cs) : Inside quote (c :: cs)
  | escaped {c : Char} {cs : List Char} (hline : c ≠ '\n') (h : Inside quote cs) :
      Inside quote ('\\' :: c :: cs)

/-- The text in which every backslash has given way to the character behind it. -/
def unescape : List Char → List Char
  | [] => []
  | ['\\'] => []
  | '\\' :: c :: cs => c :: unescape cs
  | c :: cs => c :: unescape cs

/-- A quote before the text is closed in it. -/
def Closes (quote : Char) (cs : List Char) : Prop :=
  ∃ raw rest, Inside quote raw ∧ cs = raw ++ quote :: rest

section Quoted

variable {quote : Char} {cs raw rest : List Char}

/-- What stands between quotes is read up to the closing one. -/
theorem readQuoted_append (hquote : quote ≠ '\\') (hraw : Inside quote raw) :
    readQuoted quote (raw ++ quote :: rest) = some (unescape raw, rest) := by
  induction hraw with
  | nil => simp [readQuoted, unescape]
  | plain hne hbackslash h ih => simp [readQuoted, unescape, hne, hbackslash, ih]
  | escaped hline h ih => simp [readQuoted, unescape, hline, ih]

theorem readQuoted_eq_some_iff (hquote : quote ≠ '\\') {inner : List Char} :
    readQuoted quote cs = some (inner, rest) ↔
      ∃ raw, Inside quote raw ∧ cs = raw ++ quote :: rest ∧ unescape raw = inner := by
  constructor
  · intro h
    -- along the reading: each step gives the text between the quotes one more piece
    fun_induction readQuoted quote cs generalizing inner with
    | case1 => cases h
    | case2 => cases h
    | case3 => cases h
    | case4 c cs hline ih =>
      obtain ⟨⟨i, after⟩, hread, heq⟩ := Option.map_eq_some_iff.mp h
      cases heq
      obtain ⟨raw, hraw, rfl, rfl⟩ := ih hread
      exact ⟨'\\' :: c :: raw, .escaped hline hraw, rfl, rfl⟩
    | case5 cs =>
      cases h
      exact ⟨[], .nil, rfl, rfl⟩
    | case6 c cs hbackslash hne ih =>
      obtain ⟨⟨i, after⟩, hread, heq⟩ := Option.map_eq_some_iff.mp h
      cases heq
      obtain ⟨raw, hraw, rfl, rfl⟩ := ih hread
      have hb : c ≠ '\\' := fun h => hbackslash h
      exact ⟨c :: raw, .plain hne hb hraw, rfl, by simp [unescape, hb]⟩
  · rintro ⟨raw, hraw, rfl, rfl⟩
    exact readQuoted_append hquote hraw

theorem readQuoted_eq_none_iff (hquote : quote ≠ '\\') :
    readQuoted quote cs = none ↔ ¬ Closes quote cs := by
  rw [Option.eq_none_iff_forall_ne_some]
  constructor
  · rintro hnone ⟨raw, rest, hraw, hcs⟩
    exact hnone _ ((readQuoted_eq_some_iff hquote).mpr ⟨raw, hraw, hcs, rfl⟩)
  · rintro hopen ⟨inner, rest⟩ hread
    obtain ⟨raw, hraw, hcs, -⟩ := (readQuoted_eq_some_iff hquote).mp hread
    exact hopen ⟨raw, rest, hraw, hcs⟩

/-- A quote is closed by one other quote only. -/
theorem Inside.eq_of_append {raw' rest' : List Char} (hquote : quote ≠ '\\')
    (hraw : Inside quote raw) (hraw' : Inside quote raw')
    (h : raw ++ quote :: rest = raw' ++ quote :: rest') : raw = raw' ∧ rest = rest' := by
  have hread : readQuoted quote (raw ++ quote :: rest) = some (unescape raw, rest) :=
    readQuoted_append hquote hraw
  rw [h, readQuoted_append hquote hraw'] at hread
  obtain ⟨-, rfl⟩ := Prod.mk.inj (Option.some.inj hread)
  exact ⟨List.append_cancel_right h, rfl⟩

end Quoted

/-- Behind the characters of a class that are dropped, no character of this class follows. -/
theorem not_head?_dropWhile (p : Char → Bool) (cs : List Char) :
    ∀ c ∈ (cs.dropWhile p).head?, p c = false := by
  intro c hc
  have h := List.head?_dropWhile_not p cs
  rw [Option.mem_def.mp hc] at h
  simpa using h

theorem not_blank_head?_trimStart (cs : List Char) :
    ∀ c ∈ (trimStart cs).head?, isBlank c = false :=
  not_head?_dropWhile isBlank cs

theorem exists_eq_append_trimStart (cs : List Char) :
    ∃ gap, Blank gap ∧ cs = gap ++ trimStart cs := by
  refine ⟨cs.takeWhile isBlank, ?_, (List.takeWhile_append_dropWhile).symm⟩
  intro c hc
  exact List.mem_takeWhile_imp hc

/-- A run of characters of one class, behind which the class ends, is as long as any text of such
characters that begins there. -/
theorem length_le_of_run {p : Char → Bool} {run other rest : List Char}
    (hrest : ∀ c ∈ rest.head?, p c = false) (hother : ∀ c ∈ other, p c = true)
    (h : other <+: run ++ rest) : other.length ≤ run.length := by
  by_contra hlonger
  have hrun : run <+: other :=
    List.prefix_of_prefix_length_le (List.prefix_append run rest) h (by omega)
  obtain ⟨more, rfl⟩ := hrun
  rw [List.prefix_append_right_inj] at h
  cases more with
  | nil => simp at hlonger
  | cons c more =>
    -- the other text would go on with the character behind the run
    obtain ⟨tail, rfl⟩ := h
    have hc := hother c (by simp)
    rw [hrest c rfl] at hc
    cases hc

end Text

/-! ## Slices -/

namespace Lexeme

open Text

/-- The slices of a text: a run of blanks, which is taken for nothing, and the texts that are taken
for a lexeme. -/
inductive Slice (isMark : Char → Bool) : Option Lexeme → List Char → Prop where
  | blanks {c : Char} {cs : List Char} (hc : isBlank c = true) (hcs : Blank cs) :
      Slice isMark none (c :: cs)
  | mark {c : Char} (hblank : isBlank c = false) (hquote : isQuote c = false)
      (hmark : isMark c = true) : Slice isMark (some (.mark c)) [c]
  | quoted {quote : Char} {raw : List Char} (hquote : isQuote quote = true)
      (hraw : Inside quote raw) :
      Slice isMark (some (.quoted (String.ofList (unescape raw)))) (quote :: (raw ++ [quote]))
  | word {c : Char} {cs : List Char} (hc : inWord isMark c = true)
      (hcs : ∀ d ∈ cs, inWord isMark d = true) :
      Slice isMark (some (.word (String.ofList (c :: cs)))) (c :: cs)

/-- A character with which a slice goes on. -/
def continues (isMark : Char → Bool) : Option Lexeme → Char → Bool
  | none => isBlank
  | some (.word _) => inWord isMark
  | some _ => fun _ => false

/-- The slice is the longest one at the beginning of itself and what follows. -/
structure Longest (isMark : Char → Bool) (found : Option Lexeme) (slice rest : List Char) :
    Prop where
  isSlice : Slice isMark found slice
  longest : ∀ found' slice', Slice isMark found' slice' → slice' <+: slice ++ rest →
    slice'.length ≤ slice.length

variable {isMark : Char → Bool}

namespace Slice

variable {found : Option Lexeme} {c : Char} {cs slice : List Char}

theorem ne_nil (h : Slice isMark found slice) : slice ≠ [] := by
  cases h <;> exact List.cons_ne_nil _ _

/-! The first character of a slice decides what it is. -/

theorem of_blank (h : Slice isMark found (c :: cs)) (hc : isBlank c = true) :
    found = none ∧ Blank cs := by
  cases h with
  | blanks _ hcs => exact ⟨rfl, hcs⟩
  | mark hblank => simp [hblank] at hc
  | quoted hquote => simp [ne_of_isQuote hquote] at hc
  | word hword => simp [inWord_eq_true_iff.mp hword] at hc

theorem of_quote (h : Slice isMark found (c :: cs)) (hc : isQuote c = true) :
    ∃ raw, Inside c raw ∧ cs = raw ++ [c] ∧
      found = some (.quoted (String.ofList (unescape raw))) := by
  cases h with
  | blanks hblank => simp [ne_of_isQuote hc] at hblank
  | mark _ hquote => simp [hquote] at hc
  | quoted _ hraw => exact ⟨_, hraw, rfl, rfl⟩
  | word hword => simp [inWord_eq_true_iff.mp hword] at hc

theorem of_mark (h : Slice isMark found (c :: cs)) (hblank : isBlank c = false)
    (hquote : isQuote c = false) (hmark : isMark c = true) :
    found = some (.mark c) ∧ cs = [] := by
  cases h with
  | blanks hc => simp [hblank] at hc
  | mark => exact ⟨rfl, rfl⟩
  | quoted hc => simp [hquote] at hc
  | word hword => simp [inWord_eq_true_iff.mp hword] at hmark

theorem of_inWord (h : Slice isMark found (c :: cs)) (hc : inWord isMark c = true) :
    found = some (.word (String.ofList (c :: cs))) ∧ ∀ d ∈ cs, inWord isMark d = true := by
  obtain ⟨hblank, hquote, hmark⟩ := inWord_eq_true_iff.mp hc
  cases h with
  | blanks hc => simp [hblank] at hc
  | mark _ _ hc => simp [hmark] at hc
  | quoted hc => simp [hquote] at hc
  | word _ hcs => exact ⟨rfl, hcs⟩

/-- A slice with a character that continues it is a slice. -/
theorem concat (h : Slice isMark found slice) (hc : continues isMark found c = true) :
    ∃ found', Slice isMark found' (slice ++ [c]) := by
  cases h with
  | blanks hd hcs =>
    refine ⟨none, .blanks hd ?_⟩
    exact List.forall_mem_append.mpr ⟨hcs, List.forall_mem_singleton.mpr hc⟩
  | mark => cases hc
  | quoted => cases hc
  | word hd hcs =>
    refine ⟨_, .word hd ?_⟩
    exact List.forall_mem_append.mpr ⟨hcs, List.forall_mem_singleton.mpr hc⟩

end Slice

section Next

variable {found : Option Lexeme} {l : Lexeme} {slice rest cs : List Char}

/-- A slice is the longest one if nothing follows that continues it. -/
theorem longest_iff : Longest isMark found slice rest ↔
    Slice isMark found slice ∧ ∀ c ∈ rest.head?, continues isMark found c = false := by
  constructor
  · intro h
    refine ⟨h.isSlice, fun c hc => ?_⟩
    obtain ⟨tail, rfl⟩ := List.head?_eq_some_iff.mp hc
    rw [← Bool.not_eq_true]
    intro hcontinues
    -- with the next character the slice would be a longer one
    obtain ⟨found', hslice⟩ := h.isSlice.concat hcontinues
    have hle := h.longest found' _ hslice ⟨tail, by simp⟩
    rw [List.length_append, List.length_singleton] at hle
    omega
  · rintro ⟨hslice, hrest⟩
    refine ⟨hslice, fun found' slice' hslice' hbegins => ?_⟩
    obtain ⟨c, cs', rfl⟩ := List.exists_cons_of_ne_nil hslice'.ne_nil
    -- both slices have their first character in common, and so are of one kind
    cases hslice with
    | blanks hd hcs =>
      obtain ⟨rfl, htail⟩ := List.cons_prefix_cons.mp hbegins
      have hle := length_le_of_run hrest (hslice'.of_blank hd).2 htail
      exact Nat.succ_le_succ hle
    | mark hblank hquote hmark =>
      obtain ⟨rfl, -⟩ := List.cons_prefix_cons.mp hbegins
      rw [(hslice'.of_mark hblank hquote hmark).2]
    | quoted hquote hraw =>
      obtain ⟨rfl, tail, htail⟩ := List.cons_prefix_cons.mp hbegins
      obtain ⟨raw', hraw', rfl, -⟩ := hslice'.of_quote hquote
      simp only [List.append_eq, List.append_assoc, List.cons_append, List.nil_append] at htail
      rw [(hraw'.eq_of_append (ne_of_isQuote hquote).1 hraw htail).1]
    | word hd hcs =>
      obtain ⟨rfl, htail⟩ := List.cons_prefix_cons.mp hbegins
      have hle := length_le_of_run hrest (hslice'.of_inWord hd).2 htail
      exact Nat.succ_le_succ hle

/-- The next lexeme of a text is the longest slice with which it begins. -/
theorem next?_eq_some_iff (hblank : ∀ c ∈ cs.head?, isBlank c = false) :
    next? isMark cs = some (l, rest) ↔
      ∃ slice, cs = slice ++ rest ∧ Longest isMark (some l) slice rest := by
  simp only [longest_iff]
  constructor
  · intro h
    cases cs with
    | nil => cases h
    | cons c cs =>
      have hc : isBlank c = false := hblank c rfl
      rw [next?] at h
      split_ifs at h with hquote hmark
      · obtain ⟨⟨inner, after⟩, hread, heq⟩ := Option.map_eq_some_iff.mp h
        cases heq
        -- the slice is the text between the quotes with the quotes around it
        obtain ⟨raw, hraw, rfl, rfl⟩ :=
          (readQuoted_eq_some_iff (ne_of_isQuote hquote).1).mp hread
        exact ⟨c :: (raw ++ [c]), by simp, .quoted hquote hraw, fun _ _ => rfl⟩
      · cases h
        exact ⟨[c], rfl, .mark hc (Bool.eq_false_iff.mpr hquote) hmark, fun _ _ => rfl⟩
      · cases h
        have hword : inWord isMark c = true := by simp [inWord_eq_true_iff, *]
        -- a word goes on as long as there are characters for it
        refine ⟨c :: cs.takeWhile (inWord isMark), ?_, .word hword ?_, ?_⟩
        · rw [List.cons_append, List.takeWhile_append_dropWhile]
        · exact fun d hd => List.mem_takeWhile_imp hd
        · exact not_head?_dropWhile (inWord isMark) cs
  · rintro ⟨slice, rfl, hslice, hrest⟩
    -- the first character tells the kind of the slice, and maximality where it ends
    cases hslice with
    | mark hc hquote hmark => simp [next?, hquote, hmark]
    | quoted hquote hraw =>
      have hbackslash := (ne_of_isQuote hquote).1
      simp [next?, hquote, readQuoted_append hbackslash hraw]
    | word hd hcs =>
      obtain ⟨hc, hquote, hmark⟩ := inWord_eq_true_iff.mp hd
      obtain ⟨htake, hdrop⟩ := takeWhile_append hcs hrest
      simp [next?, hc, hquote, hmark, htake, hdrop]

/-- Only where a quote opens a text there is no lexeme. -/
theorem next?_eq_none_iff {c : Char} (hblank : isBlank c = false) :
    next? isMark (c :: cs) = none ↔ isQuote c = true ∧ ¬ Closes c cs := by
  by_cases hquote : isQuote c = true
  · rw [next?, if_pos hquote, Option.map_eq_none_iff,
      readQuoted_eq_none_iff (ne_of_isQuote hquote).1, and_iff_right hquote]
  · have hsome : next? isMark (c :: cs) ≠ none := by
      rw [next?, if_neg hquote, hblank]
      split <;> exact Option.some_ne_none _
    simp [hsome, hquote]

end Next

/-! ## Cutting -/

/-- A text, cut from left to right into longest slices. -/
inductive Cut (isMark : Char → Bool) : List (Option Lexeme × List Char) → List Char → Prop where
  | nil : Cut isMark [] []
  | cons {found : Option Lexeme} {slice rest : List Char}
      {slices : List (Option Lexeme × List Char)} (hslice : Longest isMark found slice rest)
      (h : Cut isMark slices rest) : Cut isMark ((found, slice) :: slices) (slice ++ rest)

section Cutting

variable {cs rest gap slice : List Char} {slices : List (Option Lexeme × List Char)} {l : Lexeme}

/-- The slices make up the whole text. -/
theorem Cut.flatMap_eq (h : Cut isMark slices cs) : slices.flatMap Prod.snd = cs := by
  induction h with
  | nil => rfl
  | cons hslice h ih => rw [List.flatMap_cons, ih]

/-- Blanks before a text that begins with something else are a slice of their own. -/
theorem Cut.exists_blank_append (h : Cut isMark slices rest) (hgap : Blank gap)
    (hrest : ∀ c ∈ rest.head?, isBlank c = false) :
    ∃ slices', Cut isMark slices' (gap ++ rest) := by
  cases gap with
  | nil => exact ⟨slices, h⟩
  | cons c gap =>
    obtain ⟨hc, hcs⟩ := List.forall_mem_cons.mp hgap
    exact ⟨_, .cons (longest_iff.mpr ⟨.blanks hc hcs, hrest⟩) h⟩

theorem Slice.blank (h : Slice isMark none slice) : Blank slice := by
  cases h with
  | blanks hc hcs => exact List.forall_mem_cons.mpr ⟨hc, hcs⟩

/-- A slice that is taken for a lexeme does not begin with a blank. -/
theorem Slice.not_blank_head? (h : Slice isMark (some l) slice) (rest : List Char) :
    ∀ c ∈ (slice ++ rest).head?, isBlank c = false := by
  obtain ⟨c, cs, rfl⟩ := List.exists_cons_of_ne_nil h.ne_nil
  intro d hd
  cases hd
  rw [← Bool.not_eq_true]
  intro hblank
  cases (h.of_blank hblank).1

/-- Blanks before a text do not matter for its lexemes. -/
theorem scan_blank_append (hgap : Blank gap) : scan isMark (gap ++ rest) = scan isMark rest := by
  have htrim : trimStart (gap ++ rest) = trimStart rest := List.dropWhile_append_of_pos hgap
  unfold scan
  rw [htrim]

theorem scan_of_next?_eq_none (hne : trimStart cs ≠ [])
    (h : next? isMark (trimStart cs) = none) :
    scan isMark cs = .error (noLexeme (trimStart cs)) := by
  rw [scan, if_neg hne]
  split
  · rfl
  · next hsome =>
    rw [h] at hsome
    cases hsome

/-- The longest slice of a text is the first of its lexemes, unless it is blank. -/
theorem scan_longest (h : Longest isMark (some l) slice rest) :
    scan isMark (slice ++ rest) = (scan isMark rest).map (l :: ·) := by
  have hblank := h.isSlice.not_blank_head? rest
  have htrim : trimStart (slice ++ rest) = slice ++ rest := trimStart_eq_self hblank
  apply scan_of_next?
  rw [htrim, next?_eq_some_iff hblank]
  exact ⟨slice, rfl, h⟩

/-- A text that is cut is scanned, and its lexemes are what the slices are taken for. -/
theorem Cut.scan_eq (h : Cut isMark slices cs) :
    scan isMark cs = .ok (slices.filterMap Prod.fst) := by
  induction h with
  | nil =>
    unfold scan
    rfl
  | @cons found slice rest slices hslice h ih =>
    cases found with
    | none => rw [scan_blank_append hslice.isSlice.blank, ih, List.filterMap_cons_none rfl]
    | some l =>
      rw [scan_longest hslice, ih]
      rfl

end Cutting

/-! ## Open strings -/

/-- Reading the text from the left, with quoted texts taken whole, a quote is met that nothing
closes. -/
inductive HasOpenString : List Char → Prop where
  | here {quote : Char} {cs : List Char} (hquote : isQuote quote = true)
      (hopen : ¬ Closes quote cs) : HasOpenString (quote :: cs)
  | char {c : Char} {cs : List Char} (hc : isQuote c = false) (h : HasOpenString cs) :
      HasOpenString (c :: cs)
  | string {quote : Char} {raw cs : List Char} (hquote : isQuote quote = true)
      (hraw : Inside quote raw) (h : HasOpenString cs) :
      HasOpenString (quote :: (raw ++ quote :: cs))

namespace HasOpenString

variable {c quote : Char} {cs raw rest slice : List Char} {found : Option Lexeme}

theorem cons_iff (hc : isQuote c = false) : HasOpenString (c :: cs) ↔ HasOpenString cs := by
  constructor
  · intro h
    cases h with
    | here hquote => simp [hc] at hquote
    | char _ h => exact h
    | string hquote => simp [hc] at hquote
  · exact .char hc

theorem append_iff (hcs : ∀ c ∈ cs, isQuote c = false) :
    HasOpenString (cs ++ rest) ↔ HasOpenString rest := by
  induction cs with
  | nil => rfl
  | cons c cs ih =>
    rw [List.forall_mem_cons] at hcs
    rw [List.cons_append, cons_iff hcs.1, ih hcs.2]

theorem quoted_append_iff (hquote : isQuote quote = true) (hraw : Inside quote raw) :
    HasOpenString (quote :: (raw ++ quote :: rest)) ↔ HasOpenString rest := by
  constructor
  · intro h
    generalize hcs : raw ++ quote :: rest = cs at h
    cases h with
    | here _ hopen => exact absurd ⟨raw, rest, hraw, hcs.symm⟩ hopen
    | char hc => simp [hc] at hquote
    | string _ hraw' h =>
      -- the quote is closed where the slice ends
      obtain ⟨-, rfl⟩ := hraw.eq_of_append (ne_of_isQuote hquote).1 hraw' hcs
      exact h
  · exact .string hquote hraw

theorem isQuote_of_isBlank (h : isBlank c = true) : isQuote c = false := by
  rw [← Bool.not_eq_true]
  intro hquote
  simp [ne_of_isQuote hquote] at h

theorem blank_append_iff (hgap : Blank cs) : HasOpenString (cs ++ rest) ↔ HasOpenString rest :=
  append_iff fun c hc => isQuote_of_isBlank (hgap c hc)

/-- What is a slice holds no open string, so one in the text is behind it. -/
theorem slice_append_iff (hslice : Slice isMark found slice) :
    HasOpenString (slice ++ rest) ↔ HasOpenString rest := by
  cases hslice with
  | blanks hc hcs =>
    exact blank_append_iff (List.forall_mem_cons.mpr ⟨hc, hcs⟩)
  | mark _ hquote => exact cons_iff hquote
  | quoted hquote hraw =>
    rw [List.cons_append, List.append_assoc, List.singleton_append]
    exact quoted_append_iff hquote hraw
  | @word c cs hc hcs =>
    have hword : ∀ d ∈ c :: cs, inWord isMark d = true := List.forall_mem_cons.mpr ⟨hc, hcs⟩
    exact append_iff fun d hd => (inWord_eq_true_iff.mp (hword d hd)).2.1

end HasOpenString

section Outcome

variable {cs : List Char} {slices : List (Option Lexeme × List Char)} {lexemes : List Lexeme}
  {e : DirectiveError}

/-- A text that is cut has no open string. -/
theorem Cut.not_hasOpenString (h : Cut isMark slices cs) : ¬ HasOpenString cs := by
  induction h with
  | nil => nofun
  | cons hslice h ih => rwa [HasOpenString.slice_append_iff hslice.isSlice]

/-- A text is cut, or scanning it ends at an open string. -/
theorem cut_or_open (isMark : Char → Bool) (cs : List Char) : (∃ slices, Cut isMark slices cs) ∨
    scan isMark cs = .error .unterminatedString ∧ HasOpenString cs := by
  -- the recursion of the scan: all blank, no lexeme behind the blanks, or one and then the rest
  induction cs using scan.induct isMark with
  | case1 cs htrim =>
    obtain ⟨gap, hgap, hcs⟩ := exists_eq_append_trimStart cs
    rw [hcs, htrim]
    exact .inl (Cut.nil.exists_blank_append hgap nofun)
  | case2 cs hne hnext =>
    obtain ⟨gap, hgap, hcs⟩ := exists_eq_append_trimStart cs
    have hblank := not_blank_head?_trimStart cs
    obtain ⟨c, rest, hrest⟩ := List.exists_cons_of_ne_nil hne
    rw [hrest] at hblank hnext
    obtain ⟨hquote, hopen⟩ := (next?_eq_none_iff (hblank c rfl)).mp hnext
    refine .inr ⟨?_, ?_⟩
    · rw [scan_of_next?_eq_none hne (by rw [hrest, hnext]), hrest, noLexeme, if_pos hquote]
    · rw [hcs, hrest, HasOpenString.blank_append_iff hgap]
      exact .here hquote hopen
  | case3 cs hne l rest hnext ih =>
    obtain ⟨gap, hgap, hcs⟩ := exists_eq_append_trimStart cs
    have hblank := not_blank_head?_trimStart cs
    obtain ⟨slice, hslice, hlongest⟩ := (next?_eq_some_iff hblank).mp hnext
    rw [hslice] at hblank hcs
    rcases ih with ⟨slices, hcut⟩ | ⟨herror, hopen⟩
    · rw [hcs]
      exact .inl ((hcut.cons hlongest).exists_blank_append hgap hblank)
    · refine .inr ⟨?_, ?_⟩
      · rw [scan_of_next? hnext, herror]
        rfl
      · rw [hcs, HasOpenString.blank_append_iff hgap,
          HasOpenString.slice_append_iff hlongest.isSlice]
        exact hopen

theorem scan_eq_ok_iff_cut : scan isMark cs = .ok lexemes ↔
    ∃ slices, Cut isMark slices cs ∧ slices.filterMap Prod.fst = lexemes := by
  constructor
  · intro h
    rcases cut_or_open isMark cs with ⟨slices, hcut⟩ | ⟨herror, -⟩
    · rw [hcut.scan_eq] at h
      exact ⟨slices, hcut, Except.ok.inj h⟩
    · rw [herror] at h
      cases h
  · rintro ⟨slices, hcut, rfl⟩
    exact hcut.scan_eq

theorem scan_eq_error_iff : scan isMark cs = .error e ↔
    e = .unterminatedString ∧ HasOpenString cs := by
  constructor
  · intro h
    rcases cut_or_open isMark cs with ⟨slices, hcut⟩ | ⟨herror, hopen⟩
    · rw [hcut.scan_eq] at h
      cases h
    · rw [herror] at h
      cases h
      exact ⟨rfl, hopen⟩
  · rintro ⟨rfl, hopen⟩
    rcases cut_or_open isMark cs with ⟨slices, hcut⟩ | ⟨herror, -⟩
    · exact absurd hopen hcut.not_hasOpenString
    · exact herror

/-- Scanning a text, with the punctuation of binding lists or for words alone.  Either the text is
cut into longest slices, which make up the whole of it in order, and the lexemes are what the slices
other than blanks are taken for; or it has an open string, and this is what is told.  Nothing else
is ever told, and both ways to scan fail for the same texts. -/
theorem scanned_unless_open (cs : List Char) :
    (∀ lexemes, scanBindings cs = .ok lexemes ↔ ∃ slices, Cut isBindingMark slices cs ∧
      slices.flatMap Prod.snd = cs ∧ slices.filterMap Prod.fst = lexemes) ∧
    (∀ words, scanWords cs = .ok words ↔ ∃ slices, Cut (fun _ => false) slices cs ∧
      slices.flatMap Prod.snd = cs ∧ (slices.filterMap Prod.fst).map text = words) ∧
    (∀ e, scanBindings cs = .error e ↔ e = .unterminatedString ∧ HasOpenString cs) ∧
    (∀ e, scanWords cs = .error e ↔ e = .unterminatedString ∧ HasOpenString cs) ∧
    DirectiveError.unterminatedString.message = "unterminated string literal" := by
  refine ⟨?bindings, ?words, fun e => scan_eq_error_iff, ?wordsOpen, rfl⟩
  case bindings =>
    intro lexemes
    -- that the slices make up the text holds of every cut
    rw [scanBindings, scan_eq_ok_iff_cut]
    constructor
    · rintro ⟨slices, hcut, hlexemes⟩
      exact ⟨slices, hcut, hcut.flatMap_eq, hlexemes⟩
    · rintro ⟨slices, hcut, -, hlexemes⟩
      exact ⟨slices, hcut, hlexemes⟩
  case words =>
    intro words
    simp only [scanWords, except_map_eq_ok, scan_eq_ok_iff_cut]
    constructor
    · rintro ⟨_, ⟨slices, hcut, rfl⟩, hwords⟩
      exact ⟨slices, hcut, hcut.flatMap_eq, hwords⟩
    · rintro ⟨slices, hcut, -, hwords⟩
      exact ⟨_, ⟨slices, hcut, rfl⟩, hwords⟩
  case wordsOpen =>
    intro e
    rw [scanWords, except_map_eq_error, scan_eq_error_iff]

/-- A backslash before a line feed keeps a string open, unless it belongs to the one before it. -/
example : scanWords "'a\\\n'".toList = .error .unterminatedString ∧
    scanWords "'a\\\\\n'".toList = .ok ["a\\\n"] :=
  ⟨by decide +kernel, by decide +kernel⟩

end Outcome

end Lexeme

end ModularGrammar
