import Mathlib.Data.List.TakeWhile
import Mathlib.Tactic.Conv
import ModularGrammar.Proofs.Construction
import ModularGrammar.Proofs.KeywordAgreement
import ModularGrammar.Proofs.WrittenLexemes

/-!
# Which Priority Is Reported as Invalid

If the priority of a module cannot be read, the text that was read for it is behind the keyword of
its line.  The report takes the keyword off as well, but as often as it stands there.  So it tells
the text that was refused exactly if the keyword is not repeated; otherwise it tells a shorter text,
which may be a number.

## Architecture

1. Blanks at the end of a text, and what stands before them
2. `dropRepeated`: taking a beginning off as often as possible
3. `reportedPriority_eq`, `reportedPriority_eq_iff`: the report and the text that was refused
4. `reported_text_iff`: modules that are not built
-/

namespace ModularGrammar

/-! ## Blanks at the end -/

namespace Text

variable {cs rest last : List Char}

theorem exists_eq_trimEnd_append (cs : List Char) :
    ∃ last, Blank last ∧ cs = trimEnd cs ++ last := by
  refine ⟨(cs.reverse.takeWhile isBlank).reverse, ?_, ?_⟩
  · intro c hc
    exact List.mem_takeWhile_imp (List.mem_reverse.mp hc)
  · rw [trimEnd, ← List.reverse_append, List.takeWhile_append_dropWhile, List.reverse_reverse]

theorem trimEnd_append_blank (hlast : Blank last) : trimEnd (cs ++ last) = trimEnd cs := by
  have hblank : ∀ c ∈ last.reverse, isBlank c = true := fun c hc => hlast c (List.mem_reverse.mp hc)
  rw [trimEnd, List.reverse_append, List.dropWhile_append_of_pos hblank, trimEnd]

theorem trimBoth_append_blank (hlast : Blank last) : trimBoth (cs ++ last) = trimBoth cs := by
  rw [trimBoth, trimBoth, trimStart, trimStart, List.dropWhile_append]
  split
  · next hempty =>
    rw [List.isEmpty_iff.mp hempty, List.dropWhile_eq_nil_iff.mpr hlast]
  · exact trimEnd_append_blank hlast

theorem trimBoth_trimEnd (cs : List Char) : trimBoth (trimEnd cs) = trimBoth cs := by
  obtain ⟨last, hlast, hcs⟩ := exists_eq_trimEnd_append cs
  conv_rhs => rw [hcs, trimBoth_append_blank hlast]

theorem length_trimBoth_le (cs : List Char) : (trimBoth cs).length ≤ cs.length := by
  have hstart := (List.dropWhile_sublist (l := cs) isBlank).length_le
  obtain ⟨last, -, hcs⟩ := exists_eq_trimEnd_append (trimStart cs)
  have hend := congrArg List.length hcs
  rw [List.length_append] at hend
  rw [trimBoth]
  rw [← trimStart] at hstart
  omega

/-- What stands before something other than a blank is not touched at the end. -/
theorem trimEnd_append (hcs : ∀ c ∈ cs.getLast?, isBlank c = false) :
    trimEnd (cs ++ rest) = cs ++ trimEnd rest := by
  rw [trimEnd, List.reverse_append, List.dropWhile_append]
  split
  · next hempty =>
    have hstart : trimStart cs.reverse = cs.reverse := by
      apply trimStart_eq_self
      rwa [List.head?_reverse]
    rw [trimStart] at hstart
    rw [hstart, trimEnd, List.isEmpty_iff.mp hempty, List.reverse_reverse, List.reverse_nil,
      List.append_nil]
  · rw [List.reverse_append, List.reverse_reverse, trimEnd]

end Text

namespace Module

open Directive Text

/-! ## Repeated beginnings -/

section Repeated

variable {start cs rest : List Char}

theorem dropRepeated_of_not_begins (h : ¬ start <+: cs) : dropRepeated start cs = cs := by
  unfold dropRepeated
  split
  · rfl
  · next hsome => exact absurd ⟨_, (dropStart?_eq_some_iff.mp hsome).symm⟩ h

theorem dropRepeated_append (hstart : start ≠ []) :
    dropRepeated start (start ++ rest) = dropRepeated start rest := by
  have hdrop : dropStart? start (start ++ rest) = some rest := dropStart?_eq_some_iff.mpr rfl
  rw [dropRepeated]
  split
  · next hnone =>
    rw [hdrop] at hnone
    cases hnone
  · next hsome =>
    rw [hdrop] at hsome
    cases hsome
    rw [if_neg hstart]

/-- A text is a beginning, as often as it stands there, and what is left. -/
theorem exists_dropRepeated (hstart : start ≠ []) (cs : List Char) :
    ∃ n, cs = (List.replicate n start).flatten ++ dropRepeated start cs ∧
      ¬ start <+: dropRepeated start cs := by
  -- the induction is on the length of the text, of which each beginning takes something
  induction hlength : cs.length using Nat.strongRecOn generalizing cs with
  | ind length ih =>
    by_cases hbegins : start <+: cs
    · obtain ⟨rest, rfl⟩ := hbegins
      have hshorter : rest.length < length := by
        have hpos := List.length_pos_iff.mpr hstart
        rw [← hlength, List.length_append]
        omega
      obtain ⟨n, hrest, hnot⟩ := ih rest.length hshorter rest rfl
      rw [dropRepeated_append hstart]
      refine ⟨n + 1, ?_, hnot⟩
      rw [List.replicate_succ, List.flatten_cons, List.append_assoc, ← hrest]
    · rw [dropRepeated_of_not_begins hbegins]
      exact ⟨0, rfl, hbegins⟩

theorem length_dropRepeated_le (hstart : start ≠ []) (cs : List Char) :
    (dropRepeated start cs).length ≤ cs.length := by
  obtain ⟨n, hcs, -⟩ := exists_dropRepeated hstart cs
  conv_rhs => rw [hcs, List.length_append]
  exact Nat.le_add_left _ _

/-- Beginnings that do not end in a blank can be taken off before or after the blanks at the end. -/
theorem dropRepeated_trimEnd (hstart : start ≠ [])
    (hlast : ∀ c ∈ start.getLast?, isBlank c = false) (cs : List Char) :
    dropRepeated start (trimEnd cs) = trimEnd (dropRepeated start cs) := by
  obtain ⟨n, hcs, hnot⟩ := exists_dropRepeated hstart cs
  generalize hrest : dropRepeated start cs = rest at hcs hnot
  have hnot' : ¬ start <+: trimEnd rest := by
    intro hbegins
    obtain ⟨last, -, hend⟩ := exists_eq_trimEnd_append rest
    rw [hend] at hnot
    exact hnot (hbegins.trans (List.prefix_append _ _))
  rw [hcs]
  clear hcs hrest
  -- the blanks at the end are behind all the beginnings, whose number the induction is on
  induction n with
  | zero => exact dropRepeated_of_not_begins hnot'
  | succ n ih =>
    rw [List.replicate_succ, List.flatten_cons, List.append_assoc, trimEnd_append hlast,
      dropRepeated_append hstart, ih]

end Repeated

/-! ## The report -/

/-- What a line with a priority begins with. -/
def priorityKeyword : List Char := '%' :: Kind.priority.keyword.toList

theorem priorityKeyword_ne_nil : priorityKeyword ≠ [] := List.cons_ne_nil _ _

theorem not_blank_getLast?_priorityKeyword :
    ∀ c ∈ priorityKeyword.getLast?, isBlank c = false := by
  intro c hc
  have hlast : priorityKeyword.getLast? = some 'y' := by decide +kernel
  rw [hlast] at hc
  cases hc
  decide

section Report

variable {line : String} {rest : List Char}

/-- The report is what stands behind all keywords at the beginning of the line. -/
theorem reportedPriority_eq (h : trimStart line.toList = priorityKeyword ++ rest) :
    reportedPriority line = String.ofList (trimBoth (dropRepeated priorityKeyword rest)) := by
  have hlast := not_blank_getLast?_priorityKeyword
  have htrim : trimBoth line.toList = priorityKeyword ++ trimEnd rest := by
    rw [trimBoth, h, trimEnd_append hlast]
  rw [reportedPriority, ← priorityKeyword, htrim, dropRepeated_append priorityKeyword_ne_nil,
    dropRepeated_trimEnd priorityKeyword_ne_nil hlast, trimBoth_trimEnd]

/-- The text behind the first keyword is reported if no other keyword follows at once. -/
theorem reportedPriority_eq_iff (h : trimStart line.toList = priorityKeyword ++ rest) :
    reportedPriority line = String.ofList (trimBoth rest) ↔ ¬ priorityKeyword <+: rest := by
  rw [reportedPriority_eq h, String.ofList_inj]
  constructor
  · rintro heq ⟨more, rfl⟩
    -- the text that was refused has one keyword more than the report
    have hstart : trimStart (priorityKeyword ++ more) = priorityKeyword ++ more :=
      trimStart_eq_self (by simp [priorityKeyword]; decide)
    have hlonger : trimBoth (priorityKeyword ++ more) = priorityKeyword ++ trimEnd more := by
      rw [trimBoth, hstart, trimEnd_append not_blank_getLast?_priorityKeyword]
    have hshorter : (trimBoth (dropRepeated priorityKeyword more)).length ≤
        (trimEnd more).length := by
      rw [← trimBoth_trimEnd, ← dropRepeated_trimEnd priorityKeyword_ne_nil
        not_blank_getLast?_priorityKeyword]
      exact Nat.le_trans (length_trimBoth_le _) (length_dropRepeated_le priorityKeyword_ne_nil _)
    have hpos := List.length_pos_iff.mpr priorityKeyword_ne_nil
    rw [dropRepeated_append priorityKeyword_ne_nil, hlonger] at heq
    rw [heq, List.length_append] at hshorter
    omega
  · intro hnot
    rw [dropRepeated_of_not_begins hnot]

theorem exists_trimStart_of_priorityLines {source : Source} (h : line ∈ source.priorityLines) :
    ∃ rest, trimStart line.toList = priorityKeyword ++ rest := by
  simp only [Source.priorityLines, Kind.linesIn, List.mem_append, List.mem_filter,
    decide_eq_true_eq] at h
  rcases h with ⟨-, hkeyword⟩ | ⟨-, hkeyword⟩
  · exact exists_trimStart_of_keyword? hkeyword
  · exact exists_trimStart_of_keyword? hkeyword

theorem readPriority_of_number {n : Int64} (h : trimStart line.toList = priorityKeyword ++ rest)
    (hnumber : Decimal.readInt64? (trimBoth rest) = some n) : readPriority line = .ok n := by
  rw [readPriority, afterKeyword_eq_ok_iff.mpr h]
  simp only [bind, Except.bind, hnumber]

theorem readPriority_of_notNumber (h : trimStart line.toList = priorityKeyword ++ rest)
    (hnumber : Decimal.readInt64? (trimBoth rest) = none) :
    readPriority line = .error (.invalidPriority (String.ofList (trimBoth rest))) := by
  rw [readPriority, afterKeyword_eq_ok_iff.mpr h]
  simp only [bind, Except.bind, hnumber]

/-- A priority is refused only if the text behind the keyword is no number. -/
theorem not_number_of_refused (h : trimStart line.toList = priorityKeyword ++ rest)
    (hrefused : ∀ n, readPriority line ≠ .ok n) : Decimal.readInt64? (trimBoth rest) = none := by
  rw [Option.eq_none_iff_forall_ne_some]
  intro n hnumber
  exact hrefused n (readPriority_of_number h hnumber)

end Report

/-- If a module is not built for its priority, the one line with a priority was refused, and the
text behind its keyword is no number.  This text is what is reported exactly if it does not begin
with the keyword again; in any case the report is what stands behind all the keywords. -/
theorem reported_text_iff {name owner value : String} {source : Source} {fallback : Int64}
    (h : ofSource name source fallback = .error (.invalidPriority owner value)) :
    ∃ line rest, source.priorityLines = [line] ∧ owner = name ∧
      trimStart line.toList = priorityKeyword ++ rest ∧
      readPriority line = .error (.invalidPriority (String.ofList (trimBoth rest))) ∧
      Decimal.readInt64? (trimBoth rest) = none ∧
      (value = String.ofList (trimBoth rest) ↔ ¬ priorityKeyword <+: rest) ∧
      ∃ n last, rest = (List.replicate n priorityKeyword).flatten ++ last ∧
        ¬ priorityKeyword <+: last ∧ value = String.ofList (trimBoth last) := by
  cases ofSource_eq_error_iff.mp h with
  | @invalidPriority _ _ line hline hrefused =>
    have hmem : line ∈ source.priorityLines := by rw [hline]; exact List.mem_singleton_self line
    obtain ⟨rest, hrest⟩ := exists_trimStart_of_priorityLines hmem
    have hnumber := not_number_of_refused hrest hrefused
    have hread := readPriority_of_notNumber hrest hnumber
    obtain ⟨n, hrepeated, hnot⟩ := exists_dropRepeated priorityKeyword_ne_nil rest
    exact ⟨line, rest, hline, rfl, hrest, hread, hnumber, reportedPriority_eq_iff hrest, n, _,
      hrepeated, hnot, reportedPriority_eq hrest⟩

/-- A grammar whose priority is a word. -/
def wordedPriority : Source where
  grammar := {
    rules := .ofList [("sum", [⟨"X", none, none⟩])]
    directives := ["%priority ten"] }

/-- Behind a single keyword the report is the text that was refused. -/
theorem wordedPriority_reported :
    ofSource "m" wordedPriority 50 = .error (.invalidPriority "m" "ten") ∧
      ∃ line rest, wordedPriority.priorityLines = [line] ∧
        trimStart line.toList = priorityKeyword ++ rest ∧ ¬ priorityKeyword <+: rest ∧
        readPriority line = .error (.invalidPriority "ten") := by
  have hsource : ofSource "m" wordedPriority 50 = .error (.invalidPriority "m" "ten") := by
    decide +kernel
  obtain ⟨line, rest, hline, -, hrest, hread, -, hreported, -⟩ := reported_text_iff hsource
  have honly : wordedPriority.priorityLines = ["%priority ten"] := by decide +kernel
  obtain rfl : "%priority ten" = line := by rw [honly] at hline; cases hline; rfl
  have hten : readPriority "%priority ten" = .error (.invalidPriority "ten") := by decide +kernel
  have htext : "ten" = String.ofList (trimBoth rest) :=
    DirectiveError.invalidPriority.inj (Except.error.inj (hten.symm.trans hread))
  exact ⟨hsource, _, rest, hline, hrest, hreported.mp htext, hten⟩

/-- A grammar whose priority has its keyword twice. -/
def repeatedKeyword : Source where
  grammar := {
    rules := .ofList [("sum", [⟨"X", none, none⟩])]
    directives := ["%priority%priority5"] }

/-- The report tells a number, which is not what was refused. -/
theorem repeatedKeyword_misreported :
    ofSource "m" repeatedKeyword 50 = .error (.invalidPriority "m" "5") ∧
      repeatedKeyword.priorityLines = ["%priority%priority5"] ∧
      readPriority "%priority%priority5" = .error (.invalidPriority "%priority5") ∧
      Decimal.readInt64? "5".toList = some 5 :=
  ⟨by decide +kernel, by decide +kernel, by decide +kernel, by decide +kernel⟩

end Module

end ModularGrammar
