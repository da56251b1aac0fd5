import ModularGrammar.Link.Options
import ModularGrammar.Proofs.WrittenDirectives

/-!
# Shown Options

When the options of a link are shown, everything that is shown can be seen, whatever the helper is
called, and the options can be told apart: only how a change changes the modules is not shown.

## Architecture

1. `codePoint`: a code point is read back from its hexadecimal digits
2. `Shown`: the three ways to show a character (`shown_visibleChar`)
3. `eq_of_append`: no way to show a character is the beginning of another
4. `isPrintable_of_mem_visibly`, `visibly_injective`: texts
5. `describe_eq_iff`: options
-/

namespace ModularGrammar

namespace Text

/-- A text is cut in one way only at the first of some character. -/
theorem cut_unique {sep : Char} {front front' rest rest' : List Char} (hfront : sep ∉ front)
    (hfront' : sep ∉ front') (h : front ++ sep :: rest = front' ++ sep :: rest') :
    front = front' ∧ rest = rest' := by
  have hcut := congrArg (splitChars sep) h
  rw [splitChars_append_cons hfront, splitChars_append_cons hfront'] at hcut
  obtain ⟨rfl, -⟩ := List.cons.inj hcut
  exact ⟨rfl, (List.cons.inj (List.append_cancel_left h)).2⟩

/-! ## Code points -/

def hexDigits : List Char :=
  ['0', '1', '2', '3', '4', '5', '6', '7', '8', '9', 'a', 'b', 'c', 'd', 'e', 'f']

/-- The number that hexadecimal digits stand for. -/
def codePoint (digits : List Char) : Nat :=
  digits.foldl (fun n c => 16 * n + hexDigits.idxOf c) 0

theorem idxOf_digitChar : ∀ d < 16, hexDigits.idxOf d.digitChar = d := by decide

theorem digitChar_mem_hexDigits : ∀ d < 16, d.digitChar ∈ hexDigits := by decide

theorem codePoint_toDigits (n : Nat) : codePoint (Nat.toDigits 16 n) = n := by
  -- all digits but the last one are those of a sixteenth of the number
  induction n using Nat.strongRecOn with
  | ind n ih =>
    by_cases hn : n < 16
    · rw [Nat.toDigits_of_lt_base hn]
      simp [codePoint, idxOf_digitChar n hn]
    · have hfront := ih (n / 16) (by omega)
      have hlast := idxOf_digitChar (n % 16) (Nat.mod_lt n (by decide))
      rw [Nat.toDigits_of_base_le (by decide) (by omega), codePoint, List.foldl_append]
      rw [codePoint] at hfront
      simp only [hfront, List.foldl_cons, List.foldl_nil, hlast]
      omega

theorem mem_hexDigits_of_mem_toDigits {n : Nat} {c : Char} (h : c ∈ Nat.toDigits 16 n) :
    c ∈ hexDigits := by
  induction n using Nat.strongRecOn with
  | ind n ih =>
    by_cases hn : n < 16
    · rw [Nat.toDigits_of_lt_base hn, List.mem_singleton] at h
      exact h ▸ digitChar_mem_hexDigits n hn
    · rw [Nat.toDigits_of_base_le (by decide) (by omega), List.mem_append,
        List.mem_singleton] at h
      rcases h with h | h
      · exact ih (n / 16) (by omega) h
      · exact h ▸ digitChar_mem_hexDigits (n % 16) (Nat.mod_lt n (by decide))

/-! ## Characters -/

/-- No range of characters that cannot be seen touches those from the space to the tilde. -/
theorem ascii_outside {r : Nat × Nat}
    (h : r ∈ unprintableLow ++ unprintableMiddle ++ unprintableHigh) :
    r.2 < 0x20 ∨ 0x7e < r.1 := by
  have hlow : unprintableLow.all (fun r => r.2 < 0x20 || 0x7e < r.1) = true := by decide +kernel
  have hmiddle : unprintableMiddle.all (fun r => r.2 < 0x20 || 0x7e < r.1) = true := by
    decide +kernel
  have hhigh : unprintableHigh.all (fun r => r.2 < 0x20 || 0x7e < r.1) = true := by decide +kernel
  rw [List.append_assoc, List.mem_append, List.mem_append] at h
  rcases h with h | h | h
  · simpa using List.all_eq_true.mp hlow r h
  · simpa using List.all_eq_true.mp hmiddle r h
  · simpa using List.all_eq_true.mp hhigh r h

theorem isPrintable_of_ascii {c : Char} (hfirst : 0x20 ≤ c.toNat) (hlast : c.toNat ≤ 0x7e) :
    isPrintable c = true := by
  rw [isPrintable, Bool.not_eq_true', List.any_eq_false]
  intro r hr
  have houtside := ascii_outside hr
  simp only [Bool.and_eq_true, decide_eq_true_eq, not_and, not_le]
  omega

/-- The characters that have a letter, or themselves, behind a backslash. -/
def shorthands : List (Char × Char) :=
  [('\x00', '0'), ('\t', 't'), ('\r', 'r'), ('\n', 'n'), ('"', '"'), ('\\', '\\')]

/-- The ways in which characters are shown. -/
inductive Shown : Char → List Char → Prop where
  | itself {c : Char} (hbackslash : c ≠ '\\') (hquote : c ≠ '"') (h : isPrintable c = true) :
      Shown c [c]
  | shorthand {c d : Char} (h : (c, d) ∈ shorthands) : Shown c ['\\', d]
  | code (c : Char) : Shown c ('\\' :: 'u' :: '{' :: (Nat.toDigits 16 c.toNat ++ ['}']))

theorem shown_visibleChar (c : Char) : Shown c (visibleChar c) := by
  unfold visibleChar
  split
  · next h => exact h ▸ .shorthand (by decide)
  split
  · next h => exact h ▸ .shorthand (by decide)
  split
  · next h => exact h ▸ .shorthand (by decide)
  split
  · next h => exact h ▸ .shorthand (by decide)
  split
  · next h =>
    rcases h with rfl | rfl
    · exact .shorthand (by decide)
    · exact .shorthand (by decide)
  next h =>
  split
  · -- neither a backslash nor a quote, as those have been dealt with
    next hprintable => exact .itself (fun hc => h (.inr hc)) (fun hc => h (.inl hc)) hprintable
  · exact .code c

theorem shorthand_ne_u : ∀ p ∈ shorthands, p.2 ≠ 'u' := by decide

theorem shorthand_injective : ∀ p ∈ shorthands, ∀ q ∈ shorthands, p.2 = q.2 → p.1 = q.1 := by
  decide

/-- A character is known from the beginning of a text that shows it. -/
theorem Shown.eq_of_append {c d : Char} {shown shown' rest rest' : List Char} (hc : Shown c shown)
    (hd : Shown d shown') (h : shown ++ rest = shown' ++ rest') : c = d := by
  cases hc with
  | itself hbackslash =>
    cases hd with
    | itself => exact (List.cons.inj h).1
    | shorthand => exact absurd (List.cons.inj h).1 hbackslash
    | code => exact absurd (List.cons.inj h).1 hbackslash
  | @shorthand x hx =>
    cases hd with
    | itself hbackslash => exact absurd (List.cons.inj h).1.symm hbackslash
    | @shorthand y hy =>
      have hletter : x = y := (List.cons.inj (List.cons.inj h).2).1
      exact shorthand_injective _ hx _ hy hletter
    | code => exact absurd (List.cons.inj (List.cons.inj h).2).1 (shorthand_ne_u _ hx)
  | code =>
    cases hd with
    | itself hbackslash => exact absurd (List.cons.inj h).1.symm hbackslash
    | shorthand hy => exact absurd (List.cons.inj (List.cons.inj h).2).1.symm (shorthand_ne_u _ hy)
    | code =>
      -- the digits end at the closing brace, which is no digit
      have hbrace : ∀ n, '}' ∉ Nat.toDigits 16 n := fun n hmem =>
        absurd (mem_hexDigits_of_mem_toDigits hmem) (by decide)
      simp only [List.cons_append, List.append_assoc, List.nil_append, List.cons.injEq,
        true_and] at h
      have hdigits := (cut_unique (hbrace _) (hbrace _) h).1
      have hcode : c.toNat = d.toNat := by
        rw [← codePoint_toDigits c.toNat, hdigits, codePoint_toDigits]
      exact Char.toNat_inj.mp hcode

theorem Shown.ne_nil {c : Char} {shown : List Char} (h : Shown c shown) : shown ≠ [] := by
  cases h <;> exact List.cons_ne_nil _ _

/-- All that stands for a character that cannot be seen itself is ASCII. -/
theorem ascii_of_mem {c : Char}
    (h : c ∈ ['\\', 'u', '{', '}'] ++ shorthands.map Prod.snd ++ hexDigits) :
    0x20 ≤ c.toNat ∧ c.toNat ≤ 0x7e := by
  have hall : (['\\', 'u', '{', '}'] ++ shorthands.map Prod.snd ++ hexDigits).all
      (fun x => 0x20 ≤ x.toNat && x.toNat ≤ 0x7e) = true := by decide
  simpa using List.all_eq_true.mp hall c h

/-- All that is shown of a character can be seen. -/
theorem Shown.isPrintable_of_mem {c d : Char} {shown : List Char} (h : Shown c shown)
    (hd : d ∈ shown) : isPrintable d = true := by
  cases h with
  | itself _ _ hprintable => exact List.mem_singleton.mp hd ▸ hprintable
  | shorthand hx =>
    -- escapes are written in ASCII, whatever they stand for
    have hascii := ascii_of_mem (c := d) <| by
      rcases List.mem_cons.mp hd with rfl | hd
      · simp
      · have hletter := List.mem_map_of_mem (f := Prod.snd) hx
        simp [List.mem_singleton.mp hd, hletter]
    exact isPrintable_of_ascii hascii.1 hascii.2
  | code =>
    have hascii := ascii_of_mem (c := d) <| by
      simp only [List.mem_cons, List.mem_append, List.not_mem_nil, or_false] at hd ⊢
      rcases hd with hd | hd | hd | hd | hd
      · simp [hd]
      · simp [hd]
      · simp [hd]
      · exact .inr (mem_hexDigits_of_mem_toDigits hd)
      · simp [hd]
    exact isPrintable_of_ascii hascii.1 hascii.2

/-! ## Texts -/

theorem flatMap_visibleChar_injective :
    Function.Injective fun cs : List Char => cs.flatMap visibleChar := by
  intro cs ds h
  dsimp only at h
  induction cs generalizing ds with
  | nil =>
    cases ds with
    | nil => rfl
    | cons d ds => exact absurd (List.append_eq_nil_iff.mp h.symm).1 (shown_visibleChar d).ne_nil
  | cons c cs ih =>
    cases ds with
    | nil => exact absurd (List.append_eq_nil_iff.mp h).1 (shown_visibleChar c).ne_nil
    | cons d ds =>
      rw [List.flatMap_cons, List.flatMap_cons] at h
      -- what is shown of the first characters cannot be confused
      obtain rfl := (shown_visibleChar c).eq_of_append (shown_visibleChar d) h
      rw [ih (List.append_cancel_left h)]

theorem toList_visibly (s : String) :
    (visibly s).toList = '"' :: (s.toList.flatMap visibleChar ++ ['"']) := by
  simp [visibly]

/-- Texts that look alike are the same. -/
theorem visibly_injective : Function.Injective visibly := by
  intro s t h
  have hchars := congrArg String.toList h
  rw [toList_visibly, toList_visibly] at hchars
  have hshown := List.append_cancel_right (List.cons.inj hchars).2
  exact String.toList_inj.mp (flatMap_visibleChar_injective hshown)

/-- All of a text that is shown can be seen. -/
theorem isPrintable_of_mem_visibly {s : String} {c : Char} (h : c ∈ (visibly s).toList) :
    isPrintable c = true := by
  have hquote : isPrintable '"' = true := isPrintable_of_ascii (by decide) (by decide)
  rw [toList_visibly, List.mem_cons, List.mem_append, List.mem_singleton] at h
  rcases h with rfl | h | rfl
  · exact hquote
  · obtain ⟨d, -, hd⟩ := List.mem_flatMap.mp h
    exact (shown_visibleChar d).isPrintable_of_mem hd
  · exact hquote

end Text

/-! ## Options -/

namespace Options

theorem showOptional_injective : Function.Injective showOptional := by
  intro a b h
  have hchars := congrArg String.toList h
  cases a with
  | none =>
    cases b with
    | none => rfl
    | some y => simp [showOptional] at hchars
  | some x =>
    cases b with
    | none => simp [showOptional] at hchars
    | some y =>
      simp only [showOptional, String.toList_append] at hchars
      have htext := List.append_cancel_left (List.append_cancel_right hchars)
      rw [String.toList_inj.mp htext]

theorem notMem_showOptional {choice : Option String} (h : ∀ text ∈ choice, ',' ∉ text.toList) :
    ',' ∉ (showOptional choice).toList := by
  cases choice with
  | none => decide
  | some text => simp [showOptional, h text rfl]

/-- Three choices in a row, each behind its label; the first two end at commas. -/
def row (first second third last priority change helper : String) : String :=
  first ++ priority ++ ("," ++ second) ++ change ++ ("," ++ third) ++ helper ++ last

theorem row_injective {first second third last p p' c c' h h' : String} (hp : ',' ∉ p.toList)
    (hp' : ',' ∉ p'.toList) (hc : ',' ∉ c.toList) (hc' : ',' ∉ c'.toList)
    (heq : row first second third last p c h = row first second third last p' c' h') :
    p = p' ∧ c = c' ∧ h = h' := by
  have hcomma : ",".toList = [','] := rfl
  have hchars := congrArg String.toList heq
  simp only [row, String.toList_append, List.append_assoc, hcomma, List.cons_append,
    List.nil_append] at hchars
  obtain ⟨hpriority, hrest⟩ := Text.cut_unique hp hp' (List.append_cancel_left hchars)
  obtain ⟨hchange, hrest⟩ := Text.cut_unique hc hc' (List.append_cancel_left hrest)
  have hhelper := List.append_cancel_right (List.append_cancel_left hrest)
  exact ⟨String.toList_inj.mp hpriority, String.toList_inj.mp hchange,
    String.toList_inj.mp hhelper⟩

def shownPriority (o : Options) : String := showOptional (o.priority.map Decimal.int64)

def shownChange (o : Options) : String :=
  showOptional (o.preprocess.map fun _ => Text.visibly "<fn>")

theorem describe_eq_row (o : Options) :
    o.describe =
      row "LoadOptions \x7b default_priority: " " preprocess: " " action_helper: " " \x7d"
        o.shownPriority o.shownChange (Text.visibly o.actionHelper) := rfl

theorem notMem_shownPriority (o : Options) : ',' ∉ o.shownPriority.toList := by
  apply notMem_showOptional
  intro text htext
  obtain ⟨n, -, rfl⟩ := Option.map_eq_some_iff.mp htext
  exact (Directive.notMem_int64 n).1

theorem notMem_shownChange (o : Options) : ',' ∉ o.shownChange.toList := by
  apply notMem_showOptional
  intro text htext
  obtain ⟨change, -, rfl⟩ := Option.map_eq_some_iff.mp htext
  decide +kernel

theorem shownPriority_eq_iff {o o' : Options} :
    o.shownPriority = o'.shownPriority ↔ o.priority = o'.priority := by
  have hint64 : Function.Injective Decimal.int64 := by
    intro m n h
    have hread := Decimal.readInt64?_int64 m
    rw [h, Decimal.readInt64?_int64 n] at hread
    exact (Option.some.inj hread).symm
  rw [shownPriority, shownPriority, showOptional_injective.eq_iff,
    (Option.map_injective hint64).eq_iff]

theorem shownChange_eq_iff {o o' : Options} :
    o.shownChange = o'.shownChange ↔ o.preprocess.isSome = o'.preprocess.isSome := by
  rw [shownChange, shownChange, showOptional_injective.eq_iff]
  cases o.preprocess <;> cases o'.preprocess <;> simp

/-- Of options that look alike only the changes to the modules can differ. -/
theorem describe_eq_iff {o o' : Options} : o.describe = o'.describe ↔
    o.priority = o'.priority ∧ o.preprocess.isSome = o'.preprocess.isSome ∧
      o.actionHelper = o'.actionHelper := by
  rw [describe_eq_row, describe_eq_row, ← shownPriority_eq_iff, ← shownChange_eq_iff]
  constructor
  · intro h
    obtain ⟨hpriority, hchange, hhelper⟩ := row_injective o.notMem_shownPriority
      o'.notMem_shownPriority o.notMem_shownChange o'.notMem_shownChange h
    exact ⟨hpriority, hchange, Text.visibly_injective hhelper⟩
  · rintro ⟨hpriority, hchange, hhelper⟩
    rw [hpriority, hchange, hhelper]

end Options

end ModularGrammar
