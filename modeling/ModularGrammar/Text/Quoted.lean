/-!
# Quoted text

A quoted text stands between two equal quotes; inside it a backslash takes the next character
literally.  `escape` prepares a text for such quotes, `readQuoted` takes a quoted text off the
front of a longer one.
-/

namespace ModularGrammar.Text

/-- The text with a backslash before every backslash and every `quote`. -/
def escapeFor (quote : Char) : List Char → List Char
  | [] => []
  | c :: cs =>
    if c = '\\' ∨ c = quote then '\\' :: c :: escapeFor quote cs else c :: escapeFor quote cs

/-- The string escaped for double quotes. -/
def escape (s : String) : String :=
  String.ofList (escapeFor '"' s.toList)

/-- The string between double quotes. -/
def inQuotes (s : String) : String :=
  "\"" ++ escape s ++ "\""

/-- What stands before the first unescaped `quote`, backslashes resolved, and what follows that
quote.  A backslash does not reach over the end of a line, so a text in which one stands directly
before a line feed has no closing quote. -/
def readQuoted (quote : Char) : List Char → Option (List Char × List Char)
  | [] => none
  | '\\' :: rest =>
    match rest with
    | [] => none
    | c :: rest =>
      if c = '\n' then none
      else (readQuoted quote rest).map fun (inner, after) => (c :: inner, after)
  | c :: rest =>
    if c = quote then some ([], rest)
    else (readQuoted quote rest).map fun (inner, after) => (c :: inner, after)

/-- What follows a quoted text is shorter than what it was taken off. -/
theorem readQuoted_length {quote : Char} {cs inner after : List Char}
    (h : readQuoted quote cs = some (inner, after)) : after.length < cs.length := by
  fun_induction readQuoted quote cs generalizing inner after with
  | case1 => simp at h
  | case2 => simp at h
  | case3 => simp at h
  -- an escaped character, and then a plain one: what is read of the rest is put behind it
  | case4 c rest hc ih =>
    obtain ⟨⟨i, a⟩, hr, heq⟩ := Option.map_eq_some_iff.1 h
    simp only [Prod.mk.injEq] at heq
    obtain ⟨-, rfl⟩ := heq
    have := ih hr
    simp only [List.length_cons]
    omega
  | case5 rest => simp only [Option.some.injEq, Prod.mk.injEq] at h; simp [h.2]
  | case6 c rest _ hc ih =>
    obtain ⟨⟨i, a⟩, hr, heq⟩ := Option.map_eq_some_iff.1 h
    simp only [Prod.mk.injEq] at heq
    obtain ⟨-, rfl⟩ := heq
    have := ih hr
    simp only [List.length_cons]
    omega

end ModularGrammar.Text
