import ModularGrammar.Json.Reader
import ModularGrammar.Proofs.JsonTokens

/-!
# Reading What Is Written

A value that is written is read back, from either layout.  The layouts differ only in their gaps, so
they have the same tokens; the reader, which works with a stack instead of recursion, turns the
tokens of a value into the value whatever containers are open around it.

## Architecture

1. `Plain`: the values that are written in documents
2. `Scanned`: texts and their tokens, put together piece by piece
3. `tokens`: the tokens of a value; `scanned_compactChars`, `scanned_prettyChars`: both layouts
4. `run_tokens`: the reader completes the value
5. `read?_compact`, `read?_pretty`: texts are read back
-/

namespace ModularGrammar.Json

/-! ## Values -/

/-- A value with nothing unreadable in it, in which all numbers are natural and can be held exactly
by a double. -/
inductive Plain : Json → Prop where
  | null : Plain .null
  | bool (b : Bool) : Plain (.bool b)
  | natural {n : Nat} (h : n < Nat.pow 2 53) : Plain (natural n)
  | string (s : String) : Plain (.string s)
  | array {items : List Json} (h : ∀ item ∈ items, Plain item) : Plain (.array items)
  | object {members : List (String × Json)} (h : ∀ member ∈ members, Plain member.2) :
      Plain (.object members)

/-! ## Tokens of a text -/

/-- A text that is scanned as some tokens whatever follows it, if that does not continue a
number. -/
def Scanned (text : List Char) (tokens : List Token) : Prop :=
  ∀ rest after, Numeral.Ends rest → Token.scan rest = some after →
    Token.scan (text ++ rest) = some (tokens ++ after)

namespace Scanned

variable {text more gap : List Char} {tokens others : List Token} {token : Token} {c : Char}

theorem nil : Scanned [] [] := by
  intro rest after _ hafter
  exact hafter

theorem scan (h : Scanned text tokens) : Token.scan text = some tokens := by
  have hempty : Token.scan [] = some [] := by rw [Token.scan]; rfl
  have hscan := h [] [] (by simp [Numeral.Ends]) hempty
  rwa [List.append_nil, List.append_nil] at hscan

/-- A token that can be told by itself. -/
theorem token_append (h : ∀ rest, Token.next? (text ++ rest) = some (token, rest))
    (hmore : Scanned more others) : Scanned (text ++ more) (token :: others) := by
  intro rest after hrest hafter
  rw [List.append_assoc]
  exact Token.scan_of_next? (h _) (hmore rest after hrest hafter)

theorem mark (h : ∀ rest, Token.next? (c :: rest) = some (token, rest))
    (hmore : Scanned more others) : Scanned (c :: more) (token :: others) := by
  rw [← List.singleton_append]
  exact token_append h hmore

theorem single (h : ∀ rest, Token.next? (text ++ rest) = some (token, rest)) :
    Scanned text [token] := by
  have hsingle := token_append h nil
  rwa [List.append_nil] at hsingle

theorem quote_append (s : String) (hmore : Scanned more others) :
    Scanned (quote s ++ more) (.string (some s) :: others) :=
  token_append (Token.next?_quote s) hmore

theorem gap_append (hgap : ∀ c ∈ gap, isGap c = true) (h : Scanned text tokens) :
    Scanned (gap ++ text) tokens := by
  induction gap with
  | nil => exact h
  | cons c gap ih =>
    rw [List.forall_mem_cons] at hgap
    intro rest after hrest hafter
    rw [List.cons_append, List.cons_append, Token.scan_of_isGap hgap.1]
    exact ih hgap.2 rest after hrest hafter

theorem append (h : Scanned text tokens) (hmore : Scanned more others)
    (hends : Numeral.Ends more) : Scanned (text ++ more) (tokens ++ others) := by
  intro rest after hrest hafter
  rw [List.append_assoc, List.append_assoc]
  exact h _ _ (Numeral.ends_append hends hrest) (hmore rest after hrest hafter)

end Scanned

/-! ## Tokens of a value -/

mutual

def tokens : Json → List Token
  | .array [] => [.openArray, .closeArray]
  | .array (item :: items) => .openArray :: (tokens item ++ itemTokens items)
  | .object [] => [.openObject, .closeObject]
  | .object ((key, value) :: members) =>
    .openObject :: .string (some key) :: .colon :: (tokens value ++ memberTokens members)
  | .string s => [.string (some s)]
  | value => [.scalar value]

/-- The tokens of the further items of an array, and of its end. -/
def itemTokens : List Json → List Token
  | [] => [.closeArray]
  | item :: items => .comma :: (tokens item ++ itemTokens items)

/-- The tokens of the further members of an object, and of its end. -/
def memberTokens : List (String × Json) → List Token
  | [] => [.closeObject]
  | (key, value) :: members =>
    .comma :: .string (some key) :: .colon :: (tokens value ++ memberTokens members)

end

/-- Both layouts write a scalar in the same way. -/
theorem scanned_natural {n : Nat} (h : n < Nat.pow 2 53) :
    Scanned (Numeral.ofNat n).text [.scalar (natural n)] := by
  intro rest after hrest hafter
  have htext : (Numeral.ofNat n).text = Decimal.writeNat n := by simp [Numeral.text, Numeral.ofNat]
  rw [htext]
  exact Token.scan_of_next? (Token.next?_writeNat h hrest) hafter

/-! ## Compact layout -/

theorem ends_compactItems (items : List Json) : Numeral.Ends (compactItems items) := by
  cases items <;> exact Numeral.ends_cons.mpr (by decide)

theorem ends_compactMembers (members : List (String × Json)) :
    Numeral.Ends (compactMembers members) := by
  cases members <;> exact Numeral.ends_cons.mpr (by decide)

theorem scanned_compactItems {items : List Json}
    (h : ∀ item ∈ items, Scanned (compactChars item) (tokens item)) :
    Scanned (compactItems items) (itemTokens items) := by
  induction items with
  | nil => exact .mark (fun _ => rfl) .nil
  | cons item items ih =>
    rw [List.forall_mem_cons] at h
    exact .mark (fun _ => rfl) (h.1.append (ih h.2) (ends_compactItems items))

theorem scanned_compactMembers {members : List (String × Json)}
    (h : ∀ member ∈ members, Scanned (compactChars member.2) (tokens member.2)) :
    Scanned (compactMembers members) (memberTokens members) := by
  induction members with
  | nil => exact .mark (fun _ => rfl) .nil
  | cons member members ih =>
    rw [List.forall_mem_cons] at h
    exact .mark (fun _ => rfl) (.quote_append member.1
      (.mark (fun _ => rfl) (h.1.append (ih h.2) (ends_compactMembers members))))

theorem scanned_compactChars {v : Json} (h : Plain v) : Scanned (compactChars v) (tokens v) := by
  induction h with
  | null => exact .single fun _ => rfl
  | bool b => cases b <;> exact .single fun _ => rfl
  | natural hn => exact scanned_natural hn
  | string s => exact .single (Token.next?_quote s)
  -- the first item has no comma before it, so lists are split once more
  | @array items _ ih =>
    cases items with
    | nil => exact .mark (fun _ => rfl) (.mark (fun _ => rfl) .nil)
    | cons item items =>
      rw [List.forall_mem_cons] at ih
      exact .mark (fun _ => rfl)
        (ih.1.append (scanned_compactItems ih.2) (ends_compactItems items))
  | @object members _ ih =>
    cases members with
    | nil => exact .mark (fun _ => rfl) (.mark (fun _ => rfl) .nil)
    | cons member members =>
      rw [List.forall_mem_cons] at ih
      exact .mark (fun _ => rfl) (.quote_append member.1 (.mark (fun _ => rfl)
        (ih.1.append (scanned_compactMembers ih.2) (ends_compactMembers members))))

/-! ## Pretty layout -/

theorem isGap_of_mem_newLine {level : Nat} {c : Char} (h : c ∈ newLine level) :
    isGap c = true := by
  rw [newLine, List.mem_cons] at h
  rcases h with rfl | h
  · rfl
  · rw [List.eq_of_mem_replicate h]
    rfl

/-- A new line is a gap. -/
theorem Scanned.newLine_append (level : Nat) {text : List Char} {tokens : List Token}
    (h : Scanned text tokens) : Scanned (newLine level ++ text) tokens :=
  gap_append (fun _ hc => isGap_of_mem_newLine hc) h

theorem ends_prettyItems (level : Nat) (items : List Json) :
    Numeral.Ends (prettyItems level items) := by
  cases items <;> exact Numeral.ends_cons.mpr (by decide)

theorem ends_prettyMembers (level : Nat) (members : List (String × Json)) :
    Numeral.Ends (prettyMembers level members) := by
  cases members <;> exact Numeral.ends_cons.mpr (by decide)

theorem scanned_prettyItems {level : Nat} {items : List Json}
    (h : ∀ item ∈ items, ∀ l, Scanned (prettyChars l item) (tokens item)) :
    Scanned (prettyItems level items) (itemTokens items) := by
  induction items with
  | nil => exact .newLine_append level (.mark (fun _ => rfl) .nil)
  | cons item items ih =>
    rw [List.forall_mem_cons] at h
    rw [prettyItems, List.append_assoc]
    exact .mark (fun _ => rfl) (.newLine_append (level + 1)
      ((h.1 (level + 1)).append (ih h.2) (ends_prettyItems level items)))

/-- A member of an object, after which other members follow or the object ends. -/
theorem scanned_prettyMember {level : Nat} {member : String × Json} {more : List Char}
    {others : List Token} (h : Scanned (prettyChars (level + 1) member.2) (tokens member.2))
    (hmore : Scanned more others) (hends : Numeral.Ends more) :
    Scanned (newLine (level + 1) ++ quote member.1 ++ [':', ' '] ++
        prettyChars (level + 1) member.2 ++ more)
      (.string (some member.1) :: .colon :: (tokens member.2 ++ others)) := by
  have hspace : ∀ c ∈ [' '], isGap c = true := List.forall_mem_singleton.mpr rfl
  simp only [List.append_assoc]
  exact .newLine_append (level + 1) (.quote_append member.1
    (.mark (fun _ => rfl) (.gap_append hspace (h.append hmore hends))))

theorem scanned_prettyMembers {level : Nat} {members : List (String × Json)}
    (h : ∀ member ∈ members, ∀ l, Scanned (prettyChars l member.2) (tokens member.2)) :
    Scanned (prettyMembers level members) (memberTokens members) := by
  induction members with
  | nil => exact .newLine_append level (.mark (fun _ => rfl) .nil)
  | cons member members ih =>
    rw [List.forall_mem_cons] at h
    exact .mark (fun _ => rfl) (scanned_prettyMember (h.1 (level + 1)) (ih h.2)
      (ends_prettyMembers level members))

theorem scanned_prettyChars {v : Json} (h : Plain v) (level : Nat) :
    Scanned (prettyChars level v) (tokens v) := by
  induction h generalizing level with
  | null => exact .single fun _ => rfl
  | bool b => cases b <;> exact .single fun _ => rfl
  | natural hn => exact scanned_natural hn
  | string s => exact .single (Token.next?_quote s)
  -- the first item has no comma before it, so lists are split once more
  | @array items _ ih =>
    cases items with
    | nil => exact .mark (fun _ => rfl) (.mark (fun _ => rfl) .nil)
    | cons item items =>
      rw [List.forall_mem_cons] at ih
      rw [prettyChars, List.append_assoc]
      exact .mark (fun _ => rfl) (.newLine_append (level + 1)
        ((ih.1 (level + 1)).append (scanned_prettyItems ih.2) (ends_prettyItems level items)))
  | @object members _ ih =>
    cases members with
    | nil => exact .mark (fun _ => rfl) (.mark (fun _ => rfl) .nil)
    | cons member members =>
      rw [List.forall_mem_cons] at ih
      exact .mark (fun _ => rfl) (scanned_prettyMember (ih.1 (level + 1))
        (scanned_prettyMembers ih.2) (ends_prettyMembers level members))

/-! ## Reading tokens -/

theorem mapM_map_eq_some_map {α β γ : Type} {write : α → β} {read : β → Option γ} {value : α → γ}
    {l : List α} (h : ∀ a ∈ l, read (write a) = some (value a)) :
    (l.map write).mapM read = some (l.map value) := by
  induction l with
  | nil => rfl
  | cons a l ih =>
    rw [List.forall_mem_cons] at h
    simp [h.1, ih h.2]

/-- What is written item by item is read item by item. -/
theorem mapM_map_eq_some {α β : Type} {write : α → β} {read : β → Option α} {l : List α}
    (h : ∀ a ∈ l, read (write a) = some a) : (l.map write).mapM read = some l := by
  have hall : (l.map write).mapM read = some (l.map id) := mapM_map_eq_some_map h
  rwa [List.map_id] at hall

section Reading

variable {opened : List Open}

theorem State.run_cons (state : State) (token : Token) (more : List Token) :
    state.run (token :: more) = (state.step token).bind fun next => next.run more := rfl

theorem State.run_append (state : State) (front back : List Token) :
    state.run (front ++ back) = (state.run front).bind fun next => next.run back :=
  List.foldlM_append

/-- A member as the reader keeps it. -/
def named (member : String × Json) : Option String × Json := (some member.1, member.2)

theorem closeObject_map_named (members : List (String × Json)) :
    closeObject (members.map named) = .object members.reverse := by
  have hall : (members.map named).reverse.mapM (fun member => member.1.map (·, member.2)) =
      some members.reverse := by
    rw [← List.map_reverse]
    exact mapM_map_eq_some fun _ _ => rfl
  rw [closeObject, hall]

/-- The tokens of an item that is the first of its array are read as those of any value. -/
theorem run_itemOrEnd (v : Json) :
    State.run ⟨.itemOrEnd, opened⟩ (tokens v) = State.run ⟨.value, opened⟩ (tokens v) := by
  cases v with
  | array items => cases items <;> rfl
  | object members => cases members <;> rfl
  | _ => rfl

theorem run_itemTokens {items : List Json} (done : List Json)
    (h : ∀ item ∈ items, ∀ opened, State.run ⟨.value, opened⟩ (tokens item) =
      some (complete item opened)) :
    State.run ⟨.commaOrEnd, .array done :: opened⟩ (itemTokens items) =
      some (complete (.array (done.reverse ++ items)) opened) := by
  induction items generalizing done with
  | nil =>
    rw [List.append_nil]
    rfl
  | cons item items ih =>
    rw [List.forall_mem_cons] at h
    have hstep : State.step ⟨.commaOrEnd, .array done :: opened⟩ .comma =
        some ⟨.value, .array done :: opened⟩ := rfl
    -- the item joins those that are done, latest first
    have hcomplete : complete item (.array done :: opened) =
        ⟨.commaOrEnd, .array (item :: done) :: opened⟩ := rfl
    rw [itemTokens, State.run_cons, hstep, Option.bind_some, State.run_append, h.1,
      Option.bind_some, hcomplete, ih _ h.2, List.reverse_cons, List.append_assoc,
      List.singleton_append]

/-- A member of an object, of which its name is to come. -/
theorem run_member {awaited : Awaited} {member : String × Json} (done : List (String × Json))
    (more : List Token) (hawaited : awaited = .memberOrEnd ∨ awaited = .member)
    (h : ∀ opened, State.run ⟨.value, opened⟩ (tokens member.2) =
      some (complete member.2 opened)) :
    State.run ⟨awaited, .object (done.map named) :: opened⟩
        (.string (some member.1) :: .colon :: (tokens member.2 ++ more)) =
      State.run ⟨.commaOrEnd, .object ((member :: done).map named) :: opened⟩ more := by
  have hname : State.step ⟨awaited, .object (done.map named) :: opened⟩
      (.string (some member.1)) =
        some ⟨.colon (some member.1), .object (done.map named) :: opened⟩ := by
    rcases hawaited with rfl | rfl <;> rfl
  have hcolon : State.step ⟨.colon (some member.1), .object (done.map named) :: opened⟩ .colon =
      some ⟨.value, .member (done.map named) (some member.1) :: opened⟩ := rfl
  rw [State.run_cons, hname, Option.bind_some, State.run_cons, hcolon, Option.bind_some,
    State.run_append, h, Option.bind_some]
  rfl

theorem run_memberTokens {members : List (String × Json)} (done : List (String × Json))
    (h : ∀ member ∈ members, ∀ opened, State.run ⟨.value, opened⟩ (tokens member.2) =
      some (complete member.2 opened)) :
    State.run ⟨.commaOrEnd, .object (done.map named) :: opened⟩ (memberTokens members) =
      some (complete (.object (done.reverse ++ members)) opened) := by
  induction members generalizing done with
  | nil =>
    rw [List.append_nil, ← closeObject_map_named]
    rfl
  | cons member members ih =>
    rw [List.forall_mem_cons] at h
    have hstep : State.step ⟨.commaOrEnd, .object (done.map named) :: opened⟩ .comma =
        some ⟨.member, .object (done.map named) :: opened⟩ := rfl
    rw [memberTokens, State.run_cons, hstep, Option.bind_some, run_member _ _ (.inr rfl) h.1,
      ih _ h.2, List.reverse_cons, List.append_assoc, List.singleton_append]

/-- The tokens of a value complete the value, whatever containers are open. -/
theorem run_tokens {v : Json} (h : Plain v) (opened : List Open) :
    State.run ⟨.value, opened⟩ (tokens v) = some (complete v opened) := by
  induction h generalizing opened with
  | null | bool _ | natural _ | string _ => rfl
  | @array items _ ih =>
    have hopen : State.step ⟨.value, opened⟩ .openArray =
        some ⟨.itemOrEnd, .array [] :: opened⟩ := rfl
    cases items with
    | nil => rfl
    | cons item items =>
      -- the first item follows the bracket, the others a comma each
      rw [List.forall_mem_cons] at ih
      have hcomplete : complete item (.array [] :: opened) =
          ⟨.commaOrEnd, .array [item] :: opened⟩ := rfl
      rw [tokens, State.run_cons, hopen, Option.bind_some, State.run_append, run_itemOrEnd, ih.1,
        Option.bind_some, hcomplete, run_itemTokens [item] ih.2]
      rfl
  | @object members _ ih =>
    have hopen : State.step ⟨.value, opened⟩ .openObject =
        some ⟨.memberOrEnd, .object [] :: opened⟩ := rfl
    cases members with
    | nil => rfl
    | cons member members =>
      rw [List.forall_mem_cons] at ih
      have hmember : State.run ⟨.memberOrEnd, .object [] :: opened⟩ _ = _ :=
        run_member [] (memberTokens members) (.inl rfl) ih.1
      rw [tokens, State.run_cons, hopen, Option.bind_some, hmember, run_memberTokens [member] ih.2]
      rfl

end Reading

/-! ## Texts -/

section Texts

variable {v : Json}

theorem readChars?_of_scan {text : List Char} (h : Plain v)
    (htext : Token.scan text = some (tokens v)) : readChars? text = some v := by
  have hrun : State.start.run (tokens v) = some (complete v []) := run_tokens h []
  simp only [readChars?, htext, hrun, bind, Option.bind_some]
  rfl

/-- What is written without gaps is read back. -/
theorem read?_compact (h : Plain v) : read? v.compact = some v := by
  rw [read?, compact, String.toList_ofList]
  exact readChars?_of_scan h (scanned_compactChars h).scan

/-- What is written with one item a line and a final new line is read back. -/
theorem read?_pretty (h : Plain v) : read? (v.pretty ++ "\n") = some v := by
  have hgap : ∀ c ∈ ['\n'], isGap c = true := List.forall_mem_singleton.mpr rfl
  have hnewline : Scanned ['\n'] [] := .gap_append hgap .nil
  have htext := ((scanned_prettyChars h 0).append hnewline (Numeral.ends_cons.mpr (by decide))).scan
  rw [List.append_nil] at htext
  rw [read?, pretty, String.toList_append, String.toList_ofList]
  exact readChars?_of_scan h htext

end Texts

end ModularGrammar.Json
