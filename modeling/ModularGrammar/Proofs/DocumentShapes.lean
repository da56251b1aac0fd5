import ModularGrammar.Proofs.DocumentRoundTrip

/-!
# The Shapes of Alternatives and Lexer Rules

An alternative is written in one of five shapes, and a lexer rule in one of two.  A value has at
most one of them, so it does not matter in which order the shapes are tried, and it is accepted
exactly if it has one.  What is written has the shape it was written in.

## Architecture

1. `Readable`: the values that have room in a document if there are levels enough
2. `Unambiguous`: what it means that shapes are told apart
3. `Alternative.HasShape`: the five shapes, and precedence overrides in either of their spellings
4. `LexicalRule.HasShape`: the two shapes
5. `shapes_unambiguous`: both kinds of documents
-/

namespace ModularGrammar

open Json

namespace Json

/-! ## Values with room in a document -/

/-- A value with nothing unreadable in it. -/
inductive Readable : Json → Prop where
  | null : Readable .null
  | bool (b : Bool) : Readable (.bool b)
  | number (n : Numeral) : Readable (.number n)
  | string (s : String) : Readable (.string s)
  | array {items : List Json} (h : ∀ item ∈ items, Readable item) : Readable (.array items)
  | object {members : List (String × Json)} (h : ∀ member ∈ members, Readable member.2) :
      Readable (.object members)

/-- More levels do no harm. -/
theorem fits_of_le {levels more : Nat} {v : Json} (hle : levels ≤ more)
    (h : v.fits levels = true) : v.fits more = true := by
  -- every array and every object takes one level, so the induction is on the levels
  induction levels generalizing more v with
  | zero => cases v <;> cases more <;> simp_all [fits]
  | succ levels ih =>
    obtain ⟨more, rfl⟩ := Nat.exists_eq_add_of_le' (Nat.le_trans (Nat.succ_pos levels) hle)
    have hle' : levels ≤ more := Nat.le_of_succ_le_succ hle
    cases v with
    | array items =>
      simp only [fits, List.all_eq_true] at h ⊢
      exact fun item hitem => ih hle' (h item hitem)
    | object members =>
      simp only [fits, List.all_eq_true] at h ⊢
      exact fun member hmember => ih hle' (h member hmember)
    | unreadable => cases h
    | _ => rfl

/-- If every value of a list has room below some level, there is a level for all of them. -/
theorem exists_levels {values : List Json} (h : ∀ v ∈ values, ∃ levels, v.fits levels = true) :
    ∃ levels, ∀ v ∈ values, v.fits levels = true := by
  induction values with
  | nil => exact ⟨0, nofun⟩
  | cons v values ih =>
    rw [List.forall_mem_cons] at h
    obtain ⟨first, hfirst⟩ := h.1
    obtain ⟨levels, hlevels⟩ := ih h.2
    refine ⟨max first levels, List.forall_mem_cons.mpr ⟨?_, fun w hw => ?_⟩⟩
    · exact fits_of_le (Nat.le_max_left _ _) hfirst
    · exact fits_of_le (Nat.le_max_right _ _) (hlevels w hw)

theorem Readable.exists_fits {v : Json} (h : Readable v) : ∃ levels, v.fits levels = true := by
  induction h with
  | array _ ih =>
    -- the container needs one level more than its deepest part
    obtain ⟨levels, hlevels⟩ := exists_levels ih
    exact ⟨levels + 1, List.all_eq_true.mpr hlevels⟩
  | @object members _ ih =>
    have hvalues : ∀ v ∈ members.map Prod.snd, ∃ levels, v.fits levels = true := by
      intro v hv
      obtain ⟨member, hmember, rfl⟩ := List.mem_map.mp hv
      exact ih member hmember
    obtain ⟨levels, hlevels⟩ := exists_levels hvalues
    refine ⟨levels + 1, List.all_eq_true.mpr fun member hmember => ?_⟩
    exact hlevels _ (List.mem_map_of_mem hmember)
  | _ => exact ⟨0, rfl⟩

/-! ## Members and texts -/

theorem text?_eq_some_iff {v : Json} {s : String} : text? v = some s ↔ v = .string s := by
  cases v <;> simp [text?]

theorem required_eq_some_iff {α : Type} {read : Json → Option α} {field : Option Json} {a : α} :
    required read field = some a ↔ ∃ v, field = some v ∧ read v = some a := by
  cases field <;> simp [required]

/-- A member is found if no other one has its name. -/
theorem member?_eq_some_some_iff {members : List (String × Json)} {name : String} {v : Json} :
    member? members name = some (some v) ↔ ∃ before after,
      members = before ++ (name, v) :: after ∧ (∀ member ∈ before, member.1 ≠ name) ∧
        ∀ member ∈ after, member.1 ≠ name := by
  -- the look-up is by the list of all members with the name, which has to have one element
  have hfilter : member? members name = some (some v) ↔
      members.filter (fun member => member.1 = name) = [(name, v)] := by
    unfold member?
    split
    · next h => simp [h]
    · next member h =>
      have hname : member.1 = name := by
        have hmem : member ∈ members.filter fun member => member.1 = name := by simp [h]
        simpa using (List.mem_filter.mp hmem).2
      rw [h]
      simp [Prod.ext_iff, hname]
    · next hnil hone =>
      constructor
      · intro h
        cases h
      · intro h
        exact absurd h (hone _)
  rw [hfilter, List.filter_eq_cons_iff]
  simp only [List.filter_eq_nil_iff, decide_eq_true_eq, true_and, ne_eq]

theorem mapM_text?_eq_some_iff {items : List Json} {l : List String} :
    items.mapM text? = some l ↔ items = l.map .string := by
  constructor
  · intro h
    induction items generalizing l with
    | nil =>
      cases h
      rfl
    | cons item items ih =>
      -- every item must be read, the first one and then the others
      rw [List.mapM_cons] at h
      obtain ⟨s, hs, h⟩ := Option.bind_eq_some_iff.mp h
      obtain ⟨l, hl, h⟩ := Option.bind_eq_some_iff.mp h
      cases h
      rw [List.map_cons, text?_eq_some_iff.mp hs, ih hl]
  · rintro rfl
    exact list?_texts l

/-- What is read as a list of strings is an array of strings and nothing else. -/
theorem list?_text?_eq_some_iff {v : Json} {l : List String} :
    list? text? v = some l ↔ v = texts l := by
  cases v with
  | array items => rw [list?, mapM_text?_eq_some_iff, texts, Json.array.injEq]
  | _ => simp [list?, texts]

/-! ## Shapes -/

/-- Parts of documents that come in several shapes, and what is read whatever the shape is. -/
structure Unambiguous {Shape α : Type} (HasShape : Shape → Json → α → Prop)
    (read? : Shape → Json → Option α) (ofShape? : Json → Option α)
    (ofJson? : Nat → Json → Option α) (toJson : α → Json) (written : α → Shape) : Prop where
  /-- A value has at most one shape, and stands for one thing only. -/
  unique : ∀ {s s' v a a'}, HasShape s v a → HasShape s' v a' → s = s' ∧ a = a'
  /-- Each shape is read by itself. -/
  read?_iff : ∀ s v a, read? s v = some a ↔ HasShape s v a
  /-- The shapes may be tried in any order. -/
  anyOrder : ∀ order : List Shape, (∀ s, s ∈ order) →
    ∀ v, order.findSome? (fun s => read? s v) = ofShape? v
  /-- A value is accepted exactly if it has a shape. -/
  accepted : ∀ v a, ofShape? v = some a ↔ ∃ s, HasShape s v a
  /-- In a document there has to be room for it, which some number of levels gives. -/
  acceptedIn : ∀ levels v a, ofJson? levels v = some a ↔
    v.fits levels = true ∧ ∃ s, HasShape s v a
  room : ∀ v, Readable v → ∃ levels, ∀ more ≥ levels,
    ∀ a, ofJson? more v = some a ↔ ∃ s, HasShape s v a
  /-- What is written has the shape it was written in. -/
  hasShape_toJson : ∀ a, HasShape (written a) (toJson a) a

/-- If all results that there are agree, it does not matter in which order they are looked for. -/
theorem findSome?_eq_some_iff_exists {ι α : Type} {read : ι → Option α}
    (hagree : ∀ i j a b, read i = some a → read j = some b → a = b) {order : List ι}
    (horder : ∀ i, i ∈ order) {a : α} : order.findSome? read = some a ↔ ∃ i, read i = some a := by
  constructor
  · intro h
    obtain ⟨i, -, hi⟩ := List.exists_of_findSome?_eq_some h
    exact ⟨i, hi⟩
  · rintro ⟨i, hi⟩
    have hsome : (order.findSome? read).isSome = true := by
      rw [List.findSome?_isSome_iff]
      exact ⟨i, horder i, Option.isSome_of_eq_some hi⟩
    obtain ⟨b, hb⟩ := Option.isSome_iff_exists.mp hsome
    obtain ⟨j, -, hj⟩ := List.exists_of_findSome?_eq_some hb
    rw [hb, hagree j i b a hj hi]

/-- Shapes are told apart if a value has one only and each is read by itself. -/
theorem Unambiguous.of_unique {Shape α : Type} {HasShape : Shape → Json → α → Prop}
    {read? : Shape → Json → Option α} {ofShape? : Json → Option α}
    {ofJson? : Nat → Json → Option α} {toJson : α → Json} {written : α → Shape}
    (hunique : ∀ {s s' v a a'}, HasShape s v a → HasShape s' v a' → s = s' ∧ a = a')
    (hread : ∀ s v a, read? s v = some a ↔ HasShape s v a)
    (haccepted : ∀ v a, ofShape? v = some a ↔ ∃ s, HasShape s v a)
    (hroom : ∀ levels v, ofJson? levels v = if v.fits levels then ofShape? v else none)
    (hwritten : ∀ a, HasShape (written a) (toJson a) a) :
    Unambiguous HasShape read? ofShape? ofJson? toJson written where
  unique := hunique
  read?_iff := hread
  anyOrder := by
    intro order horder v
    -- whatever order the shapes are tried in, no two of them read different things
    have hagree : ∀ s s' a a', read? s v = some a → read? s' v = some a' → a = a' := by
      intro s s' a a' hs hs'
      exact (hunique ((hread s v a).mp hs) ((hread s' v a').mp hs')).2
    apply Option.ext
    intro a
    rw [findSome?_eq_some_iff_exists hagree horder, haccepted]
    exact exists_congr fun s => hread s v a
  accepted := haccepted
  acceptedIn := by
    intro levels v a
    rw [hroom, Option.ite_none_right_eq_some, haccepted]
  room := by
    intro v hv
    -- a readable value has room within some number of levels, and then within more
    obtain ⟨levels, hlevels⟩ := hv.exists_fits
    refine ⟨levels, fun more hmore a => ?_⟩
    rw [hroom, if_pos (fits_of_le hmore hlevels), haccepted]
  hasShape_toJson := hwritten

end Json

/-! ## Alternatives -/

namespace Alternative

/-- A value that says which token the precedence is taken from: an object with one member `prec`,
whatever else is in it, or an array of nothing but the token. -/
inductive IsOverride (token : String) : Json → Prop where
  | object {before after : List (String × Json)} (hbefore : ∀ member ∈ before, member.1 ≠ "prec")
      (hafter : ∀ member ∈ after, member.1 ≠ "prec") :
      IsOverride token (.object (before ++ ("prec", .string token) :: after))
  | array : IsOverride token (.array [.string token])

/-- The shapes of an alternative. -/
inductive Shape where
  | bare
  | single
  | withAction
  | withPrecedence
  | full
deriving DecidableEq, Repr

/-- The alternative for which a value of the shape stands. -/
inductive HasShape : Shape → Json → Alternative → Prop where
  | bare (symbols : String) : HasShape .bare (.string symbols) ⟨symbols, none, none⟩
  | single (symbols : String) : HasShape .single (.array [.string symbols]) ⟨symbols, none, none⟩
  | withAction (symbols action : String) :
      HasShape .withAction (.array [.string symbols, .string action]) ⟨symbols, some action, none⟩
  | withPrecedence (symbols : String) {token : String} {value : Json}
      (h : IsOverride token value) :
      HasShape .withPrecedence (.array [.string symbols, value]) ⟨symbols, none, some token⟩
  | full (symbols action : String) {token : String} {value : Json} (h : IsOverride token value) :
      HasShape .full (.array [.string symbols, .string action, value])
        ⟨symbols, some action, some token⟩

/-- Reads a value of the shape. -/
def Shape.read? : Shape → Json → Option Alternative
  | .bare, .string symbols => some { symbols }
  | .single, .array [.string symbols] => some { symbols }
  | .withAction, .array [.string symbols, .string action] =>
    some { symbols, action := some action }
  | .withPrecedence, .array [.string symbols, value] =>
    (overrideToken? value).map fun token => { symbols, precedence := some token }
  | .full, .array [.string symbols, .string action, value] =>
    (overrideToken? value).map fun token =>
      { symbols, action := some action, precedence := some token }
  | _, _ => none

/-- The shape in which an alternative is written. -/
def shape (a : Alternative) : Shape :=
  match a.action, a.precedence with
  | none, none => .bare
  | some _, none => .withAction
  | none, some _ => .withPrecedence
  | some _, some _ => .full

section Shapes

variable {s s' : Shape} {v : Json} {a a' : Alternative} {token : String}

theorem overrideToken?_object (members : List (String × Json)) :
    overrideToken? (.object members) = (member? members "prec").bind (required text?) := by
  simp only [overrideToken?, fields?, List.mapM_cons, List.mapM_nil, pure, bind, Option.bind_some]
  cases member? members "prec" <;> rfl

theorem overrideToken?_eq_some_iff : overrideToken? v = some token ↔ IsOverride token v := by
  constructor
  · intro h
    cases v with
    | object members =>
      rw [overrideToken?_object] at h
      obtain ⟨field, hfield, htoken⟩ := Option.bind_eq_some_iff.mp h
      obtain ⟨value, rfl, htext⟩ := required_eq_some_iff.mp htoken
      -- there is one member `prec`, whatever stands before and after it
      obtain ⟨before, after, rfl, hbefore, hafter⟩ := member?_eq_some_some_iff.mp hfield
      rw [text?_eq_some_iff.mp htext]
      exact .object hbefore hafter
    | array items =>
      match items with
      | [] => cases h
      | [value] =>
        rw [text?_eq_some_iff.mp h]
        exact .array
      | _ :: _ :: _ => cases h
    | _ => cases h
  · intro h
    cases h with
    | @object before after hbefore hafter =>
      have hmember : member? (before ++ ("prec", .string token) :: after) "prec" =
          some (some (.string token)) :=
        member?_eq_some_some_iff.mpr ⟨before, after, rfl, hbefore, hafter⟩
      rw [overrideToken?_object, hmember]
      rfl
    | array => rfl

theorem isOverride_override (token : String) : IsOverride token (override token) :=
  @IsOverride.object token [] [] nofun nofun

theorem read?_eq_some_iff : s.read? v = some a ↔ HasShape s v a := by
  constructor
  · intro h
    unfold Shape.read? at h
    split at h
    · cases h
      exact .bare _
    · cases h
      exact .single _
    · cases h
      exact .withAction _ _
    · obtain ⟨token, htoken, rfl⟩ := Option.map_eq_some_iff.mp h
      exact .withPrecedence _ (overrideToken?_eq_some_iff.mp htoken)
    · obtain ⟨token, htoken, rfl⟩ := Option.map_eq_some_iff.mp h
      exact .full _ _ (overrideToken?_eq_some_iff.mp htoken)
    · cases h
  · intro h
    cases h with
    | bare | single | withAction => rfl
    | withPrecedence symbols hvalue | full symbols action hvalue =>
      rw [Shape.read?, overrideToken?_eq_some_iff.mpr hvalue]
      rfl

theorem ofShape?_eq_some_iff : ofShape? v = some a ↔ ∃ s, HasShape s v a := by
  constructor
  · intro h
    unfold ofShape? at h
    split at h
    · cases h
      exact ⟨.bare, .bare _⟩
    · cases h
      exact ⟨.single, .single _⟩
    · cases h
      exact ⟨.withAction, .withAction _ _⟩
    · obtain ⟨token, htoken, rfl⟩ := Option.map_eq_some_iff.mp h
      exact ⟨.withPrecedence, .withPrecedence _ (overrideToken?_eq_some_iff.mp htoken)⟩
    · obtain ⟨token, htoken, rfl⟩ := Option.map_eq_some_iff.mp h
      exact ⟨.full, .full _ _ (overrideToken?_eq_some_iff.mp htoken)⟩
    · cases h
  · rintro ⟨s, h⟩
    cases h with
    | bare | single | withAction => rfl
    | withPrecedence symbols hvalue =>
      have htoken := overrideToken?_eq_some_iff.mpr hvalue
      -- no string is an override, so the value is not taken for an action
      cases hvalue <;> simp [ofShape?, htoken]
    | full symbols action hvalue =>
      rw [ofShape?, overrideToken?_eq_some_iff.mpr hvalue]
      rfl

theorem HasShape.unique (h : HasShape s v a) (h' : HasShape s' v a') : s = s' ∧ a = a' := by
  have ha : some a = some a' := by
    rw [← ofShape?_eq_some_iff.mpr ⟨s, h⟩, ofShape?_eq_some_iff.mpr ⟨s', h'⟩]
  refine ⟨?_, Option.some.inj ha⟩
  -- the lengths differ, except where a string and an override stand in the same place
  cases h with
  | bare => cases h'; rfl
  | single => cases h'; rfl
  | withAction =>
    cases h' with
    | withAction => rfl
    | withPrecedence _ hvalue => cases hvalue
  | withPrecedence _ hvalue =>
    cases h' with
    | withAction => cases hvalue
    | withPrecedence => rfl
  | full => cases h'; rfl

theorem hasShape_toJson (a : Alternative) : HasShape a.shape a.toJson a := by
  obtain ⟨symbols, action, precedence⟩ := a
  cases action with
  | none =>
    cases precedence with
    | none => exact .bare symbols
    | some token => exact .withPrecedence symbols (isOverride_override token)
  | some action =>
    cases precedence with
    | none => exact .withAction symbols action
    | some token => exact .full symbols action (isOverride_override token)

end Shapes

end Alternative

/-! ## Lexer rules -/

namespace LexicalRule

/-- The shapes of a lexer rule. -/
inductive Shape where
  | plain
  | conditional
deriving DecidableEq, Repr

/-- The lexer rule for which a value of the shape stands. -/
inductive HasShape : Shape → Json → LexicalRule → Prop where
  | plain (pattern action : String) :
      HasShape .plain (.array [.string pattern, .string action]) ⟨none, pattern, action⟩
  | conditional (conditions : List String) (pattern action : String) :
      HasShape .conditional (.array [texts conditions, .string pattern, .string action])
        ⟨some conditions, pattern, action⟩

/-- Reads a value of the shape. -/
def Shape.read? : Shape → Json → Option LexicalRule
  | .plain, .array [.string pattern, .string action] => some ⟨none, pattern, action⟩
  | .conditional, .array [conditions, .string pattern, .string action] =>
    (list? text? conditions).map fun conditions => ⟨some conditions, pattern, action⟩
  | _, _ => none

/-- The shape in which a lexer rule is written. -/
def shape (rule : LexicalRule) : Shape :=
  match rule.conditions with
  | none => .plain
  | some _ => .conditional

section Shapes

variable {s s' : Shape} {v : Json} {rule rule' : LexicalRule}

theorem read?_eq_some_iff : s.read? v = some rule ↔ HasShape s v rule := by
  constructor
  · intro h
    unfold Shape.read? at h
    split at h
    · cases h
      exact .plain _ _
    · obtain ⟨conditions, hconditions, rfl⟩ := Option.map_eq_some_iff.mp h
      rw [list?_text?_eq_some_iff.mp hconditions]
      exact .conditional _ _ _
    · cases h
  · intro h
    cases h with
    | plain => rfl
    | conditional conditions pattern action =>
      rw [Shape.read?, list?_texts]
      rfl

theorem ofShape?_eq_some_iff : ofShape? v = some rule ↔ ∃ s, HasShape s v rule := by
  constructor
  · intro h
    unfold ofShape? at h
    split at h
    · cases h
      exact ⟨.plain, .plain _ _⟩
    · obtain ⟨conditions, hconditions, rfl⟩ := Option.map_eq_some_iff.mp h
      rw [list?_text?_eq_some_iff.mp hconditions]
      exact ⟨.conditional, .conditional _ _ _⟩
    · cases h
  · rintro ⟨s, h⟩
    cases h with
    | plain => rfl
    | conditional conditions pattern action =>
      rw [ofShape?, list?_texts]
      rfl

/-- The two shapes differ in their length. -/
theorem HasShape.unique (h : HasShape s v rule) (h' : HasShape s' v rule') :
    s = s' ∧ rule = rule' := by
  have hrule : some rule = some rule' := by
    rw [← ofShape?_eq_some_iff.mpr ⟨s, h⟩, ofShape?_eq_some_iff.mpr ⟨s', h'⟩]
  refine ⟨?_, Option.some.inj hrule⟩
  cases h with
  | plain => cases h'; rfl
  | conditional conditions pattern action =>
    generalize hv : Json.array [texts conditions, .string pattern, .string action] = v at h'
    cases h' with
    | plain => cases hv
    | conditional => rfl

theorem hasShape_toJson (rule : LexicalRule) : HasShape rule.shape rule.toJson rule := by
  obtain ⟨conditions, pattern, action⟩ := rule
  cases conditions with
  | none => exact .plain pattern action
  | some conditions => exact .conditional conditions pattern action

end Shapes

end LexicalRule

/-- Alternatives and lexer rules are told apart by their shapes: a value has at most one of them and
stands for one thing, whatever the order in which they are tried; it is accepted exactly if it has
one; and what is written has the shape it was written in.  The symbols alone are read alike in an
array and without it. -/
theorem shapes_unambiguous :
    Unambiguous Alternative.HasShape Alternative.Shape.read? Alternative.ofShape?
      Alternative.ofJson? Alternative.toJson Alternative.shape ∧
    Unambiguous LexicalRule.HasShape LexicalRule.Shape.read? LexicalRule.ofShape?
      LexicalRule.ofJson? LexicalRule.toJson LexicalRule.shape ∧
    ∀ levels symbols, Alternative.ofJson? (levels + 1) (.array [.string symbols]) =
      Alternative.ofJson? levels (.string symbols) := by
  refine ⟨?alternatives, ?rules, ?single⟩
  case alternatives =>
    apply Unambiguous.of_unique
    · exact Alternative.HasShape.unique
    · exact fun s v a => Alternative.read?_eq_some_iff
    · exact fun v a => Alternative.ofShape?_eq_some_iff
    · exact fun levels v => rfl
    · exact Alternative.hasShape_toJson
  case rules =>
    apply Unambiguous.of_unique
    · exact LexicalRule.HasShape.unique
    · exact fun s v rule => LexicalRule.read?_eq_some_iff
    · exact fun v rule => LexicalRule.ofShape?_eq_some_iff
    · exact fun levels v => rfl
    · exact LexicalRule.hasShape_toJson
  case single =>
    intro levels symbols
    -- a list of one text has room wherever the text has
    cases levels <;> rfl

/-- Other members of an override are passed over, but the token must not be named twice. -/
example :
    Alternative.ofShape? (.array [.string "e", .object [("x", .null), ("prec", .string "T")]]) =
      some ⟨"e", none, some "T"⟩ ∧
    Alternative.ofShape? (.array [.string "e", .object [("prec", .string "T"), ("prec", .null)]]) =
      none := by
  decide

end ModularGrammar
