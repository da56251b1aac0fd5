import Mathlib.Data.List.Chain
import Mathlib.Data.Set.Function
import ModularGrammar.Proofs.LinkOutcome
import ModularGrammar.Proofs.NamingRun

/-!
# Unique Decoding of Qualified Names

A qualifier ends in two underscores and nothing marks where the name behind it begins.  If no path
has two underscores side by side or one at its end, the first two underscores of a qualified name
are those that end its qualifier, so the name tells which path it belongs to and what stands behind
the qualifier, whatever that is.  Modules with such paths never collide.

## Architecture

1. `Sparse`: texts in which the end of a qualifier cannot be found too early
2. `sparse_body`: all that stands before the ending of a candidate is sparse
3. `eq_of_qualified_eq`: qualified names decode uniquely
4. `distinct_of_decodable`: names that decode uniquely stay apart in a link
5. `sparse_paths_never_collide`: both for sparse paths
-/

namespace ModularGrammar

namespace Naming

/-! ## Sparse texts -/

/-- No two underscores stand side by side, and the last character is none. -/
structure Sparse (cs : List Char) : Prop where
  apart : cs.IsChain fun a b => ¬ (a = '_' ∧ b = '_')
  last : cs.getLast? ≠ some '_'

instance (cs : List Char) : Decidable (Sparse cs) :=
  decidable_of_iff
    ((cs.IsChain fun a b => ¬ (a = '_' ∧ b = '_')) ∧ cs.getLast? ≠ some '_')
    ⟨fun h => ⟨h.1, h.2⟩, fun h => ⟨h.apart, h.last⟩⟩

section Sparse

variable {cs front part rest more : List Char}

/-- Replacing characters other than underscores by characters other than underscores keeps a text
sparse. -/
theorem Sparse.map (hcs : Sparse cs) {f : Char → Char} (hf : ∀ c, f c = '_' → c = '_') :
    Sparse (cs.map f) where
  apart := by
    rw [List.isChain_map]
    exact hcs.apart.imp fun a b hab h => hab ⟨hf a h.1, hf b h.2⟩
  last := by
    intro hlast
    rw [List.getLast?_map] at hlast
    obtain ⟨c, hc, hunderscore⟩ := Option.map_eq_some_iff.mp hlast
    rw [hf c hunderscore] at hc
    exact hcs.last hc

/-- A sparse text stays sparse when characters other than underscores follow. -/
theorem Sparse.append (hfront : Sparse front) (hrest : '_' ∉ rest) : Sparse (front ++ rest) where
  apart := by
    rw [List.isChain_append]
    refine ⟨hfront.apart, ?_, ?_⟩
    · apply List.Pairwise.isChain
      exact List.pairwise_of_forall_mem_list fun a ha b _ h => hrest (h.1 ▸ ha)
    · -- at the seam, the first part does not end in an underscore
      intro a ha b _ h
      rw [h.1] at ha
      exact hfront.last ha
  last := by
    intro hlast
    rw [List.getLast?_append, Option.or_eq_some_iff] at hlast
    rcases hlast with hrest' | ⟨-, hfront'⟩
    · exact hrest (List.mem_of_getLast? hrest')
    · exact hfront.last hfront'

/-- The two underscores behind a sparse text are the first two. -/
theorem Sparse.part_eq_nil (h : Sparse (front ++ part))
    (heq : '_' :: '_' :: rest = part ++ '_' :: '_' :: more) : part = [] := by
  match part with
  | [] => rfl
  | [c] =>
    -- the text would end in an underscore
    cases heq
    exact absurd (by simp) h.last
  | c :: d :: part =>
    -- there would be two underscores within the text
    cases heq
    have hpair := (List.isChain_append.mp h.apart).2.1
    exact absurd ⟨rfl, rfl⟩ (List.isChain_cons_cons.mp hpair).1

/-- Two underscores behind a sparse text part it from what follows in one way only. -/
theorem Sparse.append_inj {other : List Char} (hfront : Sparse front) (hother : Sparse other)
    (h : front ++ '_' :: '_' :: rest = other ++ '_' :: '_' :: more) :
    front = other ∧ rest = more := by
  rcases List.append_eq_append_iff.mp h with ⟨part, rfl, hrest⟩ | ⟨part, rfl, hmore⟩
  · obtain rfl := hother.part_eq_nil hrest
    simpa using hrest
  · obtain rfl := hfront.part_eq_nil hmore
    simpa [eq_comm] using hmore

end Sparse

/-! ## Candidates -/

/-- What stands before the two underscores that end a candidate. -/
def body (stem : String) : Nat → List Char
  | 0 => stem.toList
  | n + 1 => stem.toList ++ '$' :: Decimal.writeNat (n + 1)

theorem toList_candidate (stem : String) (k : Nat) :
    (candidate stem k).toList = body stem k ++ ['_', '_'] := by
  cases k <;> simp [candidate, body]

theorem sparse_stem {path : String} (h : Sparse path.toList) : Sparse (stem path).toList := by
  rw [stem, String.toList_ofList]
  apply h.map
  intro c hc
  split at hc
  · exact hc
  · exact absurd hc (by decide)

theorem sparse_body {path : String} (h : Sparse path.toList) (k : Nat) :
    Sparse (body (stem path) k) := by
  cases k with
  | zero => exact sparse_stem h
  | succ n =>
    apply (sparse_stem h).append
    have hdigits : '_' ∉ Decimal.writeNat (n + 1) := by
      intro hmem
      have hdigit : ('_').isDigit = true :=
        Nat.isDigit_of_mem_toDigits (by decide) (by decide) hmem
      exact absurd hdigit (by decide)
    simp [hdigits]

/-- A candidate of a sparse path can be told from the name behind it. -/
theorem candidate_append_inj {path other name name' : String} {j k : Nat}
    (hpath : Sparse path.toList) (hother : Sparse other.toList)
    (h : candidate (stem path) j ++ name = candidate (stem other) k ++ name') :
    candidate (stem path) j = candidate (stem other) k ∧ name = name' := by
  have hchars := congrArg String.toList h
  simp only [String.toList_append, toList_candidate, List.append_assoc, List.cons_append,
    List.nil_append] at hchars
  obtain ⟨hbody, hname⟩ := (sparse_body hpath j).append_inj (sparse_body hother k) hchars
  constructor
  · apply String.toList_inj.mp
    rw [toList_candidate, toList_candidate, hbody]
  · exact String.toList_inj.mp hname

/-! ## Qualified names -/

/-- In a naming, qualified names of sparse paths decode uniquely. -/
theorem Valid.eq_of_qualified_eq {naming : Naming} (hvalid : naming.Valid)
    {path other name name' : String} (hpath : path ∈ naming.assigned.keys)
    (hother : other ∈ naming.assigned.keys) (hsparse : Sparse path.toList)
    (hsparse' : Sparse other.toList)
    (h : (naming.qualifierFor path).1 ++ name = (naming.qualifierFor other).1 ++ name') :
    path = other ∧ name = name' := by
  obtain ⟨q, hq⟩ := Table.mem_keys_iff.mp hpath
  obtain ⟨q', hq'⟩ := Table.mem_keys_iff.mp hother
  rw [qualifierFor_of_get? hq, qualifierFor_of_get? hq'] at h
  obtain ⟨j, rfl⟩ := hvalid.formed path q hq
  obtain ⟨k, rfl⟩ := hvalid.formed other q' hq'
  obtain ⟨hqualifier, hname⟩ := candidate_append_inj hsparse hsparse' h
  rw [hqualifier] at hq
  exact ⟨hvalid.path_eq hq hq', hname⟩

/-- Every path of a request has a qualifier after a run. -/
theorem mem_keys_serveAll {requests : List Request} {path : String} (naming : Naming)
    (h : path ∈ requests.flatMap Request.paths) :
    path ∈ (naming.serveAll requests).assigned.keys := by
  induction requests generalizing naming with
  | nil => cases h
  | cons request rest ih =>
    rw [List.flatMap_cons, List.mem_append] at h
    rcases h with hpath | hrest
    · -- given now, and kept in what follows
      have hnow : ∃ q, (naming.serve request).assigned.get? path = some q := by
        cases request with
        | qualifier other =>
          obtain rfl := List.mem_singleton.mp hpath
          exact ⟨_, get?_qualifierFor naming path⟩
        | registration paths => exact exists_get?_register naming hpath
      obtain ⟨q, hq⟩ := hnow
      exact Table.mem_keys_of_get? (get?_serveAll_of_get? rest hq)
    · exact ih _ hrest

end Naming

/-! ## Links -/

section Links

variable {modules ordered : List Module}

/-- Where qualified names decode uniquely, names that are distinct in each module stay apart. -/
theorem distinct_of_decodable (names : Module → List (NameKind × String))
    (hnames : ∀ m ∈ ordered, (names m).Nodup) (hnodup : (ordered.map Module.name).Nodup)
    (hdecodable : ∀ m ∈ ordered, ∀ n ∈ ordered, ∀ r s,
      linkQualifier modules m.name ++ r = linkQualifier modules n.name ++ s →
        m.name = n.name ∧ r = s) :
    Distinct (ordered.flatMap fun m => (names m).map fun d =>
      ⟨d.1, linkQualifier modules m.name ++ d.2, m.name⟩) := by
  rw [Distinct, List.map_flatMap, List.nodup_flatMap]
  constructor
  · intro m hm
    rw [List.map_map]
    apply (hnames m hm).map_on
    intro d hd e he heq
    obtain ⟨hkind, hname⟩ := Prod.mk.inj heq
    exact Prod.ext hkind (hdecodable m hm m hm _ _ hname).2
  · -- of two modules, no two names decode alike
    rw [List.Nodup, List.pairwise_map] at hnodup
    apply hnodup.imp_of_mem
    intro m n hm hn hne key hkey hkey'
    simp only [List.map_map] at hkey hkey'
    obtain ⟨d, -, rfl⟩ := List.mem_map.mp hkey
    obtain ⟨e, -, heq⟩ := List.mem_map.mp hkey'
    exact hne (hdecodable m hm n hn _ _ (Prod.mk.inj heq).2.symm).1

variable (hnodup : (modules.map Module.name).Nodup)
  (hsparse : ∀ m ∈ modules, Naming.Sparse m.name.toList)

include hsparse in
/-- The global names of modules with sparse paths decode uniquely. -/
theorem linkQualifier_decodable {m n : Module} (hm : m ∈ modules) (hn : n ∈ modules)
    {r s : String} (h : linkQualifier modules m.name ++ r = linkQualifier modules n.name ++ s) :
    m.name = n.name ∧ r = s := by
  have hkeys : ∀ x ∈ modules, x.name ∈ (linkNaming modules).assigned.keys := by
    intro x hx
    exact Table.mem_keys_of_get? (get?_linkNaming (List.mem_map_of_mem hx))
  exact (valid_linkNaming modules).eq_of_qualified_eq (hkeys m hm) (hkeys n hn) (hsparse m hm)
    (hsparse n hn) h

include hnodup hsparse in
theorem distinct_byPriority (names : Module → List (NameKind × String))
    (hnames : ∀ m, (names m).Nodup) :
    Distinct ((Composition.byPriority modules).flatMap fun m => (names m).map fun d =>
      ⟨d.1, linkQualifier modules m.name ++ d.2, m.name⟩) := by
  have hperm := Composition.perm_byPriority modules
  apply distinct_of_decodable names (fun m _ => hnames m)
  · exact ((hperm.map Module.name).nodup_iff).mpr hnodup
  · intro m hm n hn r s h
    exact linkQualifier_decodable hsparse (hperm.subset hm) (hperm.subset hn) h

/-- Names of one kind are as distinct as they are without the kind. -/
private theorem nodup_map_kind {names : List String} (kind : NameKind) (h : names.Nodup) :
    (names.map (Prod.mk kind)).Nodup :=
  h.map (Prod.mk_right_injective kind)

include hnodup hsparse in
theorem distinct_globalRuleDefinitions :
    Distinct (globalRuleDefinitions modules (Composition.byPriority modules)) := by
  have hdistinct := distinct_byPriority hnodup hsparse
    (fun m => m.grammar.rules.keys.map (Prod.mk .rule))
    (fun m => nodup_map_kind .rule m.grammar.rules.nodup)
  simpa only [globalRuleDefinitions, List.map_map, Function.comp_def] using hdistinct

include hnodup hsparse in
theorem distinct_globalLexicalDefinitions :
    Distinct (globalLexicalDefinitions modules (Composition.byPriority modules)) := by
  have hdistinct := distinct_byPriority hnodup hsparse
    (fun m => m.macros.keys.map (Prod.mk .lexerMacro) ++
      m.startConditions.keys.map (Prod.mk .startCondition)) ?_
  · simpa only [globalLexicalDefinitions, List.map_append, List.map_map, Function.comp_def]
      using hdistinct
  · -- a macro and a start condition differ in kind
    intro m
    apply (nodup_map_kind _ m.macros.nodup).append (nodup_map_kind _ m.startConditions.nodup)
    intro d hmacro hcondition
    obtain ⟨_, -, rfl⟩ := List.mem_map.mp hmacro
    obtain ⟨_, -, heq⟩ := List.mem_map.mp hcondition
    exact absurd (Prod.mk.inj heq).1 (by decide)

include hnodup hsparse in
/-- Modules with different sparse paths do not collide. -/
theorem linkModules_ne_collision (helper entry : String) (refusal : MacroReference.Refusal)
    (kind : NameKind) (name first second : String) :
    linkModules helper entry modules refusal ≠
      .error (.identifierCollision kind name first second) := by
  intro h
  rcases failure_of_linkModules h with hfailure | hrefused
  · cases hfailure with
    | rules _ hrepetition =>
      exact hrepetition.not_distinct (distinct_globalRuleDefinitions hnodup hsparse)
    | lexicalNames _ _ _ hrepetition =>
      exact hrepetition.not_distinct (distinct_globalLexicalDefinitions hnodup hsparse)
  · -- what is said of refused macros is no collision
    obtain ⟨m, -, hm⟩ := List.exists_of_findSome?_eq_some hrefused
    obtain ⟨reason, hreason⟩ := Module.exists_reason_of_refused? hm
    cases hreason

end Links

/-! ## Sparse paths -/

/-- Whatever has been asked for, names qualified for sparse paths decode uniquely, and modules with
different sparse paths never collide. -/
theorem sparse_paths_never_collide :
    (∀ requests : List Naming.Request,
      (∀ path ∈ requests.flatMap Naming.Request.paths, Naming.Sparse path.toList) →
      Set.InjOn
        (fun p : String × String => ((Naming.empty.serveAll requests).qualifierFor p.1).1 ++ p.2)
        {p | p.1 ∈ requests.flatMap Naming.Request.paths}) ∧
    ∀ (helper entry : String) (modules : List Module), (modules.map Module.name).Nodup →
      (∀ m ∈ modules, Naming.Sparse m.name.toList) → ∀ refusal kind name first second,
      linkModules helper entry modules refusal ≠
        .error (.identifierCollision kind name first second) := by
  constructor
  · intro requests hsparse p hp p' hp' heq
    have hdecoded := (Naming.valid_empty.serveAll requests).eq_of_qualified_eq
      (Naming.mem_keys_serveAll _ hp) (Naming.mem_keys_serveAll _ hp') (hsparse _ hp)
      (hsparse _ hp') heq
    exact Prod.ext hdecoded.1 hdecoded.2
  · intro helper entry modules hnodup hsparse refusal kind name first second
    exact linkModules_ne_collision hnodup hsparse helper entry refusal kind name first second

/-- Two modules with one stem and the same rule. -/
def slashedModules : List Module := [
  { name := "a/b", grammar := { rules := .ofList [("_x", [⟨"_x Y", none, none⟩])] } },
  { name := "a-b", grammar := { rules := .ofList [("_x", [⟨"Y", none, none⟩])] } }]

theorem slashedModules_never_collide :
    (∀ path ∈ ["a/b", "a-b", "a_b"], Naming.Sparse path.toList) ∧
    Set.InjOn
      (fun p : String × String => ((Naming.empty.serveAll
        [.qualifier "a/b", .registration ["a-b", "a_b"]]).qualifierFor p.1).1 ++ p.2)
      {p | p.1 ∈ ["a/b", "a-b", "a_b"]} ∧
    (slashedModules.map Module.name).Nodup ∧
    (∀ m ∈ slashedModules, Naming.Sparse m.name.toList) ∧
    linkModules "wrap" "a/b" slashedModules ≠
      .error (.identifierCollision .rule "a$b___x" "a/b" "a-b") := by
  have hpaths : ∀ path ∈ ["a/b", "a-b", "a_b"], Naming.Sparse path.toList := by decide
  have hmodules : ∀ m ∈ slashedModules, Naming.Sparse m.name.toList := by decide
  have hnodup : (slashedModules.map Module.name).Nodup := by decide
  exact ⟨hpaths,
    sparse_paths_never_collide.1 [.qualifier "a/b", .registration ["a-b", "a_b"]] hpaths,
    hnodup, hmodules,
    sparse_paths_never_collide.2 "wrap" "a/b" slashedModules hnodup hmodules _ _ _ _ _⟩

end ModularGrammar
