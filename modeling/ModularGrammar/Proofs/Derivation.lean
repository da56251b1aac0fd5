import Mathlib.Logic.Relation
import ModularGrammar.Proofs.GlobalGrammar
import ModularGrammar.Proofs.Occurrence

/-!
# Derivations

What the composite grammar derives is what the modules derive when each of their names is read where
it stands.  Linking gives the symbols of that reading their global names; if no two of them get the
same one, derivations carry over in both directions.

## Architecture

1. `Rewrites`, `Derives`: derivations with any productions
2. `Productions.Image`: productions under other names, and their derivations
3. `tableProductions`, `modularProductions`: a rule table, and modules that are not linked
4. `derives_linked_iff`: linked modules
-/

namespace ModularGrammar

universe u v

/-! ## Derivations -/

/-- The sequences with which each symbol may be replaced. -/
def Productions (α : Type u) : Type u := α → List α → Prop

/-- One symbol is replaced, wherever it stands. -/
def Rewrites {α : Type u} (P : Productions α) (x y : List α) : Prop :=
  ∃ pre a post rhs, P a rhs ∧ x = pre ++ a :: post ∧ y = pre ++ (rhs ++ post)

/-- Any number of symbols is replaced, one after the other. -/
def Derives {α : Type u} (P : Productions α) : List α → List α → Prop :=
  Relation.ReflTransGen (Rewrites P)

/-! ## Other names -/

/-- `Q` are the productions `P` with every symbol `a` written as `f a`. -/
def Productions.Image {α : Type u} {β : Type v} (f : α → β) (P : Productions α)
    (Q : Productions β) : Prop :=
  ∀ b rhs, Q b rhs ↔ ∃ a symbols, P a symbols ∧ b = f a ∧ rhs = symbols.map f

section Image

variable {α : Type u} {β : Type v} {f : α → β} {P : Productions α} {Q : Productions β}

theorem Rewrites.map (himage : P.Image f Q) {x y : List α} (h : Rewrites P x y) :
    Rewrites Q (x.map f) (y.map f) := by
  obtain ⟨pre, a, post, rhs, hprod, rfl, rfl⟩ := h
  have hmapped : Q (f a) (rhs.map f) := (himage _ _).mpr ⟨a, rhs, hprod, rfl, rfl⟩
  exact ⟨pre.map f, f a, post.map f, rhs.map f, hmapped, by simp, by simp⟩

theorem Derives.map (himage : P.Image f Q) {x y : List α} (h : Derives P x y) :
    Derives Q (x.map f) (y.map f) := by
  induction h with
  | refl => exact .refl
  | tail _ hstep ih => exact ih.tail (hstep.map himage)

variable {S : α → Prop} (himage : P.Image f Q)
  (hinj : ∀ a, S a → ∀ b, S b → f a = f b → a = b)
  (hclosed : ∀ a rhs, P a rhs → S a ∧ ∀ b ∈ rhs, S b)

include himage hinj hclosed

/-- A step under other names is a step of the symbols themselves, if they have different names. -/
theorem Rewrites.of_map {x : List α} {z : List β} (hx : ∀ a ∈ x, S a)
    (h : Rewrites Q (x.map f) z) :
    ∃ y, (∀ a ∈ y, S a) ∧ Rewrites P x y ∧ z = y.map f := by
  obtain ⟨pre', b, post', rhs', hprod, hsplit, rfl⟩ := h
  -- the replaced name and what stands around it are images of parts of `x`
  obtain ⟨pre, rest, rfl, rfl, hrest⟩ := List.map_eq_append_iff.mp hsplit
  obtain ⟨a, post, rfl, hname, rfl⟩ := List.map_eq_cons_iff.mp hrest
  obtain ⟨a', rhs, hprod', rfl, rfl⟩ := (himage _ _).mp hprod
  obtain ⟨ha', hrhs⟩ := hclosed a' rhs hprod'
  -- the production may belong to another symbol of the same name, so the names must differ
  have hsame : a = a' := hinj a (hx a (by simp)) a' ha' hname
  refine ⟨pre ++ (rhs ++ post), ?_, ⟨pre, a, post, rhs, hsame ▸ hprod', rfl, rfl⟩, by simp⟩
  intro c hc
  rcases List.mem_append.mp hc with hpre | htail
  · exact hx c (List.mem_append_left _ hpre)
  · rcases List.mem_append.mp htail with hnew | hpost
    · exact hrhs c hnew
    · exact hx c (List.mem_append_right _ (List.mem_cons_of_mem _ hpost))

theorem Derives.of_map {x : List α} {z : List β} (hx : ∀ a ∈ x, S a)
    (h : Derives Q (x.map f) z) :
    ∃ y, (∀ a ∈ y, S a) ∧ Derives P x y ∧ z = y.map f := by
  -- along the run the sequence stays the image of symbols from `S`, which is what a step needs
  induction h with
  | refl => exact ⟨x, hx, .refl, rfl⟩
  | tail _ hstep ih =>
    obtain ⟨y, hy, hderives, rfl⟩ := ih
    obtain ⟨y', hy', hrewrites, rfl⟩ := Rewrites.of_map himage hinj hclosed hy hstep
    exact ⟨y', hy', hderives.tail hrewrites, rfl⟩

omit himage hclosed in
theorem eq_of_map_eq {x y : List α} (hx : ∀ a ∈ x, S a) (hy : ∀ a ∈ y, S a)
    (h : x.map f = y.map f) : x = y := by
  induction x generalizing y with
  | nil => exact (List.map_eq_nil_iff.mp h.symm).symm
  | cons a x ih =>
    obtain ⟨b, y', rfl, hname, hrest⟩ := List.map_eq_cons_iff.mp h.symm
    have hhead : a = b := hinj a (hx a List.mem_cons_self) b (hy b List.mem_cons_self) hname.symm
    have htail : x = y' := ih (fun c hc => hx c (List.mem_cons_of_mem _ hc))
      (fun c hc => hy c (List.mem_cons_of_mem _ hc)) hrest.symm
    rw [hhead, htail]

/-- Symbols with different names derive under their names what they derive. -/
theorem derives_map_iff {x y : List α} (hx : ∀ a ∈ x, S a) (hy : ∀ a ∈ y, S a) :
    Derives Q (x.map f) (y.map f) ↔ Derives P x y := by
  constructor
  · intro h
    obtain ⟨y', hy', hderives, hmap⟩ := Derives.of_map himage hinj hclosed hx h
    rw [eq_of_map_eq hinj hy hy' hmap]
    exact hderives
  · intro h
    exact h.map himage

end Image

/-! ## Rule tables and modules -/

/-- The productions of a rule table: a key is replaced with the symbols of one of its
alternatives. -/
def tableProductions (rules : RuleTable) : Productions String := fun key rhs =>
  ∃ alternatives, rules.get? key = some alternatives ∧ ∃ a ∈ alternatives, rhs = a.names

/-- The productions of modules that are not linked: rules are told apart by where they stand, and
each symbol stands for what it means there. -/
def modularProductions (modules : List Module) : Productions Referent := fun p rhs =>
  ∃ m ∈ modules, m.name = p.owner ∧
    ∃ names, tableProductions m.grammar.rules p.name names ∧ rhs = names.map (m.referent modules)

/-- What rules define and what the symbols in their productions stand for. -/
def producingReferents (modules : List Module) : List Referent :=
  definedReferents modules ++ symbolReferents modules

/-- Renamed symbols are the symbols, renamed. -/
theorem Alternative.RenamedBy.names_eq {f : String → String} {a b : Alternative}
    (h : a.RenamedBy f b) (hf : ∀ s, f s ≠ "") : b.names = a.names.map f := by
  have hfilter : ∀ l : List String,
      (l.map fun s => if s = "" then "" else f s).filter (fun s => s ≠ "") =
        (l.filter fun s => s ≠ "").map f := by
    intro l
    induction l with
    | nil => rfl
    | cons s l ih =>
      by_cases hempty : s = ""
      · simpa [hempty] using ih
      · simpa [hempty, hf s] using ih
  rw [Alternative.names, h.symbols, hfilter]
  rfl

theorem tableProductions_iff {rules : RuleTable} {key : String} {rhs : List String} :
    tableProductions rules key rhs ↔
      ∃ alternatives, (key, alternatives) ∈ rules.entries ∧ ∃ a ∈ alternatives, rhs = a.names := by
  simp only [tableProductions, Table.get?_eq_some_iff]

/-- Productions are made of what rules define and of what their symbols stand for. -/
theorem producing_of_modularProductions {modules : List Module} {p : Referent}
    {rhs : List Referent} (h : modularProductions modules p rhs) :
    p ∈ producingReferents modules ∧ ∀ q ∈ rhs, q ∈ producingReferents modules := by
  obtain ⟨m, hm, howner, names, hprod, rfl⟩ := h
  obtain ⟨alternatives, hrule, a, ha, rfl⟩ := tableProductions_iff.mp hprod
  constructor
  · have hkey : p.name ∈ m.grammar.rules.keys := Table.mem_keys_of_mem_entries hrule
    exact List.mem_append_left _ (mem_definedReferents.mpr ⟨m, hm, howner, hkey⟩)
  · -- the symbol stands in the alternative that was chosen
    intro q hq
    have hvalues : alternatives ∈ m.grammar.rules.values := List.mem_map.mpr ⟨_, hrule, rfl⟩
    have halternative : a ∈ m.alternatives := List.mem_flatten.mpr ⟨_, hvalues, ha⟩
    have hnames : a.names ⊆ m.alternatives.flatMap Alternative.names := fun s hs =>
      List.mem_flatMap.mpr ⟨a, halternative, hs⟩
    exact List.mem_append_right _ (List.mem_flatMap.mpr ⟨m, hm, List.map_subset _ hnames hq⟩)

/-! ## Linked modules -/

section Linked

variable {helper entry : String} {modules : List Module} {refusal : MacroReference.Refusal}
  {out : LinkOutput} (hspaces : ∀ m ∈ modules, ∀ e ∈ m.exports, ' ' ∉ e.localName.toList)
  (hlinked : linkModules helper entry modules refusal = .ok out)

include hspaces hlinked

/-- The alternatives in the composite grammar have the symbols of the module under global names. -/
theorem names_mapNames {m : Module} (hm : m ∈ modules) (a : Alternative) :
    (a.mapNames (m.globalName modules)).names = a.names.map (m.globalName modules) := by
  have hrenamed : a.RenamedBy (m.globalName modules) (a.mapNames (m.globalName modules)) := by
    apply mapNames_renamedBy
    intro s hs _
    exact space_notMem_globalName (valid_of_linkModules hlinked) hspaces hm
      (Text.notMem_of_mem_split hs)
  exact hrenamed.names_eq fun s => globalName_ne_empty modules _

/-- The composite grammar has the productions of the modules under global names. -/
theorem image_modularProductions :
    (modularProductions modules).Image (Referent.globalName modules)
      (tableProductions out.grammar.rules) := by
  intro key rhs
  rw [tableProductions_iff, rules_of_linkModules hlinked]
  constructor
  · -- a composite rule is the contribution of one module
    intro h
    obtain ⟨alternatives', hrule, a', ha', rfl⟩ := h
    obtain ⟨m, hordered, hcontributed⟩ := List.mem_flatMap.mp hrule
    have hm : m ∈ modules := Composition.mem_byPriority.mp hordered
    obtain ⟨⟨r, alternatives⟩, hentry, heq⟩ := List.mem_map.mp hcontributed
    obtain ⟨rfl, rfl⟩ := Prod.mk.inj heq
    obtain ⟨a, ha, rfl⟩ := List.mem_map.mp ha'
    have hprod : tableProductions m.grammar.rules r a.names :=
      tableProductions_iff.mpr ⟨alternatives, hentry, a, ha, rfl⟩
    refine ⟨⟨m.name, r⟩, a.names.map (m.referent modules), ⟨m, hm, rfl, _, hprod, rfl⟩, rfl, ?_⟩
    rw [names_mapNames hspaces hlinked hm, List.map_map]
    rfl
  · -- and every module contributes all of its rules
    intro h
    obtain ⟨⟨owner, r⟩, symbols, ⟨m, hm, howner, names, hprod, rfl⟩, rfl, rfl⟩ := h
    cases howner
    obtain ⟨alternatives, hentry, a, ha, rfl⟩ := tableProductions_iff.mp hprod
    have hordered : m ∈ Composition.byPriority modules := Composition.mem_byPriority.mpr hm
    refine ⟨alternatives.map (Alternative.mapNames (m.globalName modules)),
      List.mem_flatMap.mpr ⟨m, hordered, List.mem_map.mpr ⟨_, hentry, rfl⟩⟩, _,
      List.mem_map_of_mem ha, ?_⟩
    rw [names_mapNames hspaces hlinked hm, List.map_map]
    rfl

/-- If what modules produce has different global names, the composite grammar derives from every
rule what the modules derive from it, and it starts where the entry starts. -/
theorem derives_linked_iff
    (hdistinct : ∀ p ∈ producingReferents modules, ∀ q ∈ producingReferents modules,
      p.globalName modules = q.globalName modules → p = q) :
    (∀ m ∈ modules, ∀ r ∈ m.grammar.rules.keys, ∀ w : List Referent,
      (∀ p ∈ w, p ∈ producingReferents modules) →
        (Derives (modularProductions modules) [⟨m.name, r⟩] w ↔
          Derives (tableProductions out.grammar.rules) [linkQualifier modules m.name ++ r]
            (w.map (Referent.globalName modules)))) ∧
    ∃ m p, modules.find? (fun m => m.name == entry) = some m ∧
      m.startReferent? modules = some p ∧ out.grammar.start = p.globalName modules := by
  refine ⟨?_, startReferent_of_linkModules hlinked⟩
  intro m hm r hr w hw
  have hrule : (⟨m.name, r⟩ : Referent) ∈ producingReferents modules :=
    List.mem_append_left _ (mem_definedReferents.mpr ⟨m, hm, rfl, hr⟩)
  have hderives := derives_map_iff (S := fun p => p ∈ producingReferents modules)
    (image_modularProductions hspaces hlinked) hdistinct
    (fun _ _ => producing_of_modularProductions) (x := [⟨m.name, r⟩]) (y := w)
    (by simpa using hrule) hw
  exact hderives.symm

end Linked

/-- An entry whose token and rule both come from another module: they are derived under the names
that the other module has for them. -/
theorem twoModules_derives :
    ∃ out, linkModules "wrap" "main" twoModules = .ok out ∧
      (∀ m ∈ twoModules, ∀ e ∈ m.exports, ' ' ∉ e.localName.toList) ∧
      (∀ p ∈ producingReferents twoModules, ∀ q ∈ producingReferents twoModules,
        p.globalName twoModules = q.globalName twoModules → p = q) ∧
      Derives (modularProductions twoModules) [⟨"main", "top"⟩]
        [⟨"lib", "WORD"⟩, ⟨"lib", "NUMBER"⟩] ∧
      Derives (tableProductions out.grammar.rules) ["main__top"] ["lib__WORD", "lib__NUMBER"] ∧
      out.grammar.start = "main__top" := by
  obtain ⟨out, hlinked⟩ := exists_linkModules_twoModules
  have hspaces : ∀ m ∈ twoModules, ∀ e ∈ m.exports, ' ' ∉ e.localName.toList := by decide
  have hproducing : producingReferents twoModules = [⟨"main", "top"⟩, ⟨"lib", "entry"⟩,
      ⟨"lib", "entry"⟩, ⟨"lib", "NUMBER"⟩, ⟨"lib", "WORD"⟩] := by decide +kernel
  have hdistinct : ∀ p ∈ producingReferents twoModules, ∀ q ∈ producingReferents twoModules,
      p.globalName twoModules = q.globalName twoModules → p = q := by
    have hnames : ([⟨"main", "top"⟩, ⟨"lib", "entry"⟩, ⟨"lib", "NUMBER"⟩, ⟨"lib", "WORD"⟩] :
        List Referent).map (Referent.globalName twoModules) =
          ["main__top", "lib__entry", "lib__NUMBER", "lib__WORD"] := by decide +kernel
    have hnodup : (([⟨"main", "top"⟩, ⟨"lib", "entry"⟩, ⟨"lib", "NUMBER"⟩, ⟨"lib", "WORD"⟩] :
        List Referent).map (Referent.globalName twoModules)).Nodup := by
      rw [hnames]
      decide
    intro p hp q hq h
    rw [hproducing] at hp hq
    exact List.inj_on_of_nodup_map hnodup (by simpa using hp) (by simpa using hq) h
  -- two steps in the modules, which the composite grammar must follow
  have htop : modularProductions twoModules ⟨"main", "top"⟩ [⟨"lib", "entry"⟩, ⟨"lib", "NUMBER"⟩] :=
    ⟨_, List.mem_cons_self, rfl, ["item", "NUM"],
      ⟨_, rfl, _, List.mem_cons_self, by decide +kernel⟩, by decide +kernel⟩
  have hentry : modularProductions twoModules ⟨"lib", "entry"⟩ [⟨"lib", "WORD"⟩] :=
    ⟨_, List.mem_cons_of_mem _ List.mem_cons_self, rfl, ["WORD"],
      ⟨_, rfl, _, List.mem_cons_self, by decide +kernel⟩, by decide +kernel⟩
  have hmodular : Derives (modularProductions twoModules) [⟨"main", "top"⟩]
      [⟨"lib", "WORD"⟩, ⟨"lib", "NUMBER"⟩] := by
    refine Relation.ReflTransGen.head ⟨[], _, [], _, htop, rfl, rfl⟩ ?_
    exact Relation.ReflTransGen.single ⟨[], _, [⟨"lib", "NUMBER"⟩], _, hentry, rfl, rfl⟩
  obtain ⟨hderives, m, p, hfind, hp, hstart⟩ := derives_linked_iff hspaces hlinked hdistinct
  refine ⟨out, hlinked, hspaces, hdistinct, hmodular, ?_, ?_⟩
  · have hglobal := (hderives _ List.mem_cons_self "top" (by decide) _ ?_).mp hmodular
    · have hqualifier : linkQualifier twoModules "main" ++ "top" = "main__top" := by decide +kernel
      have hword : ([⟨"lib", "WORD"⟩, ⟨"lib", "NUMBER"⟩] : List Referent).map
        (Referent.globalName twoModules) = ["lib__WORD", "lib__NUMBER"] := by decide +kernel
      rw [hword] at hglobal
      exact hqualifier ▸ hglobal
    · rw [hproducing]
      decide
  · cases hfind
    cases hp
    rw [hstart]
    decide +kernel

end ModularGrammar
