import ModularGrammar.Proofs.Naming
import ModularGrammar.Proofs.Resolution
import ModularGrammar.Proofs.Segment

/-!
# Referents

What a name in a module stands for, and how that is written once modules have been linked.  A name
that is imported stands for what its last import means; any other name stands for itself, as a name
of the module it is used in.

## Architecture

1. `Referent`, `Module.referent`: what a name stands for
2. `Referent.globalName`: how it is written
3. `Referent.Overlaps`: the one way in which two referents come to be written alike
-/

namespace ModularGrammar

/-! ## What names stand for -/

/-- Something of a module, under the name it has there. -/
structure Referent where
  owner : String
  name : String
deriving DecidableEq, Repr

/-- What an import means.  One without an export, of which linked modules have none, is taken to
mean the public name it asks for. -/
def Import.referent (modules : List Module) (i : Import) : Referent where
  owner := i.origin
  name := ((i.export? modules).map Export.localName).getD i.publicName

/-- The import that decides what a name stands for: the last of those that bind it. -/
def Module.importOf? (m : Module) (name : String) : Option Import :=
  m.boundImports.reverse.find? fun i => i.localName = name

/-- What a name stands for where a module uses it. -/
def Module.referent (modules : List Module) (m : Module) (name : String) : Referent :=
  match m.importOf? name with
  | some i => i.referent modules
  | none => ⟨m.name, name⟩

theorem Import.referent_of_export? {modules : List Module} {i : Import} {e : Export}
    (h : i.export? modules = some e) : i.referent modules = ⟨i.origin, e.localName⟩ := by
  rw [referent, h]
  rfl

theorem Module.importOf?_eq_some {m : Module} {name : String} {i : Import}
    (h : m.importOf? name = some i) : i ∈ m.boundImports ∧ i.localName = name := by
  have hname := List.find?_some h
  exact ⟨List.mem_reverse.mp (List.mem_of_find?_eq_some h), of_decide_eq_true hname⟩

/-- A name that is imported into one of some valid modules stands for something that the exporter
has and offers. -/
theorem Module.exists_export_of_importOf? {modules : List Module}
    (hvalid : ExportIndex.problems (ExportIndex.ofModules modules) modules = [])
    {m : Module} (hm : m ∈ modules) {name : String} {i : Import}
    (himport : m.importOf? name = some i) :
    ∃ x ∈ modules, ∃ e ∈ x.exports, x.name = i.origin ∧ e.lexical = i.lexical ∧
      i.export? modules = some e ∧ m.referent modules name = ⟨i.origin, e.localName⟩ := by
  have hi := (Module.importOf?_eq_some himport).1
  obtain ⟨e, he⟩ := ExportIndex.exists_export?_of_valid hvalid hm hi
  obtain ⟨x, hx, hname, hexport, -, hkind⟩ := Import.export?_eq_some he
  refine ⟨x, hx, e, hexport, hname, hkind, he, ?_⟩
  rw [Module.referent, himport]
  exact Import.referent_of_export? he

/-! ## How referents are written -/

/-- The qualifiers in a link: every module gets one, in the order in which the modules stand. -/
def linkNaming (modules : List Module) : Naming :=
  Naming.empty.register (modules.map Module.name)

/-- The qualifier of a module in a link. -/
def linkQualifier (modules : List Module) (name : String) : String :=
  ((linkNaming modules).qualifierFor name).1

/-- The name of a referent in the composite grammar. -/
def Referent.globalName (modules : List Module) (p : Referent) : String :=
  linkQualifier modules p.owner ++ p.name

/-- An import is written under the qualifier of the exporter and the name the export has there. -/
theorem Import.globalName_of_export? {modules : List Module} {i : Import} {e : Export}
    (h : i.export? modules = some e) :
    (i.referent modules).globalName modules = linkQualifier modules i.origin ++ e.localName := by
  rw [Import.referent_of_export? h]
  rfl

section Qualifiers

variable {modules : List Module} {name other : String}

theorem valid_linkNaming (modules : List Module) : (linkNaming modules).Valid :=
  Naming.valid_empty.register _

theorem get?_linkNaming (h : name ∈ modules.map Module.name) :
    (linkNaming modules).assigned.get? name = some (linkQualifier modules name) := by
  obtain ⟨q, hq⟩ := Naming.exists_get?_register Naming.empty h
  have hget : (linkNaming modules).assigned.get? name = some q := hq
  rw [linkQualifier, Naming.qualifierFor_of_get? hget]
  exact hget

/-- Asking for the qualifier of a module of the link changes nothing. -/
theorem qualifierFor_linkNaming (h : name ∈ modules.map Module.name) :
    (linkNaming modules).qualifierFor name = (linkQualifier modules name, linkNaming modules) :=
  Naming.qualifierFor_of_get? (get?_linkNaming h)

theorem exists_candidate_linkQualifier (modules : List Module) (name : String) :
    ∃ k, linkQualifier modules name = Naming.candidate (Naming.stem name) k :=
  ((valid_linkNaming modules).qualifierFor name).formed name _ (Naming.get?_qualifierFor _ name)

theorem linkQualifier_ne_empty (modules : List Module) (name : String) :
    linkQualifier modules name ≠ "" := by
  obtain ⟨k, hk⟩ := exists_candidate_linkQualifier modules name
  rw [hk]
  exact Naming.candidate_ne_empty _ k

/-- A qualifier holds identifier characters and `$` only. -/
theorem notMem_linkQualifier {c : Char} (hother : Naming.inIdentifier c = false)
    (hdollar : c ≠ '$') (modules : List Module) (name : String) :
    c ∉ (linkQualifier modules name).toList := by
  obtain ⟨k, hk⟩ := exists_candidate_linkQualifier modules name
  rw [hk]
  exact Naming.notMem_candidate hother hdollar name k

theorem linkQualifier_inj (hname : name ∈ modules.map Module.name)
    (hother : other ∈ modules.map Module.name)
    (h : linkQualifier modules name = linkQualifier modules other) : name = other := by
  have hget := get?_linkNaming hname
  rw [h] at hget
  exact (valid_linkNaming modules).path_eq hget (get?_linkNaming hother)

theorem globalName_ne_empty (modules : List Module) (p : Referent) :
    p.globalName modules ≠ "" := by
  intro h
  exact linkQualifier_ne_empty modules p.owner (String.append_eq_empty_iff.mp h).1

end Qualifiers

/-! ## Overlaps -/

namespace Referent

/-- The qualifier of `q` goes on where that of `p` ends, and what it goes on with stands at the
beginning of the name of `p`, followed by the name of `q`. -/
def Extends (modules : List Module) (p q : Referent) : Prop :=
  ∃ part, part ≠ "" ∧ linkQualifier modules q.owner = linkQualifier modules p.owner ++ part ∧
    p.name = part ++ q.name

/-- One of the referents extends into the other. -/
def Overlaps (modules : List Module) (p q : Referent) : Prop :=
  p.Extends modules q ∨ q.Extends modules p

/-- The referents are the same, or at least they are written alike. -/
def WrittenAlike (modules : List Module) (p q : Referent) : Prop :=
  p = q ∨ p.Overlaps modules q

variable {modules : List Module} {p q : Referent}

theorem Extends.globalName_eq (h : p.Extends modules q) :
    p.globalName modules = q.globalName modules := by
  obtain ⟨part, -, hqualifier, hname⟩ := h
  rw [globalName, globalName, hqualifier, hname, String.append_assoc]

theorem Overlaps.globalName_eq (h : p.Overlaps modules q) :
    p.globalName modules = q.globalName modules := by
  rcases h with hpq | hqp
  · exact hpq.globalName_eq
  · exact hqp.globalName_eq.symm

/-- Referents of linked modules are written alike only if they are the same or overlap. -/
theorem globalName_eq_iff (hp : p.owner ∈ modules.map Module.name)
    (hq : q.owner ∈ modules.map Module.name) :
    p.globalName modules = q.globalName modules ↔ p = q ∨ p.Overlaps modules q := by
  constructor
  · intro h
    by_cases howner : p.owner = q.owner
    · -- under one qualifier the names themselves must be equal
      have hname : p.name = q.name := by
        rw [globalName, globalName, howner] at h
        exact (String.append_right_inj _).mp h
      exact Or.inl (by cases p; cases q; simp_all)
    · -- under different qualifiers one of them is longer, and what it goes on with is not empty
      have hnonempty : ∀ {a b part : String}, a ∈ modules.map Module.name →
          b ∈ modules.map Module.name → a ≠ b →
          linkQualifier modules b = linkQualifier modules a ++ part → part ≠ "" := by
        rintro a b part ha hb hne hqualifier rfl
        rw [String.append_empty] at hqualifier
        exact hne (linkQualifier_inj hb ha hqualifier).symm
      rcases Text.append_eq_append_cases h with ⟨part, hqualifier, hname⟩ | ⟨part, hqualifier, hname⟩
      · exact Or.inr (Or.inl ⟨part, hnonempty hp hq howner hqualifier, hqualifier, hname⟩)
      · exact Or.inr (Or.inr
          ⟨part, hnonempty hq hp (Ne.symm howner) hqualifier, hqualifier, hname⟩)
  · rintro (rfl | hover)
    · rfl
    · exact hover.globalName_eq

/-- A referent does not overlap with itself. -/
theorem not_overlaps_self (p : Referent) : ¬ p.Overlaps modules p := by
  -- a qualifier does not go on behind its own end
  have hself : ¬ p.Extends modules p := by
    rintro ⟨part, hne, hqualifier, -⟩
    have hchars := congrArg String.length hqualifier
    rw [String.length_append] at hchars
    have hzero : part.length = 0 := by omega
    exact hne (String.length_eq_zero_iff.mp hzero)
  rintro (h | h)
  · exact hself h
  · exact hself h

end Referent

end ModularGrammar
