import Mathlib.Data.List.Induction
import Mathlib.Data.List.Nodup
import ModularGrammar.ImportGraph
import ModularGrammar.Proofs.Table

/-!
# Import Graphs Represent the Import Relation

Import by import, an edge is looked up and extended, or added where there is none yet.  What comes
out depends on the imports only: a module has one edge to each module it imports something from, in
the order in which it first does so, and the edge has all names that are bound between the two.

## Architecture

1. `Module.ImportsFrom`, `namesFrom`, `firstImport`: what the imports of a module say
2. `addBinding_of_new`, `addBinding_of_known`: one import, looked up and added
3. `outgoing`: the edges of one module; one import and all its imports
4. `edges_ofModules`: the edges of all modules
5. `Represents`: what a graph says of modules, and `ofModules_represents`
-/

namespace ModularGrammar

/-! ## What imports say -/

/-- The module imports something from the module of the given name, under a name or without. -/
def Module.ImportsFrom (m : Module) (origin : String) : Prop := ∃ i ∈ m.imports, i.origin = origin

instance (m : Module) (origin : String) : Decidable (m.ImportsFrom origin) :=
  inferInstanceAs (Decidable (∃ i ∈ m.imports, i.origin = origin))

/-- The names that imports from a module bind, in the order of the imports. -/
def Import.namesFrom (imports : List Import) (origin : String) : List String :=
  (imports.filter fun i => i.binds && i.origin == origin).map Import.localName

/-- The number of imports before the first one from the module of the given name. -/
def Module.firstImport (m : Module) (origin : String) : Nat :=
  (m.imports.map Import.origin).idxOf origin

theorem Module.importsFrom_iff {m : Module} {origin : String} :
    m.ImportsFrom origin ↔ origin ∈ m.imports.map Import.origin := by
  simp [ImportsFrom]

/-- The module without its imports of anything that is not among the given names. -/
def Module.importingOnly (names : List String) (m : Module) : Module :=
  { m with imports := m.imports.filter fun i => i.origin ∈ names }

/-- One import more binds one name more, if any, and only between the two modules it is about. -/
theorem Import.namesFrom_append (imports : List Import) (i : Import) (origin : String) :
    namesFrom (imports ++ [i]) origin = namesFrom imports origin ++
      if i.origin = origin then (if i.binds then [i.localName] else []) else [] := by
  simp only [namesFrom, List.filter_append, List.map_append]
  by_cases horigin : i.origin = origin <;> by_cases hbinds : i.binds <;> simp [horigin, hbinds]

theorem Import.namesFrom_of_notMem {imports : List Import} {origin : String}
    (h : origin ∉ imports.map Import.origin) : namesFrom imports origin = [] := by
  rw [namesFrom, List.map_eq_nil_iff, List.filter_eq_nil_iff]
  rintro i hi hfrom
  simp only [Bool.and_eq_true, beq_iff_eq] at hfrom
  exact h (hfrom.2 ▸ List.mem_map_of_mem hi)

namespace ImportGraph

/-! ## One import -/

section Binding

variable {importer imported : Nat} {names : List String} {edges : List Edge}

/-- Where no edge joins the two places, one is added behind all others. -/
theorem addBinding_of_new
    (hnew : ∀ edge ∈ edges, ¬ (edge.importer = importer ∧ edge.imported = imported)) :
    addBinding importer imported names edges = edges ++ [⟨importer, imported, names⟩] := by
  induction edges with
  | nil => rfl
  | cons edge rest ih =>
    have hedge := hnew edge (List.mem_cons_self ..)
    have hrest := ih fun e he => hnew e (List.mem_cons_of_mem _ he)
    rw [addBinding, if_neg hedge, hrest, List.cons_append]

/-- The first edge that joins the two places gets the names, and nothing else changes. -/
theorem addBinding_of_known {known : List String} (behind : List Edge)
    (hfirst : ∀ edge ∈ edges, ¬ (edge.importer = importer ∧ edge.imported = imported)) :
    addBinding importer imported names (edges ++ ⟨importer, imported, known⟩ :: behind) =
      edges ++ ⟨importer, imported, known ++ names⟩ :: behind := by
  induction edges with
  | nil => rw [List.nil_append, addBinding, if_pos ⟨rfl, rfl⟩, List.nil_append]
  | cons edge rest ih =>
    have hedge := hfirst edge (List.mem_cons_self ..)
    have hrest := ih fun e he => hfirst e (List.mem_cons_of_mem _ he)
    rw [List.cons_append, addBinding, if_neg hedge, hrest, List.cons_append]

end Binding

/-! ## One module -/

/-- The edge from a module to an origin, if the origin has a place. -/
def edgeTo (places : Table Nat) (importer : Nat) (imports : List Import) (origin : String) :
    Option Edge :=
  (places.get? origin).map fun imported => ⟨importer, imported, Import.namesFrom imports origin⟩

/-- The edges from a module with the given imports: one for each origin that has a place, in the
order in which the origins come up first. -/
def outgoing (places : Table Nat) (importer : Nat) (imports : List Import) : List Edge :=
  (imports.map Import.origin).eraseDups.filterMap (edgeTo places importer imports)

theorem eraseDups_append_singleton (l : List String) (s : String) :
    (l ++ [s]).eraseDups = if s ∈ l then l.eraseDups else l.eraseDups ++ [s] := by
  by_cases hmem : s ∈ l <;>
    simp [List.eraseDups_append, List.eraseDups_cons, List.removeAll, hmem]

/-- What is kept of repetitions is the first of each, and so it stays in order. -/
theorem pairwise_idxOf_eraseDups (l : List String) :
    l.eraseDups.Pairwise fun a b => l.idxOf a < l.idxOf b := by
  induction l using List.reverseRecOn with
  | nil => simp
  | append_singleton l s ih =>
    -- where names have come up first is not changed by what is put behind them
    have hkept : l.eraseDups.Pairwise fun a b => (l ++ [s]).idxOf a < (l ++ [s]).idxOf b := by
      apply ih.imp_of_mem
      intro a b ha hb hlt
      rw [List.mem_eraseDups] at ha hb
      simpa [List.idxOf_append, ha, hb] using hlt
    rw [eraseDups_append_singleton]
    split
    · exact hkept
    · next hmem =>
      rw [List.pairwise_append]
      refine ⟨hkept, List.pairwise_singleton _ _, ?_⟩
      intro a ha b hb
      obtain rfl := List.mem_singleton.mp hb
      rw [List.mem_eraseDups] at ha
      have hlt := List.idxOf_lt_length_of_mem ha
      simpa [List.idxOf_append, ha, hmem] using hlt

theorem nodup_eraseDups (l : List String) : l.eraseDups.Nodup :=
  (pairwise_idxOf_eraseDups l).imp fun hlt heq => absurd (congrArg l.idxOf heq) (Nat.ne_of_lt hlt)

section Module

variable {places : Table Nat} {importer : Nat} {imports : List Import} {before : List Edge}

theorem mem_outgoing_iff {edge : Edge} : edge ∈ outgoing places importer imports ↔
    ∃ origin ∈ imports.map Import.origin, places.get? origin = some edge.imported ∧
      edge.importer = importer ∧ edge.bindings = Import.namesFrom imports origin := by
  simp only [outgoing, List.mem_filterMap, List.mem_eraseDups, edgeTo, Option.map_eq_some_iff]
  constructor
  · rintro ⟨origin, horigin, imported, hplace, rfl⟩
    exact ⟨origin, horigin, hplace, rfl, rfl⟩
  · rintro ⟨origin, horigin, hplace, rfl, hbindings⟩
    exact ⟨origin, horigin, edge.imported, hplace, by rw [← hbindings]⟩

/-- Edges to other origins do not see the import. -/
theorem filterMap_edgeTo_append {i : Import} {origins : List String} (h : i.origin ∉ origins) :
    origins.filterMap (edgeTo places importer (imports ++ [i])) =
      origins.filterMap (edgeTo places importer imports) := by
  apply List.filterMap_congr
  intro origin horigin
  have hne : i.origin ≠ origin := fun heq => h (heq ▸ horigin)
  simp [edgeTo, Import.namesFrom_append, hne]

variable (hother : ∀ edge ∈ before, edge.importer ≠ importer)
  (hplaces : ∀ {s t : String} {place : Nat}, places.get? s = some place →
    places.get? t = some place → s = t)

include hother hplaces

/-- No edge to other origins ends where the origin of the import has its place. -/
theorem forall_not_joins {i : Import} {origins : List String} {imported : Nat}
    (hplace : places.get? i.origin = some imported) (h : i.origin ∉ origins) :
    ∀ edge ∈ before ++ origins.filterMap (edgeTo places importer imports),
      ¬ (edge.importer = importer ∧ edge.imported = imported) := by
  rintro edge hedge ⟨himporter, himported⟩
  rcases List.mem_append.mp hedge with hbefore | hmap
  · exact hother edge hbefore himporter
  · obtain ⟨origin, horigin, hto⟩ := List.mem_filterMap.mp hmap
    obtain ⟨place, horigin', rfl⟩ := Option.map_eq_some_iff.mp hto
    obtain rfl : place = imported := himported
    exact h (hplaces hplace horigin' ▸ horigin)

/-- One import more keeps the edges of a module in the form they have, whatever edges of other
modules stand before them. -/
theorem addImport_outgoing (i : Import) :
    addImport places importer (before ++ outgoing places importer imports) i =
      before ++ outgoing places importer (imports ++ [i]) := by
  have horigins : ((imports ++ [i]).map Import.origin).eraseDups =
      if i.origin ∈ imports.map Import.origin then (imports.map Import.origin).eraseDups
      else (imports.map Import.origin).eraseDups ++ [i.origin] := by
    rw [List.map_append, List.map_singleton, eraseDups_append_singleton]
  by_cases hknown : i.origin ∈ imports.map Import.origin
  · -- the origins stay what they are, and the one of the import stands among them once
    obtain ⟨front, back, hsplit⟩ := List.append_of_mem (List.mem_eraseDups.mpr hknown)
    have hnodup := nodup_eraseDups (imports.map Import.origin)
    rw [hsplit, List.nodup_append, List.nodup_cons] at hnodup
    obtain ⟨-, ⟨hback, -⟩, hapart⟩ := hnodup
    have hfront : i.origin ∉ front := fun h => hapart _ h _ (List.mem_cons_self ..) rfl
    rw [if_pos hknown, hsplit] at horigins
    rw [outgoing, outgoing, horigins, hsplit, List.filterMap_append, List.filterMap_append,
      filterMap_edgeTo_append hfront, List.filterMap_cons, List.filterMap_cons,
      filterMap_edgeTo_append hback]
    cases hplace : places.get? i.origin with
    | none => simp [addImport, edgeTo, hplace]
    | some imported =>
      have hjoins : ∀ edge ∈ before ++ front.filterMap (edgeTo places importer imports),
          ¬ (edge.importer = importer ∧ edge.imported = imported) :=
        forall_not_joins hother hplaces hplace hfront
      simp only [addImport, edgeTo, hplace, Option.map_some, Import.namesFrom_append, if_true]
      rw [← List.append_assoc, addBinding_of_known _ hjoins, List.append_assoc]
  · -- a new origin comes last, with the name of the import alone
    have hlast : i.origin ∉ (imports.map Import.origin).eraseDups := by
      rwa [List.mem_eraseDups]
    rw [if_neg hknown] at horigins
    rw [outgoing, outgoing, horigins, List.filterMap_append, filterMap_edgeTo_append hlast]
    cases hplace : places.get? i.origin with
    | none => simp [addImport, edgeTo, hplace]
    | some imported =>
      have hjoins : ∀ edge ∈ before ++ (imports.map Import.origin).eraseDups.filterMap
          (edgeTo places importer imports),
          ¬ (edge.importer = importer ∧ edge.imported = imported) :=
        forall_not_joins hother hplaces hplace hlast
      simp only [addImport, hplace]
      rw [addBinding_of_new hjoins]
      simp [edgeTo, hplace, Import.namesFrom_append, Import.namesFrom_of_notMem hknown]

/-- All imports of a module add its edges behind those of other modules. -/
theorem foldl_addImport (imports : List Import) :
    imports.foldl (addImport places importer) before =
      before ++ outgoing places importer imports := by
  induction imports using List.reverseRecOn with
  | nil => simp [outgoing]
  | append_singleton imports i ih =>
    rw [List.foldl_append, ih, List.foldl_cons, List.foldl_nil, addImport_outgoing hother hplaces]

end Module

/-! ## All modules -/

section Modules

variable {modules : List Module}

/-- The nodes of some modules. -/
def nodesOf (modules : List Module) : List Node := modules.map fun m => ⟨m.name, m.priority⟩

theorem map_name_nodesOf (modules : List Module) (place : Nat) :
    (nodesOf modules)[place]?.map Node.name = modules[place]?.map Module.name := by
  rw [nodesOf, List.getElem?_map, Option.map_map]
  rfl

/-- The edges of modules that have their places come one module after the other. -/
theorem foldl_addImports {places : Table Nat} (rest : List Module) {first : Nat}
    {edges : List Edge} (hplaces : ∀ {s t : String} {place : Nat}, places.get? s = some place →
      places.get? t = some place → s = t)
    (hplace : ∀ p ∈ rest.zipIdx first, places.get? p.1.name = some p.2)
    (hedges : ∀ edge ∈ edges, edge.importer < first) :
    rest.foldl (addImports places) edges =
      edges ++ (rest.zipIdx first).flatMap fun p => outgoing places p.2 p.1.imports := by
  induction rest generalizing first edges with
  | nil => simp
  | cons m rest ih =>
    rw [List.zipIdx_cons] at hplace
    have hm : places.get? m.name = some first := hplace _ (List.mem_cons_self ..)
    -- all edges so far begin at earlier places, so those of `m` come behind them
    have hbefore : ∀ edge ∈ edges, edge.importer ≠ first := fun edge hedge =>
      Nat.ne_of_lt (hedges edge hedge)
    have hedges' : ∀ edge ∈ edges ++ outgoing places first m.imports,
        edge.importer < first + 1 := by
      intro edge hedge
      rcases List.mem_append.mp hedge with hold | hout
      · exact Nat.lt_succ_of_lt (hedges edge hold)
      · obtain ⟨_, -, -, rfl, -⟩ := mem_outgoing_iff.mp hout
        exact Nat.lt_succ_self _
    have hrest := ih (fun p hp => hplace p (List.mem_cons_of_mem _ hp)) hedges'
    rw [List.foldl_cons, addImports, hm]
    simp only [foldl_addImport hbefore hplaces, hrest, List.zipIdx_cons, List.flatMap_cons,
      List.append_assoc]

section Distinct

variable (hdistinct : (modules.map Module.name).Nodup)

include hdistinct

/-- Where names are distinct, a name has the place of the module that has the name. -/
theorem get?_places_eq_some_iff {name : String} {place : Nat} :
    (places (nodesOf modules)).get? name = some place ↔
      ∃ m, modules[place]? = some m ∧ m.name = name := by
  -- names are distinct, so nothing is overwritten and the entries are the nodes in their order
  have hentries : (places (nodesOf modules)).entries =
      (nodesOf modules).zipIdx.map fun p => (p.1.name, p.2) := by
    apply Table.entries_ofList
    have hnames : (nodesOf modules).zipIdx.map (fun p => p.1.name) = modules.map Module.name := by
      have hnodes : (nodesOf modules).zipIdx.map Prod.fst = nodesOf modules :=
        List.zipIdx_map_fst 0 (nodesOf modules)
      calc (nodesOf modules).zipIdx.map (fun p => p.1.name)
          = ((nodesOf modules).zipIdx.map Prod.fst).map Node.name := by rw [List.map_map]; rfl
        _ = modules.map Module.name := by rw [hnodes, nodesOf, List.map_map]; rfl
    simpa [Function.comp_def, hnames] using hdistinct
  rw [Table.get?_eq_some_iff, hentries, List.mem_map]
  constructor
  · rintro ⟨⟨node, k⟩, hmem, heq⟩
    cases heq
    rw [List.mem_zipIdx_iff_getElem?, nodesOf, List.getElem?_map, Option.map_eq_some_iff] at hmem
    obtain ⟨m, hm, rfl⟩ := hmem
    exact ⟨m, hm, rfl⟩
  · rintro ⟨m, hm, rfl⟩
    refine ⟨(⟨m.name, m.priority⟩, place), ?_, rfl⟩
    rw [List.mem_zipIdx_iff_getElem?, nodesOf, List.getElem?_map, hm, Option.map_some]

theorem place_eq_of_name_eq {i j : Nat} {a b : Module} (ha : modules[i]? = some a)
    (hb : modules[j]? = some b) (h : a.name = b.name) : i = j := by
  have hplace := (get?_places_eq_some_iff hdistinct).mpr ⟨a, ha, h⟩
  rw [(get?_places_eq_some_iff hdistinct).mpr ⟨b, hb, rfl⟩] at hplace
  exact (Option.some.inj hplace).symm

/-- The edges of a graph are those of its modules, one after the other. -/
theorem edges_ofModules : (ofModules modules).edges =
    modules.zipIdx.flatMap fun p => outgoing (places (nodesOf modules)) p.2 p.1.imports := by
  -- names are distinct, so two names never share a place
  have hplaces : ∀ {s t : String} {place : Nat}, (places (nodesOf modules)).get? s = some place →
      (places (nodesOf modules)).get? t = some place → s = t := by
    intro s t place hs ht
    obtain ⟨m, hm, rfl⟩ := (get?_places_eq_some_iff hdistinct).mp hs
    obtain ⟨m', hm', rfl⟩ := (get?_places_eq_some_iff hdistinct).mp ht
    rw [hm] at hm'
    rw [Option.some.inj hm']
  have hplace : ∀ p ∈ modules.zipIdx, (places (nodesOf modules)).get? p.1.name = some p.2 := by
    intro p hp
    rw [List.mem_zipIdx_iff_getElem?] at hp
    exact (get?_places_eq_some_iff hdistinct).mpr ⟨p.1, hp, rfl⟩
  have hedges := foldl_addImports modules hplaces hplace (List.forall_mem_nil _)
  rwa [List.nil_append] at hedges

/-- An edge stands for all imports between two modules. -/
theorem mem_edges_iff {edge : Edge} :
    edge ∈ (ofModules modules).edges ↔ ∃ a b, modules[edge.importer]? = some a ∧
      modules[edge.imported]? = some b ∧ a.ImportsFrom b.name ∧
        edge.bindings = Import.namesFrom a.imports b.name := by
  simp only [edges_ofModules hdistinct, List.mem_flatMap, mem_outgoing_iff,
    get?_places_eq_some_iff hdistinct, Module.importsFrom_iff, List.mem_zipIdx_iff_getElem?]
  constructor
  · rintro ⟨⟨a, k⟩, ha, origin, horigin, ⟨b, hb, rfl⟩, rfl, hbindings⟩
    exact ⟨a, b, ha, hb, horigin, hbindings⟩
  · rintro ⟨a, b, ha, hb, hfrom, hbindings⟩
    exact ⟨(a, edge.importer), ha, b.name, hfrom, ⟨b, hb, rfl⟩, rfl, hbindings⟩

end Distinct

/-! ## What a graph says -/

/-- The order of edges: by the importing module, and then by the first import of each target. -/
inductive Precedes (modules : List Module) (first second : Edge) : Prop where
  /-- The importing module of the first edge comes first. -/
  | importer (h : first.importer < second.importer)
  /-- Both edges come from one module, which imports the target of the first edge first. -/
  | firstImport {m a b : Module} (same : first.importer = second.importer)
    (hm : modules[first.importer]? = some m) (ha : modules[first.imported]? = some a)
    (hb : modules[second.imported]? = some b) (h : m.firstImport a.name < m.firstImport b.name)

/-- The edges from one place to another. -/
def between (graph : ImportGraph) (importer imported : Nat) : List Edge :=
  graph.edges.filter fun edge => edge.importer = importer ∧ edge.imported = imported

/-- A graph shows the imports among modules and nothing else. -/
structure Represents (graph : ImportGraph) (modules : List Module) : Prop where
  /-- There is a node for every module, in the order of the modules. -/
  nodes : graph.nodes = modules.map fun m => ⟨m.name, m.priority⟩
  /-- From a module to a module, or to itself, there is one edge with the names that are bound
  between them, or none if there is no import. -/
  between : ∀ i j a b, modules[i]? = some a → modules[j]? = some b → graph.between i j =
    if a.ImportsFrom b.name then [⟨i, j, Import.namesFrom a.imports b.name⟩] else []
  /-- Every edge goes from a module to a module. -/
  within : ∀ edge ∈ graph.edges,
    edge.importer < modules.length ∧ edge.imported < modules.length
  /-- Edges are in the order of importing modules, those of one module in the order in which it
  first imports something from their targets. -/
  order : graph.edges.Pairwise (Precedes modules)
  /-- A module is told all modules that import it, each of them once. -/
  importers : ∀ name, (graph.importersOf name).Nodup ∧ ∀ importer,
    importer ∈ graph.importersOf name ↔ name ∈ modules.map Module.name ∧
      ∃ m ∈ modules, m.name = importer ∧ m.ImportsFrom name
  /-- Imports of what is no module make no difference. -/
  strays : ofModules (modules.map (Module.importingOnly (modules.map Module.name))) = graph

/-- No two edges join the same places. -/
theorem Precedes.imported_ne {first second : Edge} (h : Precedes modules first second)
    (himporter : first.importer = second.importer) : first.imported ≠ second.imported := by
  intro himported
  cases h with
  | importer hlt => exact absurd himporter (Nat.ne_of_lt hlt)
  | firstImport same hm ha hb hlt =>
    rw [← himported, ha] at hb
    cases hb
    exact absurd hlt (Nat.lt_irrefl _)

section Distinct

variable (hdistinct : (modules.map Module.name).Nodup)

include hdistinct

theorem pairwise_precedes :
    (ofModules modules).edges.Pairwise (Precedes modules) := by
  rw [edges_ofModules hdistinct, List.pairwise_flatMap]
  constructor
  · -- the edges of one module
    rintro ⟨m, k⟩ hm
    rw [List.mem_zipIdx_iff_getElem?] at hm
    rw [outgoing, List.pairwise_filterMap]
    apply (pairwise_idxOf_eraseDups _).imp
    intro s t hlt first hfirst second hsecond
    obtain ⟨place, hs, rfl⟩ := Option.map_eq_some_iff.mp hfirst
    obtain ⟨place', ht, rfl⟩ := Option.map_eq_some_iff.mp hsecond
    obtain ⟨a, ha, rfl⟩ := (get?_places_eq_some_iff hdistinct).mp hs
    obtain ⟨b, hb, rfl⟩ := (get?_places_eq_some_iff hdistinct).mp ht
    exact .firstImport rfl hm ha hb hlt
  · -- the edges of two modules
    have hsorted : modules.zipIdx.Pairwise fun p q => p.2 < q.2 := by
      have hrange : (List.range' 0 modules.length).Pairwise (· < ·) := List.pairwise_lt_range'
      rw [← List.zipIdx_map_snd, List.pairwise_map] at hrange
      exact hrange
    apply hsorted.imp
    intro p q hlt first hfirst second hsecond
    obtain ⟨_, -, -, hp, -⟩ := mem_outgoing_iff.mp hfirst
    obtain ⟨_, -, -, hq, -⟩ := mem_outgoing_iff.mp hsecond
    exact .importer (by rw [hp, hq]; exact hlt)

theorem between_ofModules {i j : Nat} {a b : Module} (ha : modules[i]? = some a)
    (hb : modules[j]? = some b) : (ofModules modules).between i j =
      if a.ImportsFrom b.name then [⟨i, j, Import.namesFrom a.imports b.name⟩] else [] := by
  have hmem : ∀ edge, edge ∈ (ofModules modules).between i j ↔
      a.ImportsFrom b.name ∧ edge = ⟨i, j, Import.namesFrom a.imports b.name⟩ := by
    rintro ⟨importer, imported, bindings⟩
    rw [between, List.mem_filter, mem_edges_iff hdistinct, decide_eq_true_eq]
    constructor
    · rintro ⟨⟨a', b', ha', hb', hfrom, hbindings⟩, hi, hj⟩
      dsimp only at *
      subst hi hj
      rw [ha] at ha'
      rw [hb] at hb'
      cases ha'
      cases hb'
      exact ⟨hfrom, by rw [hbindings]⟩
    · rintro ⟨hfrom, heq⟩
      cases heq
      exact ⟨⟨a, b, ha, hb, hfrom, rfl⟩, rfl, rfl⟩
  split
  · next hfrom =>
    have hedge := (hmem _).mpr ⟨hfrom, rfl⟩
    have hpairwise : ((ofModules modules).between i j).Pairwise (Precedes modules) :=
      (pairwise_precedes hdistinct).sublist List.filter_sublist
    -- a second edge would be the same as the first, and still come behind it
    match hbetween : (ofModules modules).between i j with
    | [] => simp [hbetween] at hedge
    | [edge] =>
      rw [((hmem edge).mp (by simp [hbetween])).2]
    | first :: second :: rest =>
      obtain ⟨-, rfl⟩ := (hmem first).mp (by simp [hbetween])
      obtain ⟨-, rfl⟩ := (hmem second).mp (by simp [hbetween])
      rw [hbetween] at hpairwise
      have hprecedes := (List.pairwise_cons.mp hpairwise).1 _ (List.mem_cons_self ..)
      exact absurd rfl (hprecedes.imported_ne rfl)
  · next hfrom =>
    rw [List.eq_nil_iff_forall_not_mem]
    intro edge hedge
    exact hfrom ((hmem edge).mp hedge).1

theorem mem_importersOf_iff {name importer : String} :
    importer ∈ (ofModules modules).importersOf name ↔ name ∈ modules.map Module.name ∧
      ∃ m ∈ modules, m.name = importer ∧ m.ImportsFrom name := by
  have hnodes : (ofModules modules).nodes = nodesOf modules := rfl
  rw [importersOf, hnodes]
  cases hplace : (places (nodesOf modules)).get? name with
  | none =>
    refine iff_of_false List.not_mem_nil ?_
    -- a module of this name would have a place
    rintro ⟨hname, -⟩
    obtain ⟨b, hb, rfl⟩ := List.mem_map.mp hname
    obtain ⟨j, hj⟩ := List.mem_iff_getElem?.mp hb
    rw [(get?_places_eq_some_iff hdistinct).mpr ⟨b, hj, rfl⟩] at hplace
    cases hplace
  | some place =>
    obtain ⟨b, hb, rfl⟩ := (get?_places_eq_some_iff hdistinct).mp hplace
    simp only [List.mem_filterMap, List.mem_filter, decide_eq_true_eq, mem_edges_iff hdistinct,
      map_name_nodesOf, Option.map_eq_some_iff]
    constructor
    · -- the target of an edge is the module at its place
      rintro ⟨edge, ⟨⟨a, b', ha, hb', hfrom, -⟩, rfl⟩, m, hm, rfl⟩
      rw [ha] at hm
      rw [hb] at hb'
      cases hm
      cases hb'
      exact ⟨List.mem_map_of_mem (List.mem_of_getElem? hb), a, List.mem_of_getElem? ha, rfl, hfrom⟩
    · rintro ⟨-, a, ha, rfl, hfrom⟩
      obtain ⟨i, hi⟩ := List.mem_iff_getElem?.mp ha
      exact ⟨⟨i, place, Import.namesFrom a.imports b.name⟩, ⟨⟨a, b, hi, hb, hfrom, rfl⟩, rfl⟩,
        a, hi, rfl⟩

theorem nodup_importersOf (name : String) : ((ofModules modules).importersOf name).Nodup := by
  have hnodes : (ofModules modules).nodes = nodesOf modules := rfl
  rw [importersOf, hnodes]
  cases hplace : (places (nodesOf modules)).get? name with
  | none => exact List.nodup_nil
  | some place =>
    rw [List.Nodup, List.pairwise_filterMap]
    apply ((pairwise_precedes hdistinct).sublist List.filter_sublist).imp_of_mem
    intro first second hfirst hsecond hprecedes s hs t ht
    rw [List.mem_filter, decide_eq_true_eq] at hfirst hsecond
    rw [map_name_nodesOf, Option.map_eq_some_iff] at hs ht
    obtain ⟨a, ha, rfl⟩ := hs
    obtain ⟨b, hb, rfl⟩ := ht
    -- one name is that of one place, and so the two edges would join the same places
    intro heq
    exact hprecedes.imported_ne (place_eq_of_name_eq hdistinct ha hb heq)
      (hfirst.2.trans hsecond.2.symm)

theorem ofModules_importingOnly :
    ofModules (modules.map (Module.importingOnly (modules.map Module.name))) =
      ofModules modules := by
  have hnodes : nodesOf (modules.map (Module.importingOnly (modules.map Module.name))) =
      nodesOf modules := by
    rw [nodesOf, List.map_map]
    rfl
  -- an import that is left out would have been passed over
  have himport : ∀ importer edges, ∀ i : Import, (if i.origin ∈ modules.map Module.name then
      addImport (places (nodesOf modules)) importer edges i else edges) =
        addImport (places (nodesOf modules)) importer edges i := by
    intro importer edges i
    split
    · rfl
    · next hstray =>
      cases hplace : (places (nodesOf modules)).get? i.origin with
      | none => rw [addImport, hplace]
      | some place =>
        obtain ⟨m, hm, hname⟩ := (get?_places_eq_some_iff hdistinct).mp hplace
        exact absurd (hname ▸ List.mem_map_of_mem (List.mem_of_getElem? hm)) hstray
  have hmodule : ∀ edges m, addImports (places (nodesOf modules)) edges
      (Module.importingOnly (modules.map Module.name) m) =
        addImports (places (nodesOf modules)) edges m := by
    intro edges m
    simp only [addImports, Module.importingOnly, List.foldl_filter, decide_eq_true_eq, himport]
  calc ofModules (modules.map (Module.importingOnly (modules.map Module.name)))
      = ⟨nodesOf modules, (modules.map (Module.importingOnly (modules.map Module.name))).foldl
          (addImports (places (nodesOf modules))) []⟩ := by rw [← hnodes]; rfl
    _ = ⟨nodesOf modules, modules.foldl (addImports (places (nodesOf modules))) []⟩ := by
      rw [List.foldl_map]
      simp only [hmodule]
    _ = ofModules modules := rfl

/-- The graph of modules with distinct names shows their imports and nothing else. -/
theorem ofModules_represents : (ofModules modules).Represents modules where
  nodes := rfl
  between := fun _ _ _ _ ha hb => between_ofModules hdistinct ha hb
  within := by
    intro edge hedge
    obtain ⟨a, b, ha, hb, -⟩ := (mem_edges_iff hdistinct).mp hedge
    exact ⟨(List.getElem?_eq_some_iff.mp ha).1, (List.getElem?_eq_some_iff.mp hb).1⟩
  order := pairwise_precedes hdistinct
  importers := fun name =>
    ⟨nodup_importersOf hdistinct name, fun _ => mem_importersOf_iff hdistinct⟩
  strays := ofModules_importingOnly hdistinct

end Distinct

end Modules

/-- Modules that import each other and themselves, repeatedly and in any order, and one module that
is not there. -/
def knottedModules : List Module := [
  { name := "main", grammar := {}, imports := [
      ⟨"lib", "default", "list", false⟩, ⟨"absent", "x", "x", false⟩,
      ⟨"main", "top", "self", false⟩, ⟨"side", "", "", false⟩, ⟨"lib", "", "", false⟩,
      ⟨"lib", "WORD", "NAME", true⟩] },
  { name := "side", grammar := {}, priority := 3 },
  { name := "lib", grammar := {}, imports := [⟨"main", "", "", false⟩] }]

theorem knottedModules_represents : (knottedModules.map Module.name).Nodup ∧
    (ofModules knottedModules).edges =
      [⟨0, 2, ["list", "NAME"]⟩, ⟨0, 0, ["self"]⟩, ⟨0, 1, []⟩, ⟨2, 0, []⟩] ∧
    (ofModules knottedModules).importersOf "main" = ["main", "lib"] ∧
    (ofModules knottedModules).Represents knottedModules := by
  have hdistinct : (knottedModules.map Module.name).Nodup := by decide
  exact ⟨hdistinct, by decide +kernel, by decide +kernel, ofModules_represents hdistinct⟩

end ImportGraph

end ModularGrammar
