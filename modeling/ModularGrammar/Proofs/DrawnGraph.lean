import Mathlib.Data.List.Basic
import ModularGrammar.ImportGraph.Dot
import ModularGrammar.Proofs.WrittenDirectives

/-!
# Drawings Are Read Back

The text of a drawing tells the graph.  It is read by the form of its statements alone, a quoted
string up to the first quote that no unpaired backslash stands before, so whatever the names of
modules and bindings are, none of them ends its label early or is taken for another part of the
text.

## Architecture

1. `quoted?`, `Sealed`: where quoted strings end
2. `firstLine`: labels, their escapes and their line breaks
3. `node?`, `edge?`, `Drawing.read?`: statements and whole drawings
4. `read?_dot`: the drawing of a graph is read back
5. `Whole`, `join_inj`: which joined names can be told apart
6. `dot_eq_iff`: which graphs are drawn alike
7. `dot_readBack`: what a drawing tells
-/

namespace ModularGrammar.ImportGraph

/-! ## Quoted strings -/

/-- Behind an opening quote: the text up to the first quote that no unpaired backslash stands
before, and what follows that quote. -/
def quoted? : List Char → Option (List Char × List Char)
  | [] => none
  | '"' :: rest => some ([], rest)
  | ['\\'] => none
  | '\\' :: c :: rest => (quoted? rest).map fun (body, after) => ('\\' :: c :: body, after)
  | c :: rest => (quoted? rest).map fun (body, after) => (c :: body, after)

/-- A text in which every backslash stands before a character of its own, and every quote behind
such a backslash. -/
inductive Sealed : List Char → Prop where
  | nil : Sealed []
  | escaped (c : Char) {cs : List Char} (h : Sealed cs) : Sealed ('\\' :: c :: cs)
  | plain {c : Char} {cs : List Char} (hquote : c ≠ '"') (hbackslash : c ≠ '\\') (h : Sealed cs) :
      Sealed (c :: cs)

theorem Sealed.append {cs ds : List Char} (hcs : Sealed cs) (hds : Sealed ds) :
    Sealed (cs ++ ds) := by
  induction hcs with
  | nil => exact hds
  | escaped c h ih => exact .escaped c ih
  | plain hquote hbackslash h ih => exact .plain hquote hbackslash ih

theorem sealed_of_forall {cs : List Char} (h : ∀ c ∈ cs, c ≠ '"' ∧ c ≠ '\\') : Sealed cs := by
  induction cs with
  | nil => exact .nil
  | cons c cs ih =>
    rw [List.forall_mem_cons] at h
    exact .plain h.1.1 h.1.2 (ih h.2)

/-- Whatever a text is, it is sealed once it has been escaped. -/
theorem sealed_escapeFor (cs : List Char) : Sealed (Text.escapeFor '"' cs) := by
  induction cs with
  | nil => exact .nil
  | cons c cs ih =>
    rw [Text.escapeFor]
    split
    · exact .escaped c ih
    · next h =>
      rw [not_or] at h
      exact .plain h.2 h.1 ih

/-- A quoted string ends at the first quote behind a sealed text. -/
theorem quoted?_eq_some_iff {cs body rest : List Char} :
    quoted? cs = some (body, rest) ↔ Sealed body ∧ cs = body ++ '"' :: rest := by
  constructor
  · intro h
    fun_induction quoted? cs generalizing body with
    | case1 => cases h
    | case2 rest =>
      cases h
      exact ⟨.nil, rfl⟩
    | case3 => cases h
    | case4 c rest ih =>
      obtain ⟨⟨inner, after⟩, hinner, heq⟩ := Option.map_eq_some_iff.mp h
      cases heq
      obtain ⟨hsealed, rfl⟩ := ih hinner
      exact ⟨.escaped c hsealed, rfl⟩
    | case5 c rest hquote hlast hescaped ih =>
      -- a backslash that is neither last nor before a character would stand nowhere
      have hbackslash : c ≠ '\\' := by
        rintro rfl
        cases rest with
        | nil => exact hlast rfl rfl
        | cons d rest => exact hescaped d rest rfl rfl
      obtain ⟨⟨inner, after⟩, hinner, heq⟩ := Option.map_eq_some_iff.mp h
      cases heq
      obtain ⟨hsealed, rfl⟩ := ih hinner
      exact ⟨.plain hquote hbackslash hsealed, rfl⟩
  · rintro ⟨hsealed, rfl⟩
    induction hsealed with
    | nil => simp [quoted?]
    | escaped c h ih => simp [quoted?, ih]
    | plain hquote hbackslash h ih => simp [quoted?, hbackslash, ih]

/-! ## Labels -/

/-- The first line of a label, with its escapes resolved; if the line ends with a line break, also
what stands behind it. -/
def firstLine : List Char → List Char × Option (List Char)
  | [] => ([], none)
  | '\\' :: 'n' :: rest => ([], some rest)
  | '\\' :: c :: rest => (c :: (firstLine rest).1, (firstLine rest).2)
  | c :: rest => (c :: (firstLine rest).1, (firstLine rest).2)

/-- Escaping is undone, and no line break is found in an escaped text. -/
theorem firstLine_escapeFor_append (cs rest : List Char) :
    firstLine (Text.escapeFor '"' cs ++ rest) =
      (cs ++ (firstLine rest).1, (firstLine rest).2) := by
  induction cs with
  | nil => rfl
  | cons c cs ih =>
    rw [Text.escapeFor]
    split
    · next h =>
      -- what is escaped is a backslash or a quote, and so no line break
      have hn : c ≠ 'n' := by
        rcases h with rfl | rfl <;> decide
      simp [firstLine, ih]
    · next h =>
      rw [not_or] at h
      simp [firstLine, h.1, ih]

/-! ## Statements -/

structure DrawnEdge where
  importer : Nat
  imported : Nat
  /-- The label; a dashed edge has none. -/
  label : Option String
deriving DecidableEq, Repr

/-- All that a drawing shows: the nodes under their numbers, and the edges. -/
structure Drawing where
  nodes : List (Nat × Node)
  edges : List DrawnEdge
deriving DecidableEq

def number? (cs : List Char) : Option (Nat × List Char) :=
  (Decimal.readNat? (Numeral.spanDigits cs).1).map fun n => (n, (Numeral.spanDigits cs).2)

/-- The node that the statement at the front of a text is about: the name stands on the first line
of its label and the priority on the second. -/
def node? (cs : List Char) : Option ((Nat × Node) × List Char) := do
  let cs ← Text.dropStart? "  m".toList cs
  let (place, cs) ← number? cs
  let cs ← Text.dropStart? " [label=\"".toList cs
  let (label, cs) ← quoted? cs
  let cs ← Text.dropStart? "];\n".toList cs
  let second ← (firstLine label).2
  let priority ← Decimal.readInt64? (← Text.dropStart? "priority ".toList second)
  return ((place, ⟨String.ofList (firstLine label).1, priority⟩), cs)

/-- What an edge looks like according to the text at whose front this stands. -/
def style? (cs : List Char) : Option (Option String × List Char) :=
  match Text.dropStart? "style=dashed".toList cs with
  | some cs => some (none, cs)
  | none => do
    let cs ← Text.dropStart? "label=\"".toList cs
    let (label, cs) ← quoted? cs
    match firstLine label with
    | (line, none) => return (some (String.ofList line), cs)
    | (_, some _) => none

/-- The edge that the statement at the front of a text is about. -/
def edge? (cs : List Char) : Option (DrawnEdge × List Char) := do
  let cs ← Text.dropStart? "  m".toList cs
  let (importer, cs) ← number? cs
  let cs ← Text.dropStart? " -> m".toList cs
  let (imported, cs) ← number? cs
  let cs ← Text.dropStart? " [".toList cs
  let (label, cs) ← style? cs
  let cs ← Text.dropStart? "];\n".toList cs
  return (⟨importer, imported, label⟩, cs)

/-- As many things as can be read off the front of a text, and what follows them. -/
def many {α : Type} (item? : List Char → Option (α × List Char)) (cs : List Char) :
    List α × List Char :=
  match item? cs with
  | none => ([], cs)
  | some (item, rest) =>
    if _h : rest.length < cs.length then (item :: (many item? rest).1, (many item? rest).2)
    else ([], cs)
termination_by cs.length

/-- The drawing in a text: the header, nodes, edges, and the end. -/
def Drawing.read? (text : String) : Option Drawing := do
  let cs ← Text.dropStart? opening.toList text.toList
  let (nodes, cs) := many node? cs
  let (edges, cs) := many edge? cs
  if cs = closing.toList then some ⟨nodes, edges⟩ else none

/-- What a drawing shows of an edge: the names it binds, joined, if there are any. -/
def Edge.drawn (edge : Edge) : DrawnEdge :=
  ⟨edge.importer, edge.imported,
    if edge.bindings = [] then none else some (Text.join ", " edge.bindings)⟩

/-- What a drawing shows of a graph. -/
def drawing (graph : ImportGraph) : Drawing where
  nodes := graph.nodes.zipIdx.map fun (node, place) => (place, node)
  edges := graph.edges.map Edge.drawn

/-! ## Written statements -/

theorem number?_append (n : Nat) {rest : List Char} (hrest : Numeral.Ends rest) :
    number? (Decimal.writeNat n ++ rest) = some (n, rest) := by
  have hspan : Numeral.spanDigits (Decimal.writeNat n ++ rest) = (Decimal.writeNat n, rest) :=
    Numeral.spanDigits_append (fun _ hc => Numeral.isDigit_of_mem_writeNat hc) hrest
  rw [number?, hspan, Decimal.readNat?_writeNat]
  rfl

theorem ends_space (cs : List Char) : Numeral.Ends (' ' :: cs) :=
  Numeral.ends_cons.mpr (by decide)

/-- The label of a node: its name, a line break, and its priority. -/
def nodeLabel (node : Node) : List Char :=
  Text.escapeFor '"' node.name.toList ++ '\\' :: 'n' ::
    ("priority ".toList ++ (Decimal.int64 node.priority).toList)

theorem notMem_secondLine (priority : Int64) {c : Char} (h : c = '"' ∨ c = '\\') :
    c ∉ "priority ".toList ++ (Decimal.int64 priority).toList := by
  intro hmem
  rcases List.mem_append.mp hmem with hword | hdigits
  · rcases h with rfl | rfl <;> revert hword <;> decide
  · rcases Decimal.mem_int64 hdigits with hdigit | rfl
    · rcases h with rfl | rfl <;> exact absurd hdigit (by decide)
    · exact absurd h (by decide)

theorem sealed_nodeLabel (node : Node) : Sealed (nodeLabel node) := by
  apply (sealed_escapeFor _).append
  apply Sealed.escaped
  apply sealed_of_forall
  intro c hc
  exact ⟨fun h => notMem_secondLine _ (.inl h) hc, fun h => notMem_secondLine _ (.inr h) hc⟩

theorem toList_nodeLine (node : Node) (place : Nat) (rest : List Char) :
    (nodeLine node place).toList ++ rest = "  m".toList ++ (Decimal.writeNat place ++
      (" [label=\"".toList ++ (nodeLabel node ++ '"' :: ("];\n".toList ++ rest)))) := by
  simp [nodeLine, nodeName, nodeLabel, Text.escape]

/-- The statement for a node is read back whatever follows it. -/
theorem node?_nodeLine (node : Node) (place : Nat) (rest : List Char) :
    node? ((nodeLine node place).toList ++ rest) = some ((place, node), rest) := by
  have hnumber : ∀ cs, number? (Decimal.writeNat place ++ (" [label=\"".toList ++ cs)) =
      some (place, " [label=\"".toList ++ cs) := fun cs => number?_append place (ends_space _)
  have hquoted : quoted? (nodeLabel node ++ '"' :: ("];\n".toList ++ rest)) =
      some (nodeLabel node, "];\n".toList ++ rest) :=
    quoted?_eq_some_iff.mpr ⟨sealed_nodeLabel node, rfl⟩
  have hlabel : firstLine (nodeLabel node) =
      (node.name.toList, some ("priority ".toList ++ (Decimal.int64 node.priority).toList)) := by
    rw [nodeLabel, firstLine_escapeFor_append, firstLine, List.append_nil]
  rw [toList_nodeLine, node?]
  simp only [Text.dropStart?_append, hnumber, hquoted, hlabel, Decimal.readInt64?_int64,
    Option.bind_eq_bind, Option.bind_some, Option.pure_def, String.ofList_toList]

/-- What an edge looks like is read back whatever follows it. -/
theorem style?_edgeStyle (edge : Edge) (rest : List Char) :
    style? ((edgeStyle edge.bindings).toList ++ rest) = some (edge.drawn.label, rest) := by
  cases hbindings : edge.bindings with
  | nil =>
    have hdashed := Text.dropStart?_append "style=dashed".toList rest
    simp only [edgeStyle, List.isEmpty_nil, if_true, style?, hdashed, Edge.drawn, hbindings]
  | cons name names =>
    let joined := Text.join ", " (name :: names)
    have hstyle : (edgeStyle (name :: names)).toList ++ rest =
        "label=\"".toList ++ (Text.escapeFor '"' joined.toList ++ '"' :: rest) := by
      simp [edgeStyle, Text.inQuotes, Text.escape, joined]
    -- an edge with names is not taken for a dashed one
    have hdashed : Text.dropStart? "style=dashed".toList ("label=\"".toList ++
        (Text.escapeFor '"' joined.toList ++ '"' :: rest)) = none := rfl
    have hquoted : quoted? (Text.escapeFor '"' joined.toList ++ '"' :: rest) =
        some (Text.escapeFor '"' joined.toList, rest) :=
      quoted?_eq_some_iff.mpr ⟨sealed_escapeFor _, rfl⟩
    have hlabel : firstLine (Text.escapeFor '"' joined.toList) = (joined.toList, none) := by
      simpa [firstLine] using firstLine_escapeFor_append joined.toList []
    rw [hstyle, style?, hdashed]
    simp only [Text.dropStart?_append, hquoted, hlabel, Option.bind_eq_bind, Option.bind_some,
      Option.pure_def, String.ofList_toList]
    simp [Edge.drawn, hbindings, joined]

theorem toList_edgeLine (edge : Edge) (rest : List Char) :
    (edgeLine edge).toList ++ rest = "  m".toList ++ (Decimal.writeNat edge.importer ++
      (" -> m".toList ++ (Decimal.writeNat edge.imported ++ (" [".toList ++
        ((edgeStyle edge.bindings).toList ++ ("];\n".toList ++ rest)))))) := by
  simp [edgeLine, nodeName]

theorem number?_importer (edge : Edge) (cs : List Char) :
    number? (Decimal.writeNat edge.importer ++ (" -> m".toList ++ cs)) =
      some (edge.importer, " -> m".toList ++ cs) :=
  number?_append edge.importer (ends_space _)

/-- The statement for an edge is read back whatever follows it. -/
theorem edge?_edgeLine (edge : Edge) (rest : List Char) :
    edge? ((edgeLine edge).toList ++ rest) = some (edge.drawn, rest) := by
  have himported : ∀ cs, number? (Decimal.writeNat edge.imported ++ (" [".toList ++ cs)) =
      some (edge.imported, " [".toList ++ cs) :=
    fun cs => number?_append edge.imported (ends_space _)
  rw [toList_edgeLine, edge?]
  simp only [Text.dropStart?_append, number?_importer, himported, style?_edgeStyle,
    Option.bind_eq_bind, Option.bind_some, Option.pure_def]
  rfl

/-- The statement for an edge is none for a node. -/
theorem node?_edgeLine (edge : Edge) (rest : List Char) :
    node? ((edgeLine edge).toList ++ rest) = none := by
  have hlabel : ∀ cs, Text.dropStart? " [label=\"".toList (" -> m".toList ++ cs) = none :=
    fun cs => rfl
  rw [toList_edgeLine, node?]
  simp only [Text.dropStart?_append, number?_importer, hlabel, Option.bind_eq_bind,
    Option.bind_some, Option.bind_none]

/-! ## Whole drawings -/

section Many

variable {α β : Type} {item? : List Char → Option (α × List Char)} {write : β → List Char}
  {shown : β → α} {stop : List Char}

/-- Things that are read back whatever follows them are read back one after the other, up to where
something else comes. -/
theorem many_flatMap (hread : ∀ b rest, item? (write b ++ rest) = some (shown b, rest))
    (hne : ∀ b, write b ≠ []) (hstop : item? stop = none) (items : List β) :
    many item? (items.flatMap write ++ stop) = (items.map shown, stop) := by
  induction items with
  | nil => rw [List.flatMap_nil, List.nil_append, many, hstop, List.map_nil]
  | cons b items ih =>
    have hlt : (items.flatMap write ++ stop).length <
        (write b ++ (items.flatMap write ++ stop)).length := by
      have hpos := List.length_pos_of_ne_nil (hne b)
      simp only [List.length_append]
      omega
    rw [List.flatMap_cons, List.append_assoc, many, hread]
    simp only [hlt, dite_true, ih, List.map_cons]

end Many

theorem toList_join_empty (parts : List String) :
    (Text.join "" parts).toList = parts.flatMap String.toList := by
  rw [Text.join_eq_intercalate, String.toList_intercalate]
  induction parts with
  | nil => rfl
  | cons part parts ih =>
    cases parts with
    | nil => simp
    | cons next others => simpa [List.intercalate_cons_cons] using ih

theorem toList_dot (graph : ImportGraph) : graph.dot.toList = opening.toList ++
    (graph.nodes.zipIdx.flatMap (fun (node, place) => (nodeLine node place).toList) ++
      (graph.edges.flatMap (fun edge => (edgeLine edge).toList) ++ closing.toList)) := by
  simp [dot, toList_join_empty, List.flatMap_map]

/-- The drawing of a graph is read back. -/
theorem read?_dot (graph : ImportGraph) : Drawing.read? graph.dot = some graph.drawing := by
  have hedges : many edge? (graph.edges.flatMap (fun edge => (edgeLine edge).toList) ++
      closing.toList) = (graph.edges.map Edge.drawn, closing.toList) := by
    apply many_flatMap edge?_edgeLine
    · intro edge
      simp [edgeLine]
    · rfl
  have hnodes : many node? (graph.nodes.zipIdx.flatMap
      (fun (node, place) => (nodeLine node place).toList) ++
        (graph.edges.flatMap (fun edge => (edgeLine edge).toList) ++ closing.toList)) =
      (graph.drawing.nodes,
        graph.edges.flatMap (fun edge => (edgeLine edge).toList) ++ closing.toList) := by
    apply many_flatMap
    · rintro ⟨node, place⟩ rest
      exact node?_nodeLine node place rest
    · rintro ⟨node, place⟩
      simp [nodeLine]
    · -- behind the nodes stands an edge or the end
      cases graph.edges with
      | nil => rfl
      | cons edge rest =>
        rw [List.flatMap_cons, List.append_assoc]
        exact node?_edgeLine edge _
  rw [Drawing.read?, toList_dot, Text.dropStart?_append]
  simp only [Option.bind_eq_bind, Option.bind_some, hnodes, hedges, if_true]
  rfl

/-! ## Joined names -/

/-- A text that does not hold what joined names are separated by. -/
def Whole (cs : List Char) : Prop := ¬ [',', ' '] <:+: cs

/-- No separator begins within a whole text and ends behind it. -/
theorem Whole.eq_nil {part rest rest' : List Char} (hpart : Whole part)
    (h : [',', ' '] ++ rest = part ++ ([',', ' '] ++ rest')) : part = [] := by
  match part with
  | [] => rfl
  | [c] => simp at h
  | c :: d :: part =>
    -- the separator on the left stands in the part
    simp only [List.cons_append, List.nil_append, List.cons.injEq] at h
    obtain ⟨rfl, rfl, -⟩ := h
    exact absurd ⟨[], part, rfl⟩ hpart

/-- Behind a whole text, the first separator is the one that was put there. -/
theorem Whole.append_inj {name other rest rest' : List Char} (hname : Whole name)
    (hother : Whole other)
    (h : name ++ ([',', ' '] ++ rest) = other ++ ([',', ' '] ++ rest')) :
    name = other ∧ rest = rest' := by
  have hwhole : ∀ {front part : List Char}, Whole (front ++ part) → Whole part := by
    intro front part hfront hpart
    exact hfront (hpart.trans (List.suffix_append front part).isInfix)
  rcases List.append_eq_append_iff.mp h with ⟨part, rfl, hrest⟩ | ⟨part, rfl, hrest⟩
  · obtain rfl := (hwhole hother).eq_nil hrest
    simpa using hrest
  · obtain rfl := (hwhole hname).eq_nil hrest
    simpa using hrest.symm

/-- Joined, whole texts can be told apart. -/
theorem joinChars_inj {parts others : List (List Char)} (hne : parts ≠ []) (hne' : others ≠ [])
    (hparts : ∀ part ∈ parts, Whole part) (hothers : ∀ part ∈ others, Whole part)
    (h : Text.joinChars [',', ' '] parts = Text.joinChars [',', ' '] others) : parts = others := by
  -- a part that holds a separator would not be whole
  have hholds : ∀ front rest : List Char, ¬ Whole (front ++ [',', ' '] ++ rest) := by
    intro front rest hwhole
    exact hwhole ⟨front, rest, rfl⟩
  induction parts generalizing others with
  | nil => exact absurd rfl hne
  | cons part parts ih =>
    cases others with
    | nil => exact absurd rfl hne'
    | cons other others =>
      rw [List.forall_mem_cons] at hparts hothers
      cases parts with
      | nil =>
        cases others with
        | nil => exact congrArg (fun p => [p]) h
        | cons next others =>
          have heq : part = other ++ [',', ' '] ++ Text.joinChars [',', ' '] (next :: others) := h
          exact absurd (heq ▸ hparts.1) (hholds _ _)
      | cons next parts =>
        cases others with
        | nil =>
          have heq : other = part ++ [',', ' '] ++ Text.joinChars [',', ' '] (next :: parts) :=
            h.symm
          exact absurd (heq ▸ hothers.1) (hholds _ _)
        | cons next' others =>
          simp only [Text.joinChars, List.append_assoc] at h
          -- the first separator ends the first part on both sides
          obtain ⟨rfl, hrest⟩ := hparts.1.append_inj hothers.1 h
          rw [ih (List.cons_ne_nil _ _) (List.cons_ne_nil _ _) hparts.2 hothers.2 hrest]

/-- Names none of which holds the separator are known from their joined text. -/
theorem join_inj {names others : List String} (hne : names ≠ []) (hne' : others ≠ [])
    (hnames : ∀ name ∈ names, Whole name.toList) (hothers : ∀ name ∈ others, Whole name.toList)
    (h : Text.join ", " names = Text.join ", " others) : names = others := by
  apply List.map_injective_iff.mpr fun _ _ => String.toList_injective
  apply joinChars_inj
  · simpa using hne
  · simpa using hne'
  · simpa using hnames
  · simpa using hothers
  · exact String.ofList_injective h

/-- What a drawing shows of an edge has no label if the edge binds nothing, and only then. -/
theorem Edge.label_drawn_eq_none_iff (edge : Edge) :
    edge.drawn.label = none ↔ edge.bindings = [] := by
  simp [Edge.drawn]

/-- An edge whose names can be told apart is known from what a drawing shows of it. -/
theorem Edge.eq_of_drawn_eq {edge other : Edge}
    (hedge : ∀ name ∈ edge.bindings, Whole name.toList)
    (hother : ∀ name ∈ other.bindings, Whole name.toList) (h : edge.drawn = other.drawn) :
    edge = other := by
  obtain ⟨importer, imported, bindings⟩ := edge
  obtain ⟨importer', imported', bindings'⟩ := other
  -- a drawing tells whether there are names, and then what they are
  have hlabel : bindings = [] ↔ bindings' = [] := by
    rw [← Edge.label_drawn_eq_none_iff ⟨importer, imported, bindings⟩, h,
      Edge.label_drawn_eq_none_iff]
  simp only [Edge.drawn, DrawnEdge.mk.injEq] at h
  obtain ⟨rfl, rfl, hjoin⟩ := h
  suffices bindings = bindings' by rw [this]
  by_cases hbindings : bindings = []
  · rw [hbindings, hlabel.mp hbindings]
  · have hbindings' : bindings' ≠ [] := fun hnil => hbindings (hlabel.mpr hnil)
    rw [if_neg hbindings, if_neg hbindings', Option.some.injEq] at hjoin
    exact join_inj hbindings hbindings' hedge hother hjoin

/-- Edges whose names can be told apart are known from what a drawing shows of them. -/
theorem edges_eq_of_drawn_eq {edges others : List Edge}
    (hedges : ∀ edge ∈ edges, ∀ name ∈ edge.bindings, Whole name.toList)
    (hothers : ∀ edge ∈ others, ∀ name ∈ edge.bindings, Whole name.toList)
    (h : edges.map Edge.drawn = others.map Edge.drawn) : edges = others := by
  induction edges generalizing others with
  | nil => exact (List.map_eq_nil_iff.mp h.symm).symm
  | cons edge edges ih =>
    obtain ⟨other, others, rfl, hfirst, hrest⟩ := List.map_eq_cons_iff.mp h.symm
    rw [List.forall_mem_cons] at hedges hothers
    rw [Edge.eq_of_drawn_eq hedges.1 hothers.1 hfirst.symm, ih hedges.2 hothers.2 hrest.symm]

/-! ## Graphs drawn alike -/

/-- The statement for an edge, from what a drawing shows of it. -/
def DrawnEdge.line (edge : DrawnEdge) : String :=
  "  " ++ nodeName edge.importer ++ " -> " ++ nodeName edge.imported ++ " [" ++
    (match edge.label with
      | none => "style=dashed"
      | some label => "label=" ++ Text.inQuotes label) ++ "];\n"

theorem DrawnEdge.line_drawn (edge : Edge) : edge.drawn.line = edgeLine edge := by
  obtain ⟨importer, imported, bindings⟩ := edge
  cases bindings <;> rfl

/-- Two graphs are drawn alike if they have the same nodes and the same is shown of their edges, and
only then. -/
theorem dot_eq_iff {graph other : ImportGraph} : other.dot = graph.dot ↔
    other.nodes = graph.nodes ∧ other.edges.map Edge.drawn = graph.edges.map Edge.drawn := by
  have hnodes : ∀ g : ImportGraph, g.drawing.nodes.map Prod.snd = g.nodes := by
    intro g
    simp [drawing, Function.comp_def]
  constructor
  · intro h
    -- what is drawn is read back, so equal texts show the same drawing
    have hdrawing : other.drawing = graph.drawing := by
      apply Option.some.inj
      rw [← read?_dot, h, read?_dot]
    constructor
    · rw [← hnodes other, hdrawing, hnodes graph]
    · exact congrArg Drawing.edges hdrawing
  · rintro ⟨hnodes, hedges⟩
    -- the text depends on the edges only through what is drawn of them
    have hlines : ∀ g : ImportGraph,
        g.edges.map edgeLine = (g.edges.map Edge.drawn).map DrawnEdge.line := by
      intro g
      simp [DrawnEdge.line_drawn]
    rw [dot, dot, hlines, hlines, hnodes, hedges]

/-! ## What a drawing tells -/

/-- What the text of its drawing tells of a graph. -/
structure ReadBack (graph : ImportGraph) : Prop where
  /-- All nodes and edges are read back, in their order. -/
  read : Drawing.read? graph.dot = some graph.drawing
  /-- An edge is dashed if it binds nothing, and only then. -/
  dashed : ∀ edge ∈ graph.edges, edge.drawn.label = none ↔ edge.bindings = []
  /-- Of two graphs that are drawn alike, the nodes are the same and so is what is shown of the
  edges. -/
  alike : ∀ other : ImportGraph, other.dot = graph.dot ↔
    other.nodes = graph.nodes ∧ other.edges.map Edge.drawn = graph.edges.map Edge.drawn
  /-- No other graph is drawn alike, up to names that hold what joined names are separated by. -/
  unique : ∀ other : ImportGraph,
    (∀ edge ∈ graph.edges ++ other.edges, ∀ name ∈ edge.bindings, Whole name.toList) →
      other.dot = graph.dot → other = graph

/-- Every graph is read back from its drawing. -/
theorem dot_readBack (graph : ImportGraph) : graph.ReadBack where
  read := read?_dot graph
  dashed := fun edge _ => edge.label_drawn_eq_none_iff
  alike := fun _ => dot_eq_iff
  unique := by
    intro other hwhole hdot
    rw [List.forall_mem_append] at hwhole
    obtain ⟨hnodes, hdrawn⟩ := dot_eq_iff.mp hdot
    have hedges := edges_eq_of_drawn_eq hwhole.2 hwhole.1 hdrawn
    obtain ⟨nodes, edges⟩ := graph
    obtain ⟨nodes', edges'⟩ := other
    exact congrArg₂ ImportGraph.mk hnodes hedges

/-- A name that holds the separator is drawn as two names are. -/
example : dot ⟨[], [⟨0, 0, ["a, b"]⟩]⟩ = dot ⟨[], [⟨0, 0, ["a", "b"]⟩]⟩ := rfl

end ModularGrammar.ImportGraph
