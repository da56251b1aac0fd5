import ModularGrammar.Module.Basic

/-!
# Import graphs

Which module imports which.  There is a node for every module and at most one edge from a module to
another, or to itself, however many imports there are between them.  An import of something that is
no node adds nothing.
-/

namespace ModularGrammar

structure ImportGraph.Node where
  name : String
  priority : Int64
deriving DecidableEq, Inhabited

/-- All that one module imports from another; both are given by their place among the nodes. -/
structure ImportGraph.Edge where
  importer : Nat
  imported : Nat
  /-- The names the importing module uses, for the imports that bind one. -/
  bindings : List String
deriving DecidableEq, Repr, Inhabited

/-- Modules and their imports. -/
structure ImportGraph where
  nodes : List ImportGraph.Node
  edges : List ImportGraph.Edge
deriving DecidableEq, Inhabited

namespace ImportGraph

/-! ## Building -/

/-- The places of nodes by their names.  Of several nodes with one name the last one counts. -/
def places (nodes : List Node) : Table Nat :=
  .ofList (nodes.zipIdx.map fun (node, place) => (node.name, place))

/-- The edges after one import more; the edges keep their order, and a new one comes last. -/
def addBinding (importer imported : Nat) (bindings : List String) : List Edge → List Edge
  | [] => [⟨importer, imported, bindings⟩]
  | edge :: edges =>
    if edge.importer = importer ∧ edge.imported = imported then
      { edge with bindings := edge.bindings ++ bindings } :: edges
    else edge :: addBinding importer imported bindings edges

/-- The edges after an import of the module at the place `importer`. -/
def addImport (places : Table Nat) (importer : Nat) (edges : List Edge) (i : Import) : List Edge :=
  match places.get? i.origin with
  | none => edges
  | some imported => addBinding importer imported (if i.binds then [i.localName] else []) edges

/-- The edges after all imports of a module. -/
def addImports (places : Table Nat) (edges : List Edge) (m : Module) : List Edge :=
  match places.get? m.name with
  | none => edges
  | some importer => m.imports.foldl (addImport places importer) edges

/-- The import graph of some modules. -/
def ofModules (modules : List Module) : ImportGraph :=
  let nodes := modules.map fun m => (⟨m.name, m.priority⟩ : Node)
  { nodes, edges := modules.foldl (addImports (places nodes)) [] }

/-! ## Consulting -/

/-- The names of the modules that import the given one. -/
def importersOf (graph : ImportGraph) (name : String) : List String :=
  match (places graph.nodes).get? name with
  | none => []
  | some place =>
    (graph.edges.filter fun edge => edge.imported = place).filterMap fun edge =>
      graph.nodes[edge.importer]?.map Node.name

end ImportGraph

end ModularGrammar
