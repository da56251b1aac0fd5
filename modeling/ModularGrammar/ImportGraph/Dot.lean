import ModularGrammar.Decimal
import ModularGrammar.ImportGraph
import ModularGrammar.Text.Quoted
import ModularGrammar.Text.Segment

/-!
# Drawings of import graphs

The text from which Graphviz draws an import graph.  Nodes are labelled with name and priority,
edges with the names they bind; an edge that binds nothing is dashed.
-/

namespace ModularGrammar.ImportGraph

/-- The name of the node at a place. -/
def nodeName (place : Nat) : String := "m" ++ String.ofList (Decimal.writeNat place)

def nodeLine (node : Node) (place : Nat) : String :=
  "  " ++ nodeName place ++ " [label=\"" ++ Text.escape node.name ++ "\\npriority " ++
    Decimal.int64 node.priority ++ "\"];\n"

/-- What an edge looks like. -/
def edgeStyle (bindings : List String) : String :=
  if bindings.isEmpty then "style=dashed" else "label=" ++ Text.inQuotes (Text.join ", " bindings)

def edgeLine (edge : Edge) : String :=
  "  " ++ nodeName edge.importer ++ " -> " ++ nodeName edge.imported ++ " [" ++
    edgeStyle edge.bindings ++ "];\n"

def opening : String :=
  "digraph Modules \x7b\n  rankdir=LR;\n  node [shape=box, style=filled, fillcolor=lightgrey];\n"

def closing : String := "\x7d\n"

def dot (graph : ImportGraph) : String :=
  opening ++ Text.join "" (graph.nodes.zipIdx.map fun (node, place) => nodeLine node place) ++
    Text.join "" (graph.edges.map edgeLine) ++ closing

end ModularGrammar.ImportGraph
