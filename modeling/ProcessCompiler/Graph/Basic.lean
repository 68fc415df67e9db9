import ProcessCompiler.Graph.Node
import ProcessCompiler.Index
/-!
# Process graphs

The nodes of a process in the order they were registered, with an index
from a node's name to its place.
-/

namespace ProcessCompiler

/-- The nodes of a process. -/
structure Graph where
  nodes : Array Node
  /-- The place of each node, by its name. -/
  places : Index Nat

namespace Graph

/-- The graph without nodes. -/
def empty : Graph := ⟨#[], .empty⟩

/-- A node with the given name is registered. -/
def contains (g : Graph) (id : String) : Bool := g.places.contains id

/-- Register a node, and say whether that was done: a name that is taken
leaves the graph as it was. -/
def insert (g : Graph) (n : Node) : Graph × Bool :=
  if g.contains n.id then (g, false)
  else (⟨g.nodes.push n, g.places.insertNew n.id g.nodes.size⟩, true)

/-- The node with the given name. -/
def get? (g : Graph) (id : String) : Option Node :=
  (g.places.get? id).bind fun place => g.nodes[place]?

/-- The nodes in the order they were registered. -/
def toList (g : Graph) : List Node := g.nodes.toList

/-- The number of nodes. -/
def size (g : Graph) : Nat := g.nodes.size

/-- The start events in the order they were registered. -/
def startEvents (g : Graph) : List Node := g.toList.filter (·.isStart)

end Graph

end ProcessCompiler
