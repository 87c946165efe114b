/-
Module: AbcBuild.Graph.Components
Purpose: Which nodes of a graph lie on common cycles.
Main exports: Graph.reaches, Graph.connected, Graph.cycles
-/
import AbcBuild.Graph.Basic

namespace AbcBuild.Graph

/-- There is a path from the first node to the second; the empty path counts. -/
def reaches (g : Graph) (source target : Nat) : Bool :=
  (visit g.successors g.depth {} source).discovered.contains target

/-- Both nodes lie on a common cycle, or are the same. -/
def connected (g : Graph) (a b : Nat) : Bool := g.reaches a b && g.reaches b a

/-- The nodes that lie on common cycles with a node, and that node. -/
def component (g : Graph) (node : Nat) : List Nat := g.nodes.filter (g.connected node)

/-- Of each component its last node. -/
def lastOfEach (g : Graph) : List Nat → List Nat
  | [] => []
  | node :: rest => if rest.any (g.connected node) then lastOfEach g rest else node :: lastOfEach g rest

/-- The components in the order in which a search that follows the newest edge first completes them. -/
def components (g : Graph) : List (List Nat) :=
  (lastOfEach g (g.finished fun node => (g.successors node).reverse)).map g.component

/-- The components with more than one node.  No node has an edge to itself, so these are the cycles. -/
def cycles (g : Graph) : List (List Nat) := g.components.filter fun c => 1 < c.length

end AbcBuild.Graph
