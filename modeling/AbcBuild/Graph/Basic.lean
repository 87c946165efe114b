/-
Module: AbcBuild.Graph.Basic
Purpose: Finite directed graphs whose edges keep the order in which they were added, and depth-first search.
Main exports: Graph, Graph.addEdge, Graph.visit, Graph.order
-/

namespace AbcBuild

/-- A directed graph.  No edge stands twice; the oldest comes first. -/
structure Graph where
  nodes : List Nat := []
  edges : List (Nat × Nat) := []
deriving Repr, DecidableEq, Inhabited

namespace Graph

/-- Add an edge that is not there yet. -/
def addEdge (g : Graph) (source target : Nat) : Graph :=
  if g.edges.contains (source, target) then g else { g with edges := g.edges ++ [(source, target)] }

/-- The targets of the edges of a node, oldest edge first. -/
def successors (g : Graph) (node : Nat) : List Nat :=
  (g.edges.filter fun e => e.1 = node).map Prod.snd

/-- What a depth-first search has discovered, newest first, and finished, oldest first. -/
structure Search where
  discovered : List Nat := []
  finished : List Nat := []
deriving Repr, DecidableEq, Inhabited

/-- Search from a node, through its neighbours in order; `depth` bounds the length of the path. -/
def visit (neighbours : Nat → List Nat) : Nat → Search → Nat → Search
  | 0, search, _ => search
  | depth + 1, search, node =>
    if search.discovered.contains node then search
    else
      let inner := (neighbours node).foldl (visit neighbours depth)
        { search with discovered := node :: search.discovered }
      { inner with finished := inner.finished ++ [node] }

/-- No path of distinct nodes is longer than this. -/
def depth (g : Graph) : Nat := g.nodes.length + 1

/-- The nodes in the order in which a search from each of them in turn finishes them. -/
def finished (g : Graph) (neighbours : Nat → List Nat) : List Nat :=
  (g.nodes.foldl (visit neighbours g.depth) {}).finished

/-- The nodes, each before its successors if there is no cycle. -/
def order (g : Graph) : List Nat := (g.finished g.successors).reverse

end Graph

end AbcBuild
