/-
Module: AbcBuild.DependencyOrder
Purpose: The order in which the units of a build are worked on: a unit comes after the units that define what
  it inherits.  Units that inherit from each other in a circle are reported.
Main exports: Context.dependencyGraph, Context.dependencyOrder
-/
import AbcBuild.Context
import AbcBuild.Graph.Components
import AbcBuild.Text.Order

namespace AbcBuild.Context

/-- The source, with a unit, that defines an inherited name. -/
def ancestor? (cx : Context) (name : QName) : Option Nat := do
  let source ← cx.registry.definedIn? name
  let index ← cx.indexOf? source
  let _ ← cx.unit? index
  return index

/-- Add an edge from each source that defines one of the names to the unit at `index`. -/
def addAncestors (index : Nat) : List Name → Graph × Context → Graph × Context
  | [], state => state
  | name :: rest, (graph, cx) =>
    let (found, cx) := cx.resolveName name
    match found.bind cx.ancestor? with
    | none => addAncestors index rest (graph, cx)
    | some ancestor =>
      addAncestors index rest (if ancestor = index then graph else graph.addEdge ancestor index, cx)

/-- The places of the sources that have a unit. -/
def unitIndices (cx : Context) : List Nat :=
  (List.range cx.sources.length).filter fun index => (cx.unit? index).isSome

/-- The units, with an edge from each to those that inherit from it. -/
def dependencyGraph (cx : Context) : Graph × Context :=
  let indices := cx.unitIndices
  indices.foldl
    (fun (graph, cx) index =>
      addAncestors index ((cx.unit? index).elim [] fun u => u.dependencies.inheritance) (graph, cx))
    ({ nodes := indices }, cx)

/-- The names of the sources of a cycle, in order. -/
def cycleText (cx : Context) (cycle : List Nat) : String :=
  Text.joinWith ", " (Text.sorted (cycle.filterMap fun index => cx.sources[index]?.map fun s =>
    s.source.name))

/-- The order of the units; none if there are cycles, each of which is then reported. -/
def dependencyOrder (cx : Context) : Option (List Nat) × Context :=
  let (graph, cx) := cx.dependencyGraph
  match graph.cycles with
  | [] => (some graph.order, cx)
  | cycles =>
    (none, cycles.foldl (fun cx cycle => cx.report .error none (.inheritanceCycle (cx.cycleText cycle))) cx)

end AbcBuild.Context
