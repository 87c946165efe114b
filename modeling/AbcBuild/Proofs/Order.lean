/-
Module: AbcBuild.Proofs.Order
Purpose: The graph through which the units of a build are put in order.  It is told by what the sources
  define and inherit and by what the registry takes references for before it is built.
Main exports: Context.ancestry, Context.graphOf, Context.cycles_graphOf_eq_nil_iff,
  Context.dependencyOrder_eq
-/
import AbcBuild.DependencyOrder
import AbcBuild.Proofs.Answers
import AbcBuild.Proofs.Search

namespace AbcBuild.Context

variable {cx cx' cx'' : Context}

/-! ### Graphs of ancestors -/

/-- Add an edge from each of the nodes, apart from the target itself. -/
def addEdges (target : Nat) (sources : List Nat) (graph : Graph) : Graph :=
  sources.foldl (fun graph source => if source = target then graph else graph.addEdge source target) graph

/-- The graph of nodes with edges from their ancestors. -/
def graphOf (nodes : List Nat) (ancestors : Nat → List Nat) : Graph :=
  nodes.foldl (fun graph index => addEdges index (ancestors index) graph) { nodes := nodes }

/-- An edge that is there already is not added twice, so only its presence can be told. -/
theorem mem_edges_addEdge {graph : Graph} {source target : Nat} {e : Nat × Nat} :
    e ∈ (graph.addEdge source target).edges ↔ e ∈ graph.edges ∨ e = (source, target) := by
  unfold Graph.addEdge
  split
  next there =>
    refine ⟨Or.inl, fun h => h.elim id fun new => ?_⟩
    rw [new]
    simpa using there
  next => rw [List.mem_append, List.mem_singleton]

/-- Edges lead from the sources to the target; a node has none to itself. -/
theorem addEdges_eq (target : Nat) (sources : List Nat) (graph : Graph) :
    (addEdges target sources graph).nodes = graph.nodes ∧
      ∀ e, e ∈ (addEdges target sources graph).edges ↔
        e ∈ graph.edges ∨ e.2 = target ∧ e.1 ∈ sources ∧ e.1 ≠ target := by
  induction sources generalizing graph with
  | nil => exact ⟨rfl, by simp [addEdges]⟩
  | cons source rest ih =>
    obtain ⟨nodes, edges⟩ := ih (if source = target then graph else graph.addEdge source target)
    have same : (if source = target then graph else graph.addEdge source target).nodes = graph.nodes := by
      unfold Graph.addEdge
      split
      next => rfl
      next => split <;> rfl
    refine ⟨nodes.trans same, fun e => (edges e).trans ?_⟩
    split
    next self =>
      subst self
      simp only [List.mem_cons]
      grind
    next other =>
      obtain ⟨from', to'⟩ := e
      simp only [mem_edges_addEdge, List.mem_cons, Prod.mk.injEq]
      grind

/-- The graph has the given nodes, and an edge to each of them from each of its ancestors. -/
theorem graphOf_eq (nodes : List Nat) (ancestors : Nat → List Nat) :
    (graphOf nodes ancestors).nodes = nodes ∧
      ∀ e, e ∈ (graphOf nodes ancestors).edges ↔ e.2 ∈ nodes ∧ e.1 ∈ ancestors e.2 ∧ e.1 ≠ e.2 := by
  have fold (indices : List Nat) (graph : Graph) :
      (indices.foldl (fun graph index => addEdges index (ancestors index) graph) graph).nodes = graph.nodes ∧
        ∀ e, e ∈ (indices.foldl (fun graph index => addEdges index (ancestors index) graph) graph).edges ↔
          e ∈ graph.edges ∨ e.2 ∈ indices ∧ e.1 ∈ ancestors e.2 ∧ e.1 ≠ e.2 := by
    induction indices generalizing graph with
    | nil => exact ⟨rfl, by simp⟩
    | cons index rest ih =>
      obtain ⟨nodes, edges⟩ := ih (addEdges index (ancestors index) graph)
      obtain ⟨nodes', edges'⟩ := addEdges_eq index (ancestors index) graph
      refine ⟨nodes.trans nodes', fun e => (edges e).trans ?_⟩
      rw [edges' e, List.mem_cons]
      grind
  obtain ⟨kept, edges⟩ := fold nodes { nodes := nodes }
  exact ⟨kept, fun e => (edges e).trans (by simp)⟩

@[simp] theorem nodes_graphOf (nodes : List Nat) (ancestors : Nat → List Nat) :
    (graphOf nodes ancestors).nodes = nodes :=
  (graphOf_eq nodes ancestors).1

variable {nodes : List Nat} {ancestors : Nat → List Nat}

/-- There is an edge from each other node that is an ancestor. -/
theorem edge_graphOf {a b : Nat} :
    (graphOf nodes ancestors).Edge a b ↔ b ∈ nodes ∧ a ∈ ancestors b ∧ a ≠ b :=
  Graph.edge_iff.trans ((graphOf_eq nodes ancestors).2 (a, b))

theorem closed_graphOf (inside : ∀ b ∈ nodes, ∀ a ∈ ancestors b, a ∈ nodes) :
    (graphOf nodes ancestors).Closed := by
  intro e edge
  obtain ⟨here, among, -⟩ := ((graphOf_eq nodes ancestors).2 e).1 edge
  rw [nodes_graphOf]
  exact ⟨inside e.2 here e.1 among, here⟩

/-- The graph has no cycles to report exactly if no node leads back to itself. -/
theorem cycles_graphOf_eq_nil_iff (inside : ∀ b ∈ nodes, ∀ a ∈ ancestors b, a ∈ nodes)
    (distinct : nodes.Nodup) :
    (graphOf nodes ancestors).cycles = [] ↔ ∀ a, ¬Relation.TransGen (graphOf nodes ancestors).Edge a a :=
  Graph.cycles_eq_nil_iff (closed_graphOf inside) (by rwa [nodes_graphOf]) fun _ loop =>
    (edge_graphOf.1 loop).2.2 rfl

/-! ### The graph of a build -/

theorem Asks.ancestor? (h : cx.Asks cx') : cx'.ancestor? = cx.ancestor? := by
  obtain ⟨r, rfl, resolves⟩ := h
  funext name
  simp only [Context.ancestor?, Registry.definedIn?, resolves.definitions]
  rfl

/-- The edges to a unit come from the units that define what it inherits, and names are only asked for. -/
theorem addAncestors_eq (cx : Context) (index : Nat) (names : List Name) (graph : Graph) :
    ∃ cx', addAncestors index names (graph, cx) =
        (addEdges index (names.filterMap fun n => (cx.registry.answer n).bind cx.ancestor?) graph, cx') ∧
      cx.Asks cx' := by
  induction names generalizing graph cx with
  | nil => exact ⟨cx, rfl, .refl cx⟩
  | cons n rest ih =>
    obtain ⟨answered, asks⟩ := cx.asks_resolveName n
    rw [addAncestors]
    cases resolved : cx.resolveName n with
    | mk found cx₁ =>
      rw [resolved] at answered asks
      simp only at answered asks ⊢
      rw [answered, asks.ancestor?]
      have later (graph : Graph) := ih cx₁ graph
      rw [asks.ancestor?, asks.answer] at later
      split
      next absent =>
        obtain ⟨cx', added, asks'⟩ := later graph
        refine ⟨cx', ?_, asks.trans asks'⟩
        rw [List.filterMap_cons, absent]
        exact added
      next ancestor taken =>
        obtain ⟨cx', added, asks'⟩ :=
          later (if ancestor = index then graph else graph.addEdge ancestor index)
        refine ⟨cx', ?_, asks.trans asks'⟩
        rw [List.filterMap_cons, taken]
        exact added

/-- The places of the units that a unit inherits from. -/
def ancestry (cx : Context) (index : Nat) : List Nat :=
  ((cx.unit? index).elim [] fun u => u.dependencies.inheritance).filterMap fun n =>
    (cx.registry.answer n).bind cx.ancestor?

theorem Asks.ancestry (h : cx.Asks cx') : cx'.ancestry = cx.ancestry := by
  funext index
  unfold Context.ancestry
  rw [h.answer, h.ancestor?]
  obtain ⟨r, rfl, -⟩ := h
  rfl

/-- The graph of a build is that of its units, each with those that it inherits from. -/
theorem dependencyGraph_eq (cx : Context) :
    ∃ cx', cx.dependencyGraph = (graphOf cx.unitIndices cx.ancestry, cx') ∧ cx.Asks cx' := by
  simp only [dependencyGraph, graphOf]
  generalize ({ nodes := cx.unitIndices } : Graph) = graph
  generalize cx.unitIndices = indices
  induction indices generalizing graph cx with
  | nil => exact ⟨cx, rfl, .refl cx⟩
  | cons index rest ih =>
    obtain ⟨cx₁, first, asks⟩ :=
      cx.addAncestors_eq index ((cx.unit? index).elim [] fun u => u.dependencies.inheritance) graph
    obtain ⟨cx₂, later, asks'⟩ := ih cx₁ (addEdges index (cx.ancestry index) graph)
    rw [asks.ancestry] at later
    refine ⟨cx₂, ?_, asks.trans asks'⟩
    simp only [List.foldl_cons, first]
    exact later

/-- Report each of the cycles. -/
def reportCycles (cycles : List (List Nat)) (cx : Context) : Context :=
  cycles.foldl (fun cx cycle => cx.report .error none (.inheritanceCycle (cx.cycleText cycle))) cx

theorem store_reportCycles (cycles : List (List Nat)) (cx : Context) :
    (reportCycles cycles cx).store = cx.store := by
  induction cycles generalizing cx with
  | nil => rfl
  | cons cycle rest ih => exact ih _

/-- The order is that of the graph, if there are no cycles. -/
theorem dependencyOrder_eq (cx : Context) :
    ∃ cx', cx.Asks cx' ∧ cx.dependencyOrder =
      if (graphOf cx.unitIndices cx.ancestry).cycles
        = [] then (some (graphOf cx.unitIndices cx.ancestry).order, cx')
      else (none, reportCycles (graphOf cx.unitIndices cx.ancestry).cycles cx') := by
  obtain ⟨cx', graph, asks⟩ := dependencyGraph_eq cx
  refine ⟨cx', asks, ?_⟩
  simp only [dependencyOrder, graph]
  cases (graphOf cx.unitIndices cx.ancestry).cycles with
  | nil | cons => rfl

end AbcBuild.Context
