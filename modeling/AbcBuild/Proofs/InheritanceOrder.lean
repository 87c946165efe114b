/-
Module: AbcBuild.Proofs.InheritanceOrder
Purpose: The order of the units of a build is a topological order of the inheritance between them, and units
  that inherit from each other in a circle are reported, each group of them once.
Main exports: Text.sorted_pairwise, Context.InheritsFrom, Context.ReportsGroup, Context.dependencyOrder_sorts
-/
import AbcBuild.Proofs.Order
import AbcBuild.Schedule
import Mathlib.Data.List.Sort
import Mathlib.Data.String.Basic

namespace AbcBuild

/-! ### Sorted texts -/

namespace Text

theorem sorted_pairwise (texts : List String) : (sorted texts).Pairwise (· ≤ ·) :=
  List.pairwise_mergeSort' (· ≤ ·) texts

theorem sorted_perm (texts : List String) : (sorted texts).Perm texts := List.mergeSort_perm ..

end Text

namespace Context

open Relation (ReflTransGen TransGen)

/-! ### Inheritance between units -/

/-- The unit at the first place inherits a name that stands for a definition of the source at the second
    place, which is another one and has a unit. -/
def InheritsFrom (cx : Context) (child ancestor : Nat) : Prop :=
  child ≠ ancestor ∧ ∃ u ∈ cx.unit? child, ∃ n ∈ u.dependencies.inheritance,
    ∃ q ∈ (cx.registry.resolveName n).1,
    ∃ slot, cx.sources[ancestor]? = some slot ∧ slot.unit.isSome ∧
      cx.registry.definedIn? q = some slot.source.name

/-- Two units inherit from each other, directly or through others. -/
def Entangled (cx : Context) (i j : Nat) : Prop :=
  ReflTransGen cx.InheritsFrom i j ∧ ReflTransGen cx.InheritsFrom j i

/-- The diagnostic is an error that names the sources of a group, in order. -/
def ReportsGroup (cx : Context) (group : List Nat) (d : Diagnostic) : Prop :=
  ∃ names : List String, names.Perm (group.filterMap fun i => cx.sources[i]?.map fun slot =>
    slot.source.name) ∧ names.Pairwise (· ≤ ·) ∧
    d = { severity := .error, message := .inheritanceCycle (Text.joinWith ", " names), source := none }

variable {cx : Context}

@[simp] theorem mem_unitIndices {i : Nat} : i ∈ cx.unitIndices ↔ (cx.unit? i).isSome := by
  unfold unitIndices
  rw [List.mem_filter, List.mem_range]
  refine ⟨And.right, fun there => ⟨?_, there⟩⟩
  obtain ⟨u, found⟩ := Option.isSome_iff_exists.1 there
  obtain ⟨slot, held, -⟩ := Option.bind_eq_some_iff.1 found
  exact (List.getElem?_eq_some_iff.1 held).1

/-- The units that a unit inherits from are units of the build, so that no edge leaves the graph. -/
theorem closed_graph (cx : Context) : ∀ b ∈ cx.unitIndices, ∀ a ∈ cx.ancestry b, a ∈ cx.unitIndices := by
  intro b _ a inherited
  obtain ⟨n, -, led⟩ := List.mem_filterMap.1 inherited
  obtain ⟨q, -, there⟩ := Option.bind_eq_some_iff.1 led
  simp only [ancestor?, Option.bind_eq_bind, Option.bind_eq_some_iff] at there
  obtain ⟨-, -, i, -, u, found, same⟩ := there
  cases same
  rw [mem_unitIndices, found]
  rfl

section

variable (distinct : (cx.sources.map fun slot => slot.source.name).Nodup)
include distinct

/-- The ancestor that a name leads to is the source with a unit that defines it. -/
theorem ancestor?_eq_some_iff {q : QName} {i : Nat} :
    cx.ancestor? q = some i ↔
      ∃ slot, cx.sources[i]? = some slot ∧ slot.unit.isSome ∧
        cx.registry.definedIn? q = some slot.source.name := by
  simp only [ancestor?, Option.bind_eq_bind, Option.bind_eq_some_iff, indexOf?,
    findIdx?_eq_some_iff distinct, unit?]
  constructor
  · rintro ⟨name, defined, place, ⟨slot, held, rfl⟩, u, ⟨slot', held', found⟩, same⟩
    cases same
    cases held.symm.trans held'
    exact ⟨slot, held, by rw [found]; rfl, defined⟩
  · rintro ⟨slot, held, present, defined⟩
    obtain ⟨u, found⟩ := Option.isSome_iff_exists.1 present
    exact ⟨_, defined, i, ⟨slot, held, rfl⟩, u, ⟨slot, held, found⟩, rfl⟩

/-- The graph of the units has an edge wherever one inherits from another, towards the heir. -/
theorem edge_eq :
    (graphOf cx.unitIndices cx.ancestry).Edge = Function.swap cx.InheritsFrom := by
  funext ancestor child
  refine propext (edge_graphOf.trans ?_)
  simp only [Function.swap, InheritsFrom, ancestry, List.mem_filterMap, Registry.fst_resolveName,
    Option.bind_eq_some_iff, ancestor?_eq_some_iff distinct, mem_unitIndices]
  constructor
  · rintro ⟨present, ⟨n, inherited, q, answered, there⟩, apart⟩
    obtain ⟨u, found⟩ := Option.isSome_iff_exists.1 present
    rw [found] at inherited
    exact ⟨apart.symm, u, found, n, inherited, q, answered, there⟩
  · rintro ⟨apart, u, found, n, inherited, q, answered, there⟩
    have present : cx.unit? child = some u := found
    refine ⟨by rw [present]; rfl, ⟨n, ?_, q, answered, there⟩, apart.symm⟩
    rwa [present]

end

theorem nodup_unitIndices (cx : Context) : cx.unitIndices.Nodup := List.nodup_range.filter _

/-- If sources have distinct names, two nodes reach each other in the graph exactly if their units inherit
    from each other. -/
theorem mutual_iff_entangled (distinct : (cx.sources.map fun slot => slot.source.name).Nodup) {i j : Nat} :
    (graphOf cx.unitIndices cx.ancestry).Mutual i j ↔ cx.Entangled i j := by
  unfold Graph.Mutual Entangled
  rw [edge_eq distinct]
  exact (and_congr Relation.reflTransGen_swap Relation.reflTransGen_swap).trans and_comm

@[simp] theorem Entangled.mem_unitIndices {i j : Nat} (h : cx.Entangled i j) (apart : i ≠ j) :
    i ∈ cx.unitIndices := by
  rcases Relation.ReflTransGen.cases_head h.1 with same | ⟨k, inherits, -⟩
  · exact absurd same apart
  · obtain ⟨-, u, found, -⟩ := inherits
    rw [Context.mem_unitIndices, Option.mem_def.1 found]
    rfl

/-- Then the graph has no cycle to report exactly if no unit inherits from itself through others. -/
theorem cycles_eq_nil_iff (distinct : (cx.sources.map fun slot => slot.source.name).Nodup) :
    (graphOf cx.unitIndices cx.ancestry).cycles = [] ↔ ¬∃ i, TransGen cx.InheritsFrom i i := by
  rw [cycles_graphOf_eq_nil_iff (closed_graph cx) cx.nodup_unitIndices, edge_eq distinct, not_exists]
  exact forall_congr' fun i => not_congr Relation.transGen_swap

/-! ### Reports -/

/-- What is reported of a cycle. -/
def cycleReport (cx : Context) (cycle : List Nat) : Diagnostic :=
  { severity := .error, message := .inheritanceCycle (cx.cycleText cycle), source := none }

/-- Each cycle is reported by one error, in the order in which the cycles are found. -/
theorem log_reportCycles (cycles : List (List Nat)) (cx : Context) : (reportCycles cycles cx).log =
    { cx.log with
      entries := cx.log.entries ++ cycles.map cx.cycleReport
      errors := cx.log.errors + cycles.length } := by
  induction cycles generalizing cx with
  | nil => simp [reportCycles]
  | cons cycle rest ih =>
    have later := ih (cx.report .error none (.inheritanceCycle (cx.cycleText cycle)))
    refine later.trans ?_
    have one : (cx.report .error none (.inheritanceCycle (cx.cycleText cycle))).log =
        { cx.log with entries := cx.log.entries ++ [cx.cycleReport cycle], errors := cx.log.errors + 1 } :=
          rfl
    have same : (cx.report .error none (.inheritanceCycle (cx.cycleText cycle))).cycleReport
      = cx.cycleReport := rfl
    rw [one, same]
    simp only [List.map_cons, List.append_assoc, List.singleton_append, List.length_cons]
    congr 1
    omega

theorem reportsGroup_cycleReport (cx : Context) (cycle : List Nat) :
    cx.ReportsGroup cycle (cx.cycleReport cycle) :=
  ⟨_, Text.sorted_perm _, Text.sorted_pairwise _, rfl⟩

/-! ### The order -/

/-- Either there is no circle of inheritance: then the order lists every unit once, each after those it
    inherits from, and nothing is logged.  Or there is one: then there is no order, and one error is logged
    for each group of two or more units that inherit from each other. -/
theorem dependencyOrder_sorts (cx : Context)
    (distinct : (cx.sources.map fun slot => slot.source.name).Nodup) :
    match cx.dependencyOrder with
    | (some order, cx') =>
      (¬∃ i, TransGen cx.InheritsFrom i i) ∧ order.Nodup ∧ (∀ i, i ∈ order ↔ (cx.unit? i).isSome) ∧
        (∀ child ancestor, cx.InheritsFrom child ancestor → order.idxOf ancestor < order.idxOf child) ∧
        cx'.log = cx.log
    | (none, cx') =>
      (∃ i, TransGen cx.InheritsFrom i i) ∧ ∃ groups reports,
        groups.Pairwise List.Disjoint ∧
        (∀ group ∈ groups, group.Nodup ∧ 1 < group.length ∧ ∀ i ∈ group, ∀ j, j ∈ group ↔ cx.Entangled i j) ∧
        (∀ i j, i ≠ j → cx.Entangled i j → ∃ group ∈ groups, i ∈ group) ∧
        List.Forall₂ cx.ReportsGroup groups reports ∧
        cx'.log = { cx.log with
          entries := cx.log.entries ++ reports
          errors := cx.log.errors + groups.length } := by
  have closed := closed_graphOf (closed_graph cx)
  have nodes := nodes_graphOf cx.unitIndices cx.ancestry
  obtain ⟨cx', asks, order⟩ := cx.dependencyOrder_eq
  have log : cx'.log = cx.log := by
    obtain ⟨r, rfl, -⟩ := asks
    rfl
  rw [order]
  by_cases none : (graphOf cx.unitIndices cx.ancestry).cycles = []
  · have acyclic := (cycles_eq_nil_iff distinct).1 none
    rw [if_pos none]
    refine ⟨acyclic, Graph.nodup_order _, fun i => ?_, fun child ancestor inherits => ?_, log⟩
    · rw [Graph.mem_order_iff closed, nodes, mem_unitIndices]
    · have edge : (graphOf cx.unitIndices cx.ancestry).Edge ancestor child := by
        rw [edge_eq distinct]
        exact inherits
      refine Graph.idxOf_lt_of_edge closed (fun i loop => acyclic ⟨i, ?_⟩) edge
      rw [edge_eq distinct] at loop
      exact Relation.transGen_swap.1 loop
  · have cyclic := not_not.1 ((cycles_eq_nil_iff distinct).not.1 none)
    have distinctNodes : (graphOf cx.unitIndices cx.ancestry).nodes.Nodup := by
      rw [nodes]
      exact cx.nodup_unitIndices
    rw [if_neg none]
    refine ⟨cyclic, _, _, Graph.disjoint_cycles closed, fun group listed => ?_,
      fun i j apart entangled => ?_, ?_, (log_reportCycles _ cx').trans (by rw [log])⟩
    · refine ⟨Graph.nodup_of_mem_cycles distinctNodes listed, (Graph.mem_cycles_iff.1 listed).2,
        fun i here j => ?_⟩
      exact (Graph.mem_cycle_iff closed listed here).trans (mutual_iff_entangled distinct)
    · have here : i ∈ (graphOf cx.unitIndices cx.ancestry).nodes := by
        rw [nodes]
        exact entangled.mem_unitIndices apart
      obtain ⟨group, listed, member, -⟩ :=
        Graph.exists_mem_cycles closed here ((mutual_iff_entangled distinct).2 entangled) apart
      exact ⟨group, listed, member⟩
    · rw [List.forall₂_map_right_iff]
      refine List.forall₂_same.2 fun group _ => ?_
      have reported := reportsGroup_cycleReport cx' group
      obtain ⟨r, rfl, -⟩ := asks
      exact reported

/-- A source with a unit that defines a name and inherits others. -/
def heir (name : String) (inherited : List Name) : SourceSlot :=
  let source : Source := ⟨name ++ ".abc", "", Mime.abc, .ok []⟩
  { source := source
    unit := some
      { source := source, topLevel := [.unnamed name], dependencies := { inheritance := inherited } } }

/-- Two units that inherit from each other, and one that inherits from them and from a name that none
    defines. -/
def knot : Context := Scheduler.defineUnits
  { Context.start {} {} with
    sources :=
      [heir "A" [.multi ⟨["x", ""], "B"⟩], heir "B" [.qualified (.unnamed "A")],
       heir "C" [.qualified (.unnamed "A"), .qualified (.unnamed "D"), .qualified (.unnamed "C")]] }

theorem dependencyOrder_sorts_knot : (knot.sources.map fun slot => slot.source.name).Nodup ∧
    knot.dependencyOrder.1 = none ∧ ∃ i, TransGen knot.InheritsFrom i i := by
  have distinct : (knot.sources.map fun slot => slot.source.name).Nodup := by decide
  have none : knot.dependencyOrder.1 = none := by decide
  have sorts := dependencyOrder_sorts knot distinct
  cases ordered : knot.dependencyOrder with
  | mk order cx' =>
    rw [ordered] at sorts none
    cases none
    exact ⟨distinct, rfl, sorts.1⟩

end Context

end AbcBuild
