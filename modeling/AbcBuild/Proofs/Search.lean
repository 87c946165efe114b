/-
Module: AbcBuild.Proofs.Search
Purpose: Depth-first search in finite graphs.  A search finishes each node once and discovers what can be
  reached; the order of a graph without cycles puts each node ahead of its successors; the components with
  more than one node are the classes of nodes that reach each other.
Main exports: Graph.Visits, Graph.Closed, Graph.exists_mem_cycles, Graph.cycles_eq_nil_iff
-/
import AbcBuild.Graph.Components
import Mathlib.Data.List.Nodup
import Mathlib.Data.List.Perm.Basic
import Mathlib.Logic.Relation

namespace AbcBuild.Graph

open Relation (ReflTransGen TransGen)

/-! ### What a search discovers it finishes -/

/-- A search goes on: what it newly discovers it finishes, and it discovers nothing twice. -/
structure Visits (before after : Search) : Prop where
  news : ∃ discovered finished, after.discovered = discovered ++ before.discovered ∧
    after.finished = before.finished ++ finished ∧ finished.Perm discovered
  distinct : before.discovered.Nodup → after.discovered.Nodup

variable {first second third : Search} {node : Nat}

theorem Visits.refl (search : Search) : Visits search search where
  news := ⟨[], [], rfl, (List.append_nil _).symm, List.Perm.nil⟩
  distinct := fun h => h

theorem Visits.trans (h : Visits first second) (h' : Visits second third) : Visits first third where
  news := by
    obtain ⟨discovered, finished, hd, hf, perm⟩ := h.news
    obtain ⟨discovered', finished', hd', hf', perm'⟩ := h'.news
    refine ⟨discovered' ++ discovered, finished ++ finished', ?_, ?_, ?_⟩
    · rw [hd', hd, List.append_assoc]
    · rw [hf', hf, List.append_assoc]
    · exact (perm.append perm').trans List.perm_append_comm
  distinct := fun start => h'.distinct (h.distinct start)

theorem Visits.foldl {step : Search → Nat → Search} (h : ∀ search node, Visits search (step search node))
    (nodes : List Nat) (search : Search) : Visits search (nodes.foldl step search) := by
  induction nodes generalizing search with
  | nil => exact Visits.refl search
  | cons node rest ih => exact (h search node).trans (ih (step search node))

theorem Visits.mem_discovered (h : Visits first second) (found : node ∈ first.discovered) :
    node ∈ second.discovered := by
  obtain ⟨discovered, -, hd, -, -⟩ := h.news
  rw [hd]
  exact List.mem_append_right _ found

/-- What is still open afterwards was open before. -/
theorem Visits.opened (h : Visits first second) (found : node ∈ second.discovered)
    (unfinished : node ∉ second.finished) : node ∈ first.discovered ∧ node ∉ first.finished := by
  obtain ⟨discovered, finished, hd, hf, perm⟩ := h.news
  rw [hf, List.mem_append, not_or] at unfinished
  rw [hd, List.mem_append] at found
  exact ⟨found.resolve_left fun new => unfinished.2 (perm.mem_iff.2 new), unfinished.1⟩

theorem visits_visit (neighbours : Nat → List Nat) (depth : Nat) (search : Search) (node : Nat) :
    Visits search (visit neighbours depth search node) := by
  induction depth generalizing search node with
  | zero => exact Visits.refl search
  | succ depth ih =>
    rw [visit]
    split
    next => exact Visits.refl search
    next absent =>
      have inner : Visits { search with discovered := node :: search.discovered }
          ((neighbours node).foldl (visit neighbours depth)
            { search with discovered := node :: search.discovered }) :=
        Visits.foldl ih (neighbours node) _
      obtain ⟨discovered, finished, hd, hf, perm⟩ := inner.news
      refine ⟨⟨discovered ++ [node], finished ++ [node], ?_, ?_, perm.append_right [node]⟩,
        fun distinct => ?_⟩
      · rw [hd, List.append_assoc]
        rfl
      · simp only [hf, List.append_assoc]
      · have fresh : node ∉ search.discovered := by simpa using absent
        exact inner.distinct (List.nodup_cons.2 ⟨fresh, distinct⟩)

theorem mem_discovered_visit (neighbours : Nat → List Nat) (depth : Nat) (search : Search) (node : Nat) :
    node ∈ (visit neighbours (depth + 1) search node).discovered := by
  rw [visit]
  split
  next found => simpa using found
  next =>
    exact (Visits.foldl (visits_visit neighbours depth) (neighbours node)
      { search with discovered := node :: search.discovered }).mem_discovered (.head _)

variable {nodes : List Nat}

theorem mem_discovered_foldl {neighbours : Nat → List Nat} {depth : Nat} {search : Search}
    (h : node ∈ nodes) : node ∈ (nodes.foldl (visit neighbours (depth + 1)) search).discovered := by
  induction nodes generalizing search with
  | nil => cases h
  | cons first rest ih =>
    rcases List.mem_cons.1 h with rfl | later
    · exact (Visits.foldl (visits_visit neighbours (depth + 1)) rest
        (visit neighbours (depth + 1) search node)).mem_discovered
          (mem_discovered_visit neighbours depth search node)
    · exact ih later

/-- What is discovered in the end is what is finished. -/
theorem perm_finished (g : Graph) (neighbours : Nat → List Nat) :
    (g.finished neighbours).Perm (g.nodes.foldl (visit neighbours g.depth) {}).discovered := by
  obtain ⟨discovered, finished, hd, hf, perm⟩ :=
    (Visits.foldl (visits_visit neighbours g.depth) g.nodes {}).news
  rw [Graph.finished, hf, hd]
  simpa using perm

theorem nodup_finished (g : Graph) (neighbours : Nat → List Nat) : (g.finished neighbours).Nodup :=
  (perm_finished g neighbours).nodup_iff.2
    ((Visits.foldl (visits_visit neighbours g.depth) g.nodes {}).distinct List.nodup_nil)

theorem mem_finished {g : Graph} (neighbours : Nat → List Nat) (h : node ∈ g.nodes) :
    node ∈ g.finished neighbours :=
  (perm_finished g neighbours).mem_iff.2 (mem_discovered_foldl h)

/-- No node comes twice. -/
theorem nodup_order (g : Graph) : g.order.Nodup := List.nodup_reverse.2 (nodup_finished g g.successors)

/-- Every node comes. -/
theorem mem_order {g : Graph} (h : node ∈ g.nodes) : node ∈ g.order :=
  List.mem_reverse.2 (mem_finished g.successors h)

/-! ### What a search discovers can be reached -/

variable {neighbours : Nat → List Nat} {depth : Nat} {search : Search} {node found : Nat}

theorem reachable_of_mem_visit (h : found ∈ (visit neighbours depth search node).discovered) :
    found ∈ search.discovered ∨ ReflTransGen (fun a b => b ∈ neighbours a) node found := by
  induction depth generalizing search node found with
  | zero => exact .inl h
  | succ depth ih =>
    have fold (nodes : List Nat) (start : Search)
        (seen : found ∈ (nodes.foldl (visit neighbours depth) start).discovered) :
        found ∈ start.discovered ∨
          ∃ next ∈ nodes, ReflTransGen (fun a b => b ∈ neighbours a) next found := by
      induction nodes generalizing start with
      | nil => exact .inl seen
      | cons next rest inner =>
        rcases inner _ seen with early | ⟨later, among, path⟩
        · rcases ih early with before | path
          · exact .inl before
          · exact .inr ⟨next, .head _, path⟩
        · exact .inr ⟨later, .tail _ among, path⟩
    rw [visit] at h
    split at h
    next => exact .inl h
    next =>
      rcases fold (neighbours node) _ h with here | ⟨next, edge, path⟩
      · rcases List.mem_cons.1 here with rfl | before
        · exact .inr .refl
        · exact .inl before
      · exact .inr (.head edge path)

/-- The nodes that a search has still to discover. -/
def undiscovered (nodes : List Nat) (search : Search) : List Nat :=
  nodes.filter fun node => !search.discovered.contains node

theorem length_undiscovered_le (h : Visits first second) :
    (undiscovered nodes second).length ≤ (undiscovered nodes first).length := by
  refine (List.monotone_filter_right nodes fun node unseen => ?_).length_le
  simp only [Bool.not_eq_true', List.contains_eq_mem, decide_eq_false_iff_not] at unseen ⊢
  exact fun seen => unseen (h.mem_discovered seen)

theorem length_undiscovered_lt (here : node ∈ nodes) (absent : node ∉ search.discovered) :
    (undiscovered nodes { search with discovered := node :: search.discovered }).length
      < (undiscovered nodes search).length := by
  have split : undiscovered nodes { search with discovered := node :: search.discovered }
      = (undiscovered nodes search).filter fun other => other ≠ node := by
    rw [undiscovered, undiscovered, List.filter_filter]
    refine List.filter_congr fun other _ => ?_
    simp [Bool.not_or]
  rw [split]
  refine List.length_filter_lt_length_iff_exists.2 ⟨node, ?_, by simp⟩
  simp [undiscovered, here, absent]

/-- Every neighbour of what is newly discovered is discovered. -/
def Explores (neighbours : Nat → List Nat) (before after : Search) : Prop :=
  ∀ a ∈ after.discovered, a ∉ before.discovered → ∀ b ∈ neighbours a, b ∈ after.discovered

theorem Explores.trans (h : Explores neighbours first second) (h' : Explores neighbours second third)
    (goes : Visits second third) : Explores neighbours first third := by
  intro a found new b edge
  by_cases early : a ∈ second.discovered
  · exact goes.mem_discovered (h a early new b edge)
  · exact h' a found early b edge

/-- What holds of a search from any node holds of one from several in turn. -/
theorem explores_foldl (one : ∀ search node, node ∈ nodes → (undiscovered nodes search).length < depth →
      Explores neighbours search (visit neighbours depth search node))
    (next : List Nat) (among : ∀ b ∈ next, b ∈ nodes) (room : (undiscovered nodes search).length < depth) :
    Explores neighbours search (next.foldl (visit neighbours depth) search) := by
  induction next generalizing search with
  | nil => exact fun a found new => absurd found new
  | cons b rest ih =>
    have room' := Nat.lt_of_le_of_lt (length_undiscovered_le (visits_visit neighbours depth search b)) room
    exact (one search b (among b (.head _)) room).trans
      (ih (fun c later => among c (.tail _ later)) room') (Visits.foldl (visits_visit _ _) rest _)

-- The bound on the depth is never met: each level of the search has discovered one node more.
theorem explores_visit (closed : ∀ a ∈ nodes, ∀ b ∈ neighbours a, b ∈ nodes) (here : node ∈ nodes)
    (room : (undiscovered nodes search).length < depth) :
    Explores neighbours search (visit neighbours depth search node) := by
  induction depth generalizing search node with
  | zero => cases room
  | succ depth ih =>
    rw [visit]
    split
    next => exact fun a found new => absurd found new
    next absent =>
      have fresh : node ∉ search.discovered := by simpa using absent
      have room' := Nat.lt_of_lt_of_le (length_undiscovered_lt here fresh) (Nat.le_of_lt_succ room)
      intro a found new b edge
      by_cases same : a = node
      · subst same
        obtain ⟨depth, rfl⟩ := Nat.exists_eq_add_one_of_ne_zero (Nat.ne_zero_of_lt room')
        exact mem_discovered_foldl edge
      · have unseen : a ∉ node :: search.discovered := by simp [same, new]
        exact explores_foldl (fun _ _ => ih) _ (closed node here) room' a found unseen b edge

theorem mem_discovered_of_reachable {start : Search} (explored : Explores neighbours {} start) {a b : Nat}
    (found : a ∈ start.discovered) (path : ReflTransGen (fun a b => b ∈ neighbours a) a b) :
    b ∈ start.discovered := by
  induction path with
  | refl => exact found
  | tail _ edge ih => exact explored _ ih List.not_mem_nil _ edge

/-! ### A search without cycles finishes each node after its neighbours -/

/-- Each node stands ahead of its neighbours. -/
def Ahead (neighbours : Nat → List Nat) : List Nat → Prop
  | [] => True
  | node :: rest => (∀ b ∈ neighbours node, b ∈ rest) ∧ Ahead neighbours rest

theorem Ahead.mem {order : List Nat} (h : Ahead neighbours order) {a b : Nat} (here : a ∈ order)
    (edge : b ∈ neighbours a) : b ∈ order := by
  induction order with
  | nil => cases here
  | cons node rest ih =>
    rcases List.mem_cons.1 here with rfl | later
    · exact .tail _ (h.1 b edge)
    · exact .tail _ (ih h.2 later)

theorem Ahead.idxOf_lt {order : List Nat} (h : Ahead neighbours order) (distinct : order.Nodup) {a b : Nat}
    (here : a ∈ order) (edge : b ∈ neighbours a) : order.idxOf a < order.idxOf b := by
  induction order with
  | nil => cases here
  | cons node rest ih =>
    obtain ⟨single, distinct⟩ := List.nodup_cons.1 distinct
    have apart {c : Nat} (later : c ∈ rest) : node ≠ c := fun same => single (same ▸ later)
    rcases List.mem_cons.1 here with rfl | later
    · rw [List.idxOf_cons_self, List.idxOf_cons_ne _ (apart (h.1 b edge))]
      exact Nat.succ_pos _
    · rw [List.idxOf_cons_ne _ (apart later), List.idxOf_cons_ne _ (apart (h.2.mem later edge))]
      exact Nat.succ_lt_succ (ih h.2 distinct later)

/-- What holds of a search from any node that all open nodes lead to holds of one from several such nodes in
    turn. -/
theorem ahead_foldl (one : ∀ search node, node ∈ nodes → (undiscovered nodes search).length < depth →
      (∀ a ∈ search.discovered, a ∉ search.finished → TransGen (fun a b => b ∈ neighbours a) a node) →
      Ahead neighbours search.finished.reverse →
      Ahead neighbours (visit neighbours depth search node).finished.reverse)
    (next : List Nat) (among : ∀ b ∈ next, b ∈ nodes) (room : (undiscovered nodes search).length < depth)
    (leads : ∀ b ∈ next, ∀ a ∈ search.discovered, a ∉ search.finished →
      TransGen (fun a b => b ∈ neighbours a) a b)
    (sorted : Ahead neighbours search.finished.reverse) :
    Ahead neighbours (next.foldl (visit neighbours depth) search).finished.reverse := by
  induction next generalizing search with
  | nil => exact sorted
  | cons b rest ih =>
    have goes := visits_visit neighbours depth search b
    refine ih (fun c later => among c (.tail _ later))
      (Nat.lt_of_le_of_lt (length_undiscovered_le goes) room) (fun c later a found unfinished => ?_)
      (one search b (among b (.head _)) room (leads b (.head _)) sorted)
    obtain ⟨found, unfinished⟩ := goes.opened found unfinished
    exact leads c (.tail _ later) a found unfinished

-- The open nodes are those on the path from the root to the node, so all of them lead to it; a neighbour
-- that is open would close a cycle.
theorem ahead_visit (closed : ∀ a ∈ nodes, ∀ b ∈ neighbours a, b ∈ nodes)
    (acyclic : ∀ a, ¬TransGen (fun a b => b ∈ neighbours a) a a) (here : node ∈ nodes)
    (room : (undiscovered nodes search).length < depth)
    (leads : ∀ a ∈ search.discovered, a ∉ search.finished → TransGen (fun a b => b ∈ neighbours a) a node)
    (sorted : Ahead neighbours search.finished.reverse) :
    Ahead neighbours (visit neighbours depth search node).finished.reverse := by
  induction depth generalizing search node with
  | zero => cases room
  | succ depth ih =>
    rw [visit]
    split
    next => exact sorted
    next absent =>
      have fresh : node ∉ search.discovered := by simpa using absent
      have room' := Nat.lt_of_lt_of_le (length_undiscovered_lt here fresh) (Nat.le_of_lt_succ room)
      have onward : ∀ b ∈ neighbours node, ∀ a ∈ node :: search.discovered, a ∉ search.finished →
          TransGen (fun a b => b ∈ neighbours a) a b := by
        intro b edge a found unfinished
        rcases List.mem_cons.1 found with rfl | before
        · exact .single edge
        · exact (leads a before unfinished).tail edge
      simp only [List.reverse_append, List.reverse_singleton, List.singleton_append]
      refine ⟨fun b edge => ?_, ahead_foldl (fun _ _ => ih) _ (closed node here) room' onward sorted⟩
      rw [List.mem_reverse]
      by_contra unfinished
      obtain ⟨depth, rfl⟩ := Nat.exists_eq_add_one_of_ne_zero (Nat.ne_zero_of_lt room')
      obtain ⟨found, unfinished⟩ := (Visits.foldl (visits_visit neighbours _) _ _).opened
        (mem_discovered_foldl edge) unfinished
      exact acyclic b (onward b edge b found unfinished)

/-! ### Graphs -/

/-- Edges join nodes. -/
def Closed (g : Graph) : Prop := ∀ e ∈ g.edges, e.1 ∈ g.nodes ∧ e.2 ∈ g.nodes

/-- There is an edge from the first node to the second. -/
def Edge (g : Graph) (a b : Nat) : Prop := b ∈ g.successors a

/-- Each of two nodes can be reached from the other. -/
def Mutual (g : Graph) (a b : Nat) : Prop := ReflTransGen g.Edge a b ∧ ReflTransGen g.Edge b a

variable {g : Graph} {a b c : Nat} {cycle : List Nat}

theorem edge_iff : g.Edge a b ↔ (a, b) ∈ g.edges := by
  simp only [Edge, successors, List.mem_map, List.mem_filter, decide_eq_true_eq]
  constructor
  · rintro ⟨⟨source, target⟩, ⟨edge, rfl⟩, rfl⟩
    exact edge
  · exact fun edge => ⟨(a, b), ⟨edge, rfl⟩, rfl⟩

theorem Mutual.refl (a : Nat) : g.Mutual a a := ⟨.refl, .refl⟩

theorem Mutual.symm (h : g.Mutual a b) : g.Mutual b a := ⟨h.2, h.1⟩

theorem Mutual.trans (h : g.Mutual a b) (h' : g.Mutual b c) : g.Mutual a c :=
  ⟨h.1.trans h'.1, h'.2.trans h.2⟩

theorem length_undiscovered_lt_depth (g : Graph) : (undiscovered g.nodes {}).length < g.depth :=
  Nat.lt_succ_of_le (List.length_filter_le ..)

/-- Only nodes are finished. -/
theorem mem_nodes_of_mem_finished {neighbours : Nat → List Nat}
    (closed : ∀ a ∈ g.nodes, ∀ b ∈ neighbours a, b ∈ g.nodes) (h : a ∈ g.finished neighbours) :
    a ∈ g.nodes := by
  have fold (next : List Nat) (among : ∀ b ∈ next, b ∈ g.nodes) (search : Search)
      (inside : ∀ b ∈ search.discovered, b ∈ g.nodes) :
      ∀ b ∈ (next.foldl (visit neighbours g.depth) search).discovered, b ∈ g.nodes := by
    induction next generalizing search with
    | nil => exact inside
    | cons first rest ih =>
      refine ih (fun c later => among c (.tail _ later)) _ fun b found => ?_
      rcases reachable_of_mem_visit found with before | path
      · exact inside b before
      · clear found
        induction path with
        | refl => exact among first (.head _)
        | tail _ edge there => exact closed _ there _ edge
  exact fold g.nodes (fun _ here => here) {} (fun _ found => absurd found List.not_mem_nil) a
    ((perm_finished g neighbours).mem_iff.1 h)

section

variable (h : g.Closed)
include h

theorem Closed.successors : ∀ a ∈ g.nodes, ∀ b ∈ g.successors a, b ∈ g.nodes :=
  fun _ _ _ edge => (h _ (edge_iff.1 edge)).2

theorem Closed.reachable (here : a ∈ g.nodes) (path : ReflTransGen g.Edge a b) : b ∈ g.nodes := by
  induction path with
  | refl => exact here
  | tail _ edge _ => exact (h _ (edge_iff.1 edge)).2

/-- The search from a node discovers just what can be reached from it. -/
theorem reaches_iff (here : a ∈ g.nodes) : g.reaches a b = true ↔ ReflTransGen g.Edge a b := by
  simp only [reaches, List.contains_eq_mem, decide_eq_true_eq]
  constructor
  · exact fun found => (reachable_of_mem_visit found).resolve_left List.not_mem_nil
  · have explored := explores_visit h.successors here (length_undiscovered_lt_depth g)
    exact mem_discovered_of_reachable explored (mem_discovered_visit ..)

theorem connected_iff (here : a ∈ g.nodes) (there : b ∈ g.nodes) :
    g.connected a b = true ↔ g.Mutual a b := by
  rw [connected, Bool.and_eq_true, reaches_iff h here, reaches_iff h there]
  rfl

theorem ahead_order (acyclic : ∀ a, ¬TransGen g.Edge a a) : Ahead g.successors g.order :=
  ahead_foldl (fun _ _ => ahead_visit h.successors acyclic) g.nodes (fun _ here => here)
    (length_undiscovered_lt_depth g) (fun _ _ _ found => absurd found List.not_mem_nil) trivial

/-- Without cycles, the source of each edge comes before its target. -/
theorem idxOf_lt_of_edge (acyclic : ∀ a, ¬TransGen g.Edge a a) (edge : g.Edge a b) :
    g.order.idxOf a < g.order.idxOf b :=
  (ahead_order h acyclic).idxOf_lt (nodup_order g) (mem_order (h _ (edge_iff.1 edge)).1) edge

theorem mem_order_iff : a ∈ g.order ↔ a ∈ g.nodes :=
  ⟨fun found => mem_nodes_of_mem_finished h.successors (List.mem_reverse.1 found), mem_order⟩

end

/-! ### Components -/

theorem lastOfEach_sublist (g : Graph) (nodes : List Nat) : (g.lastOfEach nodes).Sublist nodes := by
  induction nodes with
  | nil => exact .slnil
  | cons node rest ih =>
    rw [lastOfEach]
    split
    next => exact ih.cons node
    next => exact ih.cons_cons node

/-- Every component has its last node among them. -/
theorem exists_mem_lastOfEach (h : g.Closed) (inside : ∀ a ∈ nodes, a ∈ g.nodes) (here : a ∈ nodes) :
    ∃ b ∈ g.lastOfEach nodes, g.Mutual a b := by
  induction nodes generalizing a with
  | nil => cases here
  | cons node rest ih =>
    have inner {c : Nat} (later : c ∈ rest) := ih (fun a later => inside a (.tail _ later)) later
    rw [lastOfEach]
    split
    next again =>
      rcases List.mem_cons.1 here with rfl | later
      · obtain ⟨c, later, joined⟩ := List.any_eq_true.1 again
        obtain ⟨b, last, further⟩ := inner later
        have near := (connected_iff h (inside a (.head _))
          (inside c (.tail _ later))).1 joined
        exact ⟨b, last, near.trans further⟩
      · exact inner later
    next =>
      rcases List.mem_cons.1 here with rfl | later
      · exact ⟨a, .head _, Mutual.refl a⟩
      · obtain ⟨b, last, joined⟩ := inner later
        exact ⟨b, .tail _ last, joined⟩

/-- No component has two nodes among them. -/
theorem pairwise_lastOfEach (h : g.Closed) (inside : ∀ a ∈ nodes, a ∈ g.nodes) :
    (g.lastOfEach nodes).Pairwise fun a b => ¬g.Mutual a b := by
  induction nodes with
  | nil => exact .nil
  | cons node rest ih =>
    have ih := ih fun a later => inside a (.tail _ later)
    rw [lastOfEach]
    split
    next => exact ih
    next single =>
      refine List.pairwise_cons.2 ⟨fun b last joined => single ?_, ih⟩
      have later := (lastOfEach_sublist g rest).subset last
      refine List.any_eq_true.2 ⟨b, later, ?_⟩
      have held := inside b (.tail _ later)
      exact (connected_iff h (inside node (.head _)) held).2 joined

theorem mem_component_iff (h : g.Closed) (here : a ∈ g.nodes) :
    b ∈ g.component a ↔ b ∈ g.nodes ∧ g.Mutual a b := by
  rw [component, List.mem_filter]
  exact and_congr_right fun there => connected_iff h here there

/-- The nodes whose components are listed: one of each component. -/
def representatives (g : Graph) : List Nat :=
  g.lastOfEach (g.finished fun node => (g.successors node).reverse)

theorem mem_nodes_of_mem_finished_reverse (h : g.Closed)
    (done : a ∈ g.finished fun node => (g.successors node).reverse) : a ∈ g.nodes :=
  mem_nodes_of_mem_finished (fun a here b edge => h.successors a here b (List.mem_reverse.1 edge)) done

theorem mem_nodes_of_mem_representatives (h : g.Closed) (listed : a ∈ g.representatives) : a ∈ g.nodes :=
  mem_nodes_of_mem_finished_reverse h ((lastOfEach_sublist g _).subset listed)

theorem mem_cycles_iff :
    cycle ∈ g.cycles ↔ (∃ a ∈ g.representatives, g.component a = cycle) ∧ 1 < cycle.length := by
  rw [cycles, List.mem_filter, components, List.mem_map, decide_eq_true_eq]
  rfl

/-- A cycle holds all nodes that reach any one of its nodes and are reached from it. -/
theorem mem_cycle_iff (h : g.Closed) (listed : cycle ∈ g.cycles) (here : a ∈ cycle) :
    b ∈ cycle ↔ g.Mutual a b := by
  obtain ⟨⟨root, last, rfl⟩, -⟩ := mem_cycles_iff.1 listed
  have member {c : Nat} := mem_component_iff (b := c) h (mem_nodes_of_mem_representatives h last)
  obtain ⟨inside, joined⟩ := member.1 here
  rw [member]
  constructor
  · exact fun there => joined.symm.trans there.2
  · exact fun there => ⟨h.reachable inside there.1, joined.trans there⟩

/-- Different cycles have no node in common. -/
theorem disjoint_cycles (h : g.Closed) : g.cycles.Pairwise List.Disjoint := by
  refine List.Pairwise.filter _ (List.pairwise_map.2 ?_)
  refine List.Pairwise.imp_of_mem (fun {a b} first second apart c here there => apart ?_)
    (pairwise_lastOfEach h fun a => mem_nodes_of_mem_finished_reverse h)
  have near := (mem_component_iff h (mem_nodes_of_mem_representatives h first)).1 here
  have far := (mem_component_iff h (mem_nodes_of_mem_representatives h second)).1 there
  exact near.2.trans far.2.symm

/-- Two nodes that reach each other stand on one of the cycles. -/
theorem exists_mem_cycles (h : g.Closed) (here : a ∈ g.nodes) (joined : g.Mutual a b) (apart : a ≠ b) :
    ∃ cycle ∈ g.cycles, a ∈ cycle ∧ b ∈ cycle := by
  obtain ⟨root, last, near⟩ := exists_mem_lastOfEach h
    (fun _ => mem_nodes_of_mem_finished_reverse h)
      (mem_finished (fun node => (g.successors node).reverse) here)
  have rooted := mem_nodes_of_mem_representatives h last
  have first : a ∈ g.component root := (mem_component_iff h rooted).2 ⟨here, near.symm⟩
  have second : b ∈ g.component root :=
    (mem_component_iff h rooted).2 ⟨h.reachable here joined.1, near.symm.trans joined⟩
  refine ⟨g.component root, mem_cycles_iff.2 ⟨⟨root, last, rfl⟩, ?_⟩, first, second⟩
  by_contra single
  obtain ⟨i, at_a⟩ := List.mem_iff_getElem.1 first
  obtain ⟨j, at_b⟩ := List.mem_iff_getElem.1 second
  obtain ⟨hi, rfl⟩ := at_a
  obtain ⟨hj, rfl⟩ := at_b
  have same : i = j := by omega
  subst same
  exact apart rfl

/-- No node of a cycle stands there twice. -/
theorem nodup_of_mem_cycles (distinct : g.nodes.Nodup) (listed : cycle ∈ g.cycles) :
    cycle.Nodup := by
  obtain ⟨⟨root, -, rfl⟩, -⟩ := mem_cycles_iff.1 listed
  exact distinct.filter _

theorem exists_ne_of_mem_cycles (distinct : g.nodes.Nodup) (listed : cycle ∈ g.cycles) :
    ∃ a ∈ cycle, ∃ b ∈ cycle, a ≠ b := by
  have several := (mem_cycles_iff.1 listed).2
  have apart := nodup_of_mem_cycles distinct listed
  match cycle, several, apart with
  | a :: b :: rest, _, apart =>
    refine ⟨a, by simp, b, by simp, ?_⟩
    rintro rfl
    simp at apart

/-- Without edges from a node to itself, the graph has no path back to where it starts if no cycle is
    listed. -/
theorem cycles_eq_nil_iff (h : g.Closed) (distinct : g.nodes.Nodup) (loopless : ∀ a, ¬g.Edge a a) :
    g.cycles = [] ↔ ∀ a, ¬TransGen g.Edge a a := by
  constructor
  · intro none a path
    obtain ⟨b, edge, back⟩ := Relation.TransGen.head'_iff.1 path
    have apart : a ≠ b := fun same => loopless a (by rwa [← same] at edge)
    obtain ⟨cycle, listed, -⟩ := exists_mem_cycles h (h _ (edge_iff.1 edge)).1 ⟨.single edge, back⟩ apart
    rw [none] at listed
    cases listed
  · intro acyclic
    rw [List.eq_nil_iff_forall_not_mem]
    intro cycle listed
    obtain ⟨a, here, b, there, apart⟩ := exists_ne_of_mem_cycles distinct listed
    obtain ⟨onward, back⟩ := (mem_cycle_iff h listed here).1 there
    rcases Relation.ReflTransGen.cases_head onward with same | ⟨c, edge, rest⟩
    · exact apart same
    · exact acyclic a (.head' edge (rest.trans back))

end AbcBuild.Graph
