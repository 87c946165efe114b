/-
Module: AbcBuild.Proofs.Restart
Purpose: A second run over the sources of a run without errors, in a context of its own that has the unit of
  one source already.  If that unit stands for the one that the first run made, the second run gets to the
  same order, and its units are alike.
Main exports: Frontend.parse_again, Scheduler.Follows, Scheduler.Restarts.paired, Scheduler.restarts_opening
-/
import AbcBuild.Proofs.PairedRuns

namespace AbcBuild

/-! ### The first phase of a second run -/

/-- A source that can be parsed gives the same unit in every context with the same settings. -/
theorem Frontend.parse_again {f : Frontend} (plain : f.extensions = []) {source : Source} {cx cx' : Context}
    (config : cx'.config = cx.config) (ok : (f.parse source none cx).2.2.hasErrors = false)
    (ok' : cx'.hasErrors = false) :
    ∃ u, f.parse source none cx = (true, some u, cx) ∧ f.parse source none cx' = (true, some u, cx') := by
  have unknown : ∀ u ∈ (none : Option BuildUnit), (u.hasTypeInfo || u.tree.isSome) = false := fun u none =>
    (Option.not_mem_none u none).elim
  cases made : f.made? cx.config source (.ofSource source) with
  | none =>
    obtain ⟨cx₁, heq, failed, -⟩ := parse_unmade plain unknown made
    rw [heq] at ok
    cases failed.symm.trans ok
  | some u =>
    have heq := parse_made plain unknown made
    have start : cx.hasErrors = false := by
      rw [heq] at ok
      split at ok <;> exact ok
    rw [← config] at made
    have heq' := parse_made plain unknown made
    refine ⟨u, ?_, ?_⟩
    · rw [heq]
      simp [start]
    · rw [heq']
      simp [ok']

theorem Context.sources_putUnit_comm (cx : Context) {i j : Nat} (other : i ≠ j) (a b : Option BuildUnit) :
    ((cx.putUnit i a).putUnit j b).sources = ((cx.putUnit j b).putUnit i a).sources := by
  refine List.ext_getElem? fun k => ?_
  simp only [putUnit, List.getElem?_modify]
  by_cases first : i = k <;> by_cases second : j = k <;> simp_all

/-- A unit may stand for another that has its outline. -/
theorem Context.outline_putUnit {cx : Context} {index : Nat} {u w : BuildUnit}
    (here : cx.unit? index = some u) (source : w.source = u.source) (topLevel : w.topLevel = u.topLevel)
    (dependencies : w.dependencies = u.dependencies) : (cx.putUnit index (some w)).outline = cx.outline := by
  obtain ⟨slot, held, unit⟩ := Option.bind_eq_some_iff.1 here
  refine List.ext_getElem? fun j => ?_
  rw [outline, outline, List.getElem?_map, List.getElem?_map, getElem?_putUnit held]
  split
  next same =>
    rw [← same, held]
    simp only [Option.map_some, SourceSlot.outline, unit, source, topLevel, dependencies]
  next => rfl

theorem Registry.coherent_of_empty {r : Registry} (h : r.multinames = .empty) : r.Coherent := by
  intro m q known
  rw [h] at known
  cases known

namespace Scheduler

variable {s : Scheduler} {cx cx' : Context} {index : Nat}
variable {w : BuildUnit} {slot : SourceSlot}

theorem parseAt_again (plain : s.Plain) (supports : s.Supports cx) (held : cx.sources[index]? = some slot)
    (held' : cx'.sources[index]? = some slot) (empty : slot.unit = none) (config : cx'.config = cx.config)
    (ok : (s.parseAt cx index).hasErrors = false) (ok' : cx'.hasErrors = false) :
    ∃ u, s.parseAt cx index = cx.putUnit index (some u) ∧
      s.parseAt cx' index = cx'.putUnit index (some u) := by
  obtain ⟨f, found⟩ := Option.isSome_iff_exists.1 (supports slot (List.mem_of_getElem? held))
  simp only [parseAt, held, held', found, empty] at ok ⊢
  have config : (cx'.putUnit index none).config = (cx.putUnit index none).config := config
  obtain ⟨u, heq, heq'⟩ := Frontend.parse_again (plain.frontend? found) config ok ok'
  refine ⟨{ u with lastPhase := some .parse1 }, ?_, ?_⟩
  · rw [heq]
    exact cx.putUnit_putUnit index none _
  · rw [heq']
    exact cx'.putUnit_putUnit index none _

theorem parseAt_ready (supports : s.Supports cx) (held : cx.sources[index]? = some slot)
    (unit : slot.unit = some w) (new : w.hasTypeInfo = false) (tree : w.tree.isSome = true) :
    s.parseAt cx index = cx.putUnit index (some { w with lastPhase := some .parse1 }) := by
  obtain ⟨f, found⟩ := Option.isSome_iff_exists.1 (supports slot (List.mem_of_getElem? held))
  have ready :=
    f.parse_of_known slot.source (cx.putUnit index none) (by rw [tree, Bool.or_true]) fun _ kept =>
    (Bool.false_ne_true (new.symm.trans kept)).elim
  simp only [parseAt, held, found, unit, ready]
  exact cx.putUnit_putUnit index none _

/-- The second run has the slots of the first, but for a unit that is ready. -/
structure Follows (index : Nat) (w : BuildUnit) (cx cx' : Context) : Prop where
  new : w.hasTypeInfo = false
  tree : w.tree.isSome = true
  sources : cx'.sources = (cx.putUnit index (some w)).sources
  config : cx'.config = cx.config
  ok : cx'.hasErrors = false

theorem Follows.supports (h : Follows index w cx cx') (supports : s.Supports cx) : s.Supports cx' := by
  refine supports.congr ?_
  rw [h.sources]
  exact (cx.advances_putUnit index (some w)).sources

theorem Follows.parseAt (plain : s.Plain) (supports : s.Supports cx) (h : Follows index w cx cx') {j : Nat}
    (held : cx.sources[j]? = some slot) (empty : slot.unit = none)
    (ok : (s.parseAt cx j).hasErrors = false) :
    ∃ u phase sources, s.parseAt cx j = cx.putUnit j (some u) ∧
      s.parseAt cx' j = { cx' with sources := sources } ∧
      Follows index { w with lastPhase := phase } (s.parseAt cx j) { cx' with sources := sources } := by
  by_cases here : index = j
  · subst here
    have clear := (parseAt_advances plain cx index).ok ok
    obtain ⟨u, filled, -⟩ := parseAt_again plain supports held held empty rfl ok clear
    have held' : cx'.sources[index]? = some { slot with unit := some w } := by
      rw [h.sources, Context.getElem?_putUnit held, if_pos rfl]
    have kept := parseAt_ready (h.supports supports) held' rfl h.new h.tree
    refine ⟨u, some .parse1, _, filled, kept, h.new, h.tree, ?_, ?_, h.ok⟩
    · rw [filled, cx.putUnit_putUnit]
      simp only [h.sources]
      exact congrArg Context.sources (cx.putUnit_putUnit index (some w) _)
    · exact h.config.trans (parseAt_advances plain cx index).config.symm
  · have held' : cx'.sources[j]? = some slot := by
      rw [h.sources]
      simp [Context.putUnit, here, held]
    obtain ⟨u, filled, filled'⟩ := parseAt_again plain supports held held' empty h.config ok h.ok
    refine ⟨u, w.lastPhase, _, filled, filled', h.new, h.tree, ?_, ?_, h.ok⟩
    · rw [filled, Context.sources_putUnit_comm cx (fun same => here same.symm)]
      simp only [h.sources, Context.putUnit]
    · exact h.config.trans (parseAt_advances plain cx j).config.symm

/-- A run that finds one unit ready fills the other slots as the run before did. -/
theorem Follows.parse (plain : s.Plain) {items : List Nat} (distinct : items.Nodup)
    (supports : s.Supports cx) (empty : ∀ j ∈ items, ∀ slot, cx.sources[j]? = some slot → slot.unit = none)
    (h : Follows index w cx cx') (ok : (items.foldl s.parseAt cx).hasErrors = false) :
    ∃ phase sources, items.foldl s.parseAt cx' = { cx' with sources := sources } ∧
      Follows index { w with lastPhase := phase } (items.foldl s.parseAt cx)
        { cx' with sources := sources } := by
  induction items generalizing cx cx' w with
  | nil => exact ⟨w.lastPhase, cx'.sources, rfl, h⟩
  | cons j rest ih =>
    obtain ⟨once, distinct⟩ := List.nodup_cons.1 distinct
    have later := Context.Advances.foldl (parseAt_advances plain) rest (s.parseAt cx j)
    rw [List.foldl_cons] at ok ⊢
    rw [List.foldl_cons]
    cases held : cx.sources[j]? with
    | none =>
      have held' : cx'.sources[j]? = none := by
        rw [h.sources, Context.putUnit, List.getElem?_modify, held]
        rfl
      have idle : s.parseAt cx j = cx := by simp only [Scheduler.parseAt, held]
      have idle' : s.parseAt cx' j = cx' := by simp only [Scheduler.parseAt, held']
      rw [idle] at ok ⊢
      rw [idle']
      exact ih distinct supports (fun k member => empty k (.tail _ member)) h ok
    | some slot =>
      obtain ⟨u, phase, sources, filled, filled', follows⟩ :=
        h.parseAt plain supports held (empty j (.head _) slot held) (later.ok ok)
      have rested : ∀ k ∈ rest, ∀ slot, (s.parseAt cx j).sources[k]? = some slot → slot.unit = none := by
        intro k member slot' there
        have other : j ≠ k := fun same => once (same ▸ member)
        rw [filled, Context.getElem?_putUnit held, if_neg other] at there
        exact empty k (.tail _ member) slot' there
      obtain ⟨last, sources', parsed, ends⟩ :=
        ih distinct (supports.advances (parseAt_advances plain cx j)) rested follows ok
      rw [filled', parsed]
      exact ⟨last, sources', rfl, ends⟩

end Scheduler

/-! ### The second run -/

/-- What a unit has of another of its source that it stands for. -/
structure BuildUnit.StandsFor (w u : BuildUnit) : Prop where
  source : w.source = u.source
  topLevel : w.topLevel = u.topLevel
  dependencies : w.dependencies = u.dependencies
  styles : w.styles = u.styles
  format : w.tree.map ParseTree.format = u.tree.map ParseTree.format

/-- A context that holds sources, and nothing else yet. -/
def Context.opening (config : Config) (store : ClassStore) (sources : List Source) : Context :=
  { Context.start config store with sources := sources.map fun source => { source := source } }

namespace Scheduler

variable {s : Scheduler} {cx cx' cx₁ cx₂ start₁ : Context} {index : Nat} {order : List Nat} {u w : BuildUnit}

theorem Follows.length (h : Follows index w cx cx') : cx'.sources.length = cx.sources.length := by
  rw [h.sources, Context.putUnit, List.length_modify]

/-- Two runs start with their sources alone, but for one unit that the second finds ready. -/
structure Restarts (index : Nat) (w : BuildUnit) (cx₁ cx₂ : Context) :
    Prop extends Follows index w cx₁ cx₂ where
  bare : ∀ slot ∈ cx₁.sources, slot.unit = none
  gate : cx₂.facts.gate = cx₁.facts.gate
  multinames₁ : cx₁.registry.multinames = .empty
  multinames₂ : cx₂.registry.multinames = .empty

theorem Restarts.opened (h : Restarts index w cx₁ cx₂) : ∀ slot ∈ cx₁.sources, slot.Opened cx₁.store := by
  intro slot member v unit
  cases (h.bare slot member).symm.trans unit

section

variable (plain : s.Plain) (h : Restarts index w cx₁ cx₂) (first : s.Succeeds cx₁ order start₁)
  (here : start₁.unit? index = some u) (stands : w.StandsFor u)
include plain h first here stands

/-- If the unit stands for the one that the first run made, the second run gets to the same order. -/
theorem Restarts.prepared :
    ∃ start₂ phase, s.prepared? cx₂ = some (order, start₂) ∧
      start₂.sources = (start₁.putUnit index (some { w with lastPhase := phase })).sources ∧
      start₂.facts.gate = start₁.facts.gate ∧ start₁.registry.Coherent ∧ start₂.registry.Coherent := by
  obtain ⟨supports, -, defined, -⟩ := prepared?_iff_supports.1 first.prepared
  have ok : (s.parseAll cx₁).hasErrors = false := (defineUnits_evolves _).advances.ok defined
  obtain ⟨sources₁, parsed₁, -⟩ := parseAll_readies plain supports h.opened ok
  obtain ⟨phase, sources₂, parsed₂, follows⟩ := h.toFollows.parse plain List.nodup_range supports
    (fun j _ slot held => h.bare slot (List.mem_of_getElem? held)) ok
  have parsed₂ : s.parseAll cx₂ = { cx₂ with sources := sources₂ } := by
    rw [parseAll, h.toFollows.length]
    exact parsed₂
  have follows : Follows index { w with lastPhase := phase } (s.parseAll cx₁)
      { cx₂ with sources := sources₂ } :=
    follows
  have asks₁ := asks_of_prepared first.prepared parsed₁
  have filled : start₁.sources = (s.parseAll cx₁).sources := by
    rw [parsed₁, asks₁.remarks.sources]
    rfl
  have outlines : (s.parseAll cx₂).outline = (s.parseAll cx₁).outline := by
    have there : (s.parseAll cx₁).unit? index = some u := by
      rw [← here, Context.unit?, Context.unit?, filled]
    rw [parsed₂]
    exact (congrArg (List.map SourceSlot.outline) follows.sources).trans
      (Context.outline_putUnit there stands.source stands.topLevel stands.dependencies)
  have definitions : cx₂.registry.definitions = cx₁.registry.definitions := congrArg Facts.definitions h.gate
  obtain ⟨start₂, prepared, same⟩ :=
    prepared_of_outline first.prepared (h.toFollows.supports supports) h.ok definitions
    (h.multinames₂.trans h.multinames₁.symm) parsed₁ parsed₂ outlines
  have asks₂ := asks_of_prepared prepared parsed₂
  refine ⟨start₂, phase, prepared, ?_, ?_, ?_, ?_⟩
  · rw [asks₂.remarks.sources, Context.putUnit, filled]
    exact follows.sources
  · rw [asks₂.remarks.gate, asks₁.remarks.gate, same]
    exact congrArg (fun facts => { facts with definitions := start₁.registry.definitions }) h.gate
  · exact asks₁.coherent (Registry.coherent_of_empty h.multinames₁)
  · exact asks₂.coherent (Registry.coherent_of_empty h.multinames₂)

/-- The units of both runs are alike. -/
theorem Restarts.paired :
    ∃ start₂ phase, s.prepared? cx₂ = some (order, start₂) ∧
      s.Paired start₁.registry.definitions order start₁ start₂ ∧
      start₂.unit? index = some { w with lastPhase := phase } := by
  obtain ⟨start₂, phase, prepared, filled, gate, coherent₁, coherent₂⟩ := h.prepared plain first here stands
  have units (j : Nat) : start₂.unit? j
      = (start₁.putUnit index (some { w with lastPhase := phase })).unit? j := by
    rw [Context.unit?, Context.unit?, filled]
  obtain ⟨slot, held, -⟩ := Option.bind_eq_some_iff.1 here
  have own : start₂.unit? index = some { w with lastPhase := phase } :=
    (units index).trans (Context.unit?_putUnit_self held _)
  refine ⟨start₂, phase, prepared, ⟨rfl, gate, coherent₁, coherent₂, fun j listed => ?_⟩, own⟩
  obtain ⟨f, u₁, novel, -⟩ := first.novel h.bare listed
  have found : s.frontendAt? start₂ j = some f := by
    refine (frontendAt?_congr ?_ j).trans novel.found
    rw [filled]
    exact (start₁.advances_putUnit index _).sources
  by_cases other : j = index
  · subst other
    cases Option.some.inj (novel.here.symm.trans here)
    have definitions : start₂.registry.definitions = start₁.registry.definitions :=
      congrArg Facts.definitions gate
    refine ⟨f, u, _, novel, ⟨found, own, h.new, stands.format.trans novel.format, ?_⟩, stands.source,
      stands.styles⟩
    rw [← definitions]
    exact prepared_noted prepared own
  · have there : start₂.unit? j = some u₁ :=
      (units j).trans ((Context.unit?_putUnit_of_ne other start₁ _).trans novel.here)
    exact ⟨f, u₁, u₁, novel, ⟨found, there, novel.new, novel.format, novel.noted⟩, rfl, rfl⟩

end

theorem restarts_opening (config : Config) (store store' : ClassStore) (sources : List Source) (index : Nat)
    {w : BuildUnit} (new : w.hasTypeInfo = false) (tree : w.tree.isSome = true) :
    Restarts index w (.opening config store sources)
      ((Context.opening config store' sources).putUnit index (some w)) where
  new := new
  tree := tree
  sources := rfl
  config := rfl
  ok := rfl
  bare := by
    intro slot member
    obtain ⟨source, -, rfl⟩ := List.mem_map.1 member
    rfl
  gate := rfl
  multinames₁ := rfl
  multinames₂ := rfl

end Scheduler

end AbcBuild
