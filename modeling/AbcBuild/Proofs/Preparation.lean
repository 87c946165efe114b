/-
Module: AbcBuild.Proofs.Preparation
Purpose: How a run gets to its order.  If nothing fails, the first phase only fills the slots of the sources,
  and what the units define and the order are told by the outlines of the units.
Main exports: SourceSlot.Opened, Frontend.Readies, Scheduler.prepares_of_prepared, Scheduler.prepared_again
-/
import AbcBuild.Proofs.Exports
import AbcBuild.Proofs.Gate

namespace AbcBuild

variable {slot : SourceSlot} {index : Nat}

/-! ### The first phase -/

/-- The slot is empty, or its unit is taken over from an earlier build. -/
def SourceSlot.Opened (slot : SourceSlot) (store : ClassStore) : Prop :=
  ∀ u, slot.unit = some u → u.source = slot.source ∧ u.hasTypeInfo = true ∧ u.Tidy store

/-- The unit that a front end goes on with. -/
structure Frontend.Readies (f : Frontend) (store : ClassStore) (slot : SourceSlot) (u : BuildUnit) :
    Prop where
  source : u.source = slot.source
  proper : u.Proper f.format store
  filled : f.format = .abc → u.bytes ≠ []
  readable : slot.unit = none → ∃ content, slot.source.content = .ok content
  new : slot.unit = none → u.classTable = .empty
  unknown : slot.unit = none → u.hasTypeInfo = false
  known : ∀ v, slot.unit = some v → ∃ bytes, u = { v with bytes := bytes, lastPhase := some .parse1 } ∧
    (f.format = .properties ∨ v.bytes ≠ [] → bytes = v.bytes)

theorem Frontend.Parses.readies {f : Frontend} {cx : Context}
    {made : Bool × Option BuildUnit × Context} (h : f.Parses slot.source slot.unit cx made)
    (opened : slot.Opened cx.store) (ok : made.2.2.hasErrors = false) :
    ∃ u, made = (true, some u, cx) ∧ f.Readies cx.store slot { u with lastPhase := some .parse1 } := by
  cases h with
  | known bytes held isKnown filled kept =>
    obtain ⟨source, taken, tidy⟩ := opened _ held
    refine ⟨_, rfl, source, ⟨tidy, fun fresh => ?_⟩, fun abc => filled abc taken, fun none => ?_,
      fun none => ?_, fun none => ?_, fun v given => ?_⟩
    · cases taken.symm.trans fresh
    · cases held.symm.trans none
    · cases held.symm.trans none
    · cases held.symm.trans none
    · cases held.symm.trans given
      exact ⟨bytes, rfl, kept⟩
  | new unknown went readable fits filled =>
    have empty : slot.unit = none := by
      refine Option.eq_none_iff_forall_ne_some.2 fun u held => ?_
      have known := unknown u held
      rw [(opened u held).2.1] at known
      cases known
    have start : slot.unit.getD (BuildUnit.ofSource slot.source) = BuildUnit.ofSource slot.source := by
      rw [empty]; rfl
    rw [start, went ok]
    refine ⟨_, rfl, rfl, ⟨⟨List.nodup_nil, fun _ none => (List.not_mem_nil none).elim⟩, fun _ => ⟨rfl, ?_⟩⟩,
      filled, fun _ => readable, fun _ => rfl, fun _ => rfl, fun v given => ?_⟩
    · exact congrArg some fits
    · cases empty.symm.trans given
  | failed failed => cases failed.symm.trans ok

theorem Context.getElem?_putUnit {cx : Context} (held : cx.sources[index]? = some slot)
    (unit : Option BuildUnit) (j : Nat) :
    (cx.putUnit index unit).sources[j]? = if index = j then some { slot with unit := unit }
    else cx.sources[j]? := by
  simp only [putUnit, List.getElem?_modify]
  split
  next here =>
    rw [← here, held]
    rfl
  next => simp

namespace Scheduler

variable {s : Scheduler} {cx : Context}

/-- A source that is parsed without error gets a unit that is ready, and nothing else changes. -/
theorem parseAt_readies (plain : s.Plain) (supports : s.Supports cx)
    (held : cx.sources[index]? = some slot) (opened : slot.Opened cx.store)
    (ok : (s.parseAt cx index).hasErrors = false) :
    ∃ f u, s.frontend? slot.source.mime = some f ∧ f.Readies cx.store slot u ∧
      s.parseAt cx index = cx.putUnit index (some u) := by
  rcases parseAt_cases plain cx index with ⟨-, absent⟩ | ⟨slot', f, made, held', found, parses, -, heq⟩
  · cases held.symm.trans (absent supports)
  · cases Option.some.inj (held.symm.trans held')
    rw [heq] at ok ⊢
    obtain ⟨u, rfl, readies⟩ := parses.readies opened ok
    exact ⟨f, _, found, readies, cx.putUnit_putUnit index none _⟩

/-- Without errors, the first phase only fills slots. -/
theorem foldl_parseAt_readies (plain : s.Plain) {items : List Nat} (distinct : items.Nodup)
    (supports : s.Supports cx)
    (opened : ∀ i ∈ items, ∀ slot, cx.sources[i]? = some slot → slot.Opened cx.store)
    (ok : (items.foldl s.parseAt cx).hasErrors = false) :
    ∃ sources, items.foldl s.parseAt cx = { cx with sources := sources } ∧
      ∀ i slot, cx.sources[i]? = some slot → if i ∈ items then ∃ f u, s.frontend? slot.source.mime = some f ∧
        f.Readies cx.store slot u ∧ sources[i]? = some ⟨slot.source, some u⟩
      else sources[i]? = some slot := by
  induction items generalizing cx with
  | nil => exact ⟨cx.sources, rfl, fun i slot held => held⟩
  | cons index rest ih =>
    obtain ⟨new, distinct⟩ := List.nodup_cons.1 distinct
    have later := Context.Advances.foldl (parseAt_advances plain) rest (s.parseAt cx index)
    cases place : cx.sources[index]? with
    | none =>
      have idle : s.parseAt cx index = cx := by simp only [parseAt, place]
      rw [List.foldl_cons, idle] at ok ⊢
      obtain ⟨sources, heq, slots⟩ := ih distinct supports
        (fun i member => opened i (.tail _ member)) ok
      refine ⟨sources, heq, fun i slot held => ?_⟩
      have other : i ≠ index := by
        rintro rfl
        cases held.symm.trans place
      simpa [other] using slots i slot held
    | some slot₀ =>
      obtain ⟨f, u, found, readies, filled⟩ :=
        parseAt_readies plain supports place (opened index (.head _) slot₀ place) (later.ok ok)
      -- the step fills its own slot, which later items leave alone
      have slotAt (i : Nat) (other : i ≠ index) : (cx.putUnit index (some u)).sources[i]? = cx.sources[i]? :=
        (Context.getElem?_putUnit place (some u) i).trans (if_neg other.symm)
      have own : (cx.putUnit index (some u)).sources[index]? = some ⟨slot₀.source, some u⟩ :=
        (Context.getElem?_putUnit place (some u) index).trans (if_pos rfl)
      rw [List.foldl_cons, filled] at ok ⊢
      obtain ⟨sources, heq, slots⟩ := ih distinct (supports.advances (cx.advances_putUnit index (some u)))
        (fun i member slot held => opened i (.tail _ member) slot
          (slotAt i (fun same => new (same ▸ member)) ▸ held)) ok
      refine ⟨sources, heq, fun i slot held => ?_⟩
      by_cases other : i = index
      · subst other
        cases Option.some.inj (held.symm.trans place)
        have kept := slots i _ own
        rw [if_neg new] at kept
        rw [if_pos (.head _)]
        exact ⟨f, u, found, readies, kept⟩
      · simp only [List.mem_cons, other, false_or]
        exact slots i slot ((slotAt i other).trans held)

/-- So do all sources. -/
theorem parseAll_readies (plain : s.Plain) (supports : s.Supports cx)
    (opened : ∀ slot ∈ cx.sources, slot.Opened cx.store) (ok : (s.parseAll cx).hasErrors = false) :
    ∃ sources, s.parseAll cx = { cx with sources := sources } ∧
      ∀ (i : Nat) slot, cx.sources[i]? = some slot → ∃ f u, s.frontend? slot.source.mime = some f ∧
        f.Readies cx.store slot u ∧ sources[i]? = some ⟨slot.source, some u⟩ := by
  obtain ⟨sources, heq, slots⟩ := foldl_parseAt_readies plain List.nodup_range supports
    (fun i _ slot held => opened slot (List.mem_of_getElem? held)) ok
  refine ⟨sources, heq, fun i slot held => ?_⟩
  have filled := slots i slot held
  rwa [if_pos (List.mem_range.2 (List.getElem?_eq_some_iff.1 held).1)] at filled

end Scheduler

/-! ### Definitions and order -/

/-- What the definitions and the order of the units are told by. -/
def SourceSlot.outline (slot : SourceSlot) : Source × Option (String × List QName × Dependencies) :=
  (slot.source, slot.unit.map fun u => (u.source.name, u.topLevel, u.dependencies))

namespace Context

variable {cx cx' : Context}

def outline (cx : Context) : List (Source × Option (String × List QName × Dependencies)) :=
  cx.sources.map SourceSlot.outline

section

variable (h : cx'.outline = cx.outline)
include h

theorem sources_of_outline :
    cx'.sources.map SourceSlot.source = cx.sources.map SourceSlot.source := by
  have same := congrArg (List.map Prod.fst) h
  rwa [outline, outline, List.map_map, List.map_map] at same

theorem unit?_of_outline (index : Nat) :
    (cx'.unit? index).map (fun u => (u.source.name, u.topLevel, u.dependencies))
      = (cx.unit? index).map fun u => (u.source.name, u.topLevel, u.dependencies) := by
  have told (cx : Context) : (cx.unit? index).map (fun u => (u.source.name, u.topLevel, u.dependencies))
      = cx.outline[index]?.bind Prod.snd := by
    rw [outline, List.getElem?_map, unit?]
    cases cx.sources[index]? <;> rfl
  rw [told, told, h]

theorem isSome_unit?_of_outline (index : Nat) :
    (cx'.unit? index).isSome = (cx.unit? index).isSome := by
  rw [← Option.isSome_map (f := fun u : BuildUnit => (u.source.name, u.topLevel, u.dependencies)),
    unit?_of_outline h, Option.isSome_map]

theorem unitIndices_of_outline : cx'.unitIndices = cx.unitIndices := by
  have length : cx'.sources.length = cx.sources.length := by simpa [outline] using congrArg List.length h
  unfold unitIndices
  simp only [length, isSome_unit?_of_outline h]

section

variable (definitions : cx'.registry.definitions = cx.registry.definitions)
include definitions

theorem ancestor?_of_outline : cx'.ancestor? = cx.ancestor? := by
  have index (name : String) : cx'.indexOf? name = cx.indexOf? name := by
    have told (cx : Context) : cx.indexOf? name
        = (cx.sources.map SourceSlot.source).findIdx? fun source => source.name = name := by
      rw [List.findIdx?_map]
      rfl
    rw [told, told, sources_of_outline h]
  funext name
  unfold ancestor? Registry.definedIn?
  rw [definitions]
  cases cx.registry.definitions.get? name with
  | none => rfl
  | some source =>
    simp only [Option.bind_eq_bind, Option.bind_some, index]
    cases cx.indexOf? source with
    | none => rfl
    | some index =>
      have there := isSome_unit?_of_outline h index
      cases first : cx.unit? index <;> cases second : cx'.unit? index <;> simp_all

/-- What units inherit from can be told from the outline of a build and the answers of its registry. -/
theorem ancestry_of_outline (answers : cx'.registry.answer = cx.registry.answer) :
    cx'.ancestry = cx.ancestry := by
  funext index
  have inherited : ((cx'.unit? index).elim [] fun u => u.dependencies.inheritance)
      = (cx.unit? index).elim [] fun u => u.dependencies.inheritance := by
    have same := unit?_of_outline h index
    cases first : cx.unit? index <;> cases second : cx'.unit? index <;> simp_all
  unfold ancestry
  rw [inherited, answers, ancestor?_of_outline h definitions]

/-- The order is told by the outlines of the units. -/
theorem dependencyOrder_of_outline
    (answers : cx'.registry.answer = cx.registry.answer) {order : List Nat} {start : Context}
    (sorted : cx.dependencyOrder = (some order, start)) :
    ∃ start', cx'.dependencyOrder = (some order, start') := by
  obtain ⟨_, _, heq⟩ := cx.dependencyOrder_eq
  obtain ⟨start', _, heq'⟩ := cx'.dependencyOrder_eq
  rw [unitIndices_of_outline h, ancestry_of_outline h definitions answers] at heq'
  rw [heq] at sorted
  split at sorted
  next acyclic =>
    cases sorted
    exact ⟨start', heq'.trans (if_pos acyclic)⟩
  next => cases sorted

end

end

theorem asks_of_sorted {order : List Nat} {start : Context}
    (sorted : cx.dependencyOrder = (some order, start)) :
    cx.Asks start := by
  obtain ⟨start', asks, heq⟩ := cx.dependencyOrder_eq
  rw [heq] at sorted
  split at sorted
  next =>
    cases sorted
    exact asks
  next => cases sorted

end Context

namespace Registry

theorem defineAll_congr {r r' : Registry} (definitions : r'.definitions = r.definitions) (source : String)
    (names : List QName) :
    r'.defineAll source names = ({ r' with definitions := (r.defineAll source names).1.definitions },
      (r.defineAll source names).2) := by
  have defined : r'.definedIn? = r.definedIn? := congrArg Table.get? definitions
  rw [defineAll_eq, defineAll_eq]
  unfold noting refusal? free
  rw [defined, definitions]

end Registry

/-- The context with other definitions. -/
def Context.withDefinitions (cx : Context) (definitions : Table QName String) : Context :=
  { cx with registry := { cx.registry with definitions := definitions } }

namespace Scheduler

variable {s : Scheduler} {cx cx' : Context}

/-- Without errors, a unit's names are noted and nothing else happens. -/
theorem defineUnit_clear {u : BuildUnit} (ok : (defineUnit cx u).hasErrors = false) :
    (cx.registry.defineAll u.source.name u.topLevel).2 = [] ∧
      defineUnit cx u = { cx with registry := (cx.registry.defineAll u.source.name u.topLevel).1 } := by
  have clear : (cx.registry.defineAll u.source.name u.topLevel).2 = [] := by
    have told := (hasErrors_reports u.source.name (cx.registry.defineAll u.source.name u.topLevel).2
      { cx with registry := (cx.registry.defineAll u.source.name u.topLevel).1 }).symm.trans ok
    simpa using (Bool.or_eq_false_iff.1 told).2
  exact ⟨clear, by simp only [defineUnit, clear, List.foldl_nil]⟩

/-- Units that define the same names leave the same definitions. -/
theorem foldl_defineUnit_congr {units units' : List BuildUnit}
    (same : units'.map (fun u => (u.source.name, u.topLevel)) = units.map fun u =>
      (u.source.name, u.topLevel))
    (definitions : cx'.registry.definitions = cx.registry.definitions)
    (ok : (units.foldl defineUnit cx).hasErrors = false) :
    units'.foldl defineUnit cx' = cx'.withDefinitions (units.foldl defineUnit cx).registry.definitions := by
  induction units generalizing units' cx cx' with
  | nil =>
    cases List.map_eq_nil_iff.1 same
    rw [List.foldl_nil, List.foldl_nil, ← definitions]
    rfl
  | cons u rest ih =>
    obtain ⟨u', rest', rfl, here, later⟩ := List.map_eq_cons_iff.1 same
    obtain ⟨name, topLevel⟩ := Prod.mk.inj here
    have first : (defineUnit cx u).hasErrors = false :=
      (Context.Evolves.foldl defineUnit_evolves rest _).advances.ok ok
    obtain ⟨clear, noted⟩ := defineUnit_clear first
    have noted' : defineUnit cx' u' = cx'.withDefinitions (defineUnit cx u).registry.definitions := by
      rw [noted]
      simp only [defineUnit, name, topLevel, Registry.defineAll_congr definitions, clear, List.foldl_nil,
        Context.withDefinitions]
    rw [List.foldl_cons, List.foldl_cons, noted']
    exact ih later rfl ok

end Scheduler

theorem Context.units_of_outline {cx cx' : Context} (h : cx'.outline = cx.outline) :
    cx'.units.map (fun u => (u.source.name, u.topLevel)) = cx.units.map fun u =>
      (u.source.name, u.topLevel) := by
  have told (cx : Context) : cx.units.map (fun u => (u.source.name, u.topLevel))
      = cx.outline.filterMap fun slot => slot.2.map fun unit => (unit.1, unit.2.1) := by
    rw [outline, List.filterMap_map, units, List.map_filterMap]
    refine List.filterMap_congr fun slot _ => ?_
    cases held : slot.unit <;> simp [SourceSlot.outline, held]
  rw [told, told, h]

namespace Scheduler

variable {s : Scheduler} {cx cx' : Context}

/-- Without errors, what the units define is told by their outlines. -/
theorem defineUnits_of_outline (h : cx'.outline = cx.outline)
    (definitions : cx'.registry.definitions = cx.registry.definitions)
    (ok : (defineUnits cx).hasErrors = false) :
    defineUnits cx' = cx'.withDefinitions (defineUnits cx).registry.definitions :=
  foldl_defineUnit_congr (Context.units_of_outline h) definitions ok

/-! ### Runs that get to their order -/

variable {order : List Nat} {start : Context}

/-- What a run has done when it gets to its order: the slots are filled, and the definitions are noted. -/
structure Prepares (s : Scheduler) (cx start : Context) : Prop where
  log : start.log = cx.log
  store : start.store = cx.store
  sources : start.sources.map SourceSlot.source = cx.sources.map SourceSlot.source
  shared : start.shared = { cx.shared with definitions := start.registry.definitions }
  slots : ∀ (i : Nat) slot, cx.sources[i]? = some slot → ∃ f u, s.frontend? slot.source.mime = some f ∧
    f.Readies cx.store slot u ∧ start.sources[i]? = some ⟨slot.source, some u⟩
  idles : cx.Idles start

/-- If the first phase only fills the slots, a run has noted the definitions and asked for names when it gets
    to its order. -/
theorem asks_of_prepared (h : s.prepared? cx = some (order, start)) {sources : List SourceSlot}
    (parsed : s.parseAll cx = { cx with sources := sources }) :
    (({ cx with sources := sources } : Context).withDefinitions start.registry.definitions).Asks start := by
  obtain ⟨-, -, defined, sorted⟩ := prepared?_iff_supports.1 h
  have asks := Context.asks_of_sorted sorted
  have definitions := asks.remarks.definitions
  rw [defineUnits_of_outline rfl rfl defined, parsed] at asks
  rw [definitions, parsed]
  exact asks

theorem prepares_of_prepared (plain : s.Plain) (opened : ∀ slot ∈ cx.sources, slot.Opened cx.store)
    (h : s.prepared? cx = some (order, start)) : s.Prepares cx start := by
  obtain ⟨supports, -, defined, -⟩ := prepared?_iff_supports.1 h
  have parsed : (s.parseAll cx).hasErrors = false :=
    (defineUnits_evolves (s.parseAll cx)).advances.ok defined
  obtain ⟨sources, heq, slots⟩ := parseAll_readies plain supports opened parsed
  have same := (parseAll_advances plain cx).sources
  have asks := asks_of_prepared h heq
  generalize start.registry.definitions = definitions at asks
  rw [heq] at same
  obtain ⟨r, rfl, answers, rfl, -⟩ := asks
  exact ⟨rfl, rfl, same, rfl, slots, { Context.Idles.refl cx with }⟩

theorem Prepares.stored (h : s.Prepares cx start) (stored : cx.Stored) : start.Stored := by
  have classes : start.registry.classes = cx.registry.classes := congrArg SharedTables.classes h.shared
  exact stored.congr classes (h.store ▸ .refl _)

/-! ### Runs over units that are taken over -/

/-- The unit of the slot is taken over and has its bytes. -/
def Known (s : Scheduler) (slot : SourceSlot) : Prop :=
  ∃ u, slot.unit = some u ∧ u.hasTypeInfo = true ∧
    ∀ f, s.frontend? slot.source.mime = some f → f.format = .abc → u.bytes ≠ []

/-- The first phase leaves units alone that are taken over. -/
theorem parseAt_known (supports : s.Supports cx) (known : ∀ slot ∈ cx.sources, s.Known slot) (index : Nat) :
    ∃ sources, s.parseAt cx index = { cx with sources := sources } ∧
      sources.map SourceSlot.outline = cx.outline ∧ ∀ slot ∈ sources, s.Known slot := by
  unfold parseAt
  cases held : cx.sources[index]? with
  | none => exact ⟨cx.sources, rfl, rfl, known⟩
  | some slot =>
    obtain ⟨u, unit, kept, filled⟩ := known slot (List.mem_of_getElem? held)
    obtain ⟨f, found⟩ := Option.isSome_iff_exists.1 (supports slot (List.mem_of_getElem? held))
    have held' :=
      f.parse_of_known slot.source (cx.putUnit index none) (by rw [kept, Bool.true_or]) fun abc _ =>
      filled f found abc
    simp only [found, unit, held', if_true, Option.map_some, Context.putUnit_putUnit]
    have slots := Context.getElem?_putUnit held (some { u with lastPhase := some .parse1 })
    refine ⟨_, rfl, List.ext_getElem? fun j => ?_, fun slot' member => ?_⟩
    · rw [Context.outline, List.getElem?_map, List.getElem?_map]
      refine (congrArg (Option.map _) (slots j)).trans ?_
      split
      next here =>
        rw [← here, held]
        simp [SourceSlot.outline, unit]
      next => rfl
    · obtain ⟨j, held'⟩ := List.mem_iff_getElem?.1 member
      have place := (slots j).symm.trans held'
      split at place
      next =>
        cases place
        exact ⟨_, rfl, kept, filled⟩
      next => exact known slot' (List.mem_of_getElem? place)

/-- Units that are taken over are parsed to themselves, as far as the outline tells. -/
theorem parseAll_known (supports : s.Supports cx) (known : ∀ slot ∈ cx.sources, s.Known slot) :
    ∃ sources, s.parseAll cx = { cx with sources := sources } ∧
      sources.map SourceSlot.outline = cx.outline := by
  unfold parseAll
  generalize List.range cx.sources.length = items
  induction items generalizing cx with
  | nil => exact ⟨cx.sources, rfl, rfl⟩
  | cons index rest ih =>
    obtain ⟨sources, heq, outlines, known'⟩ := parseAt_known supports known index
    have supports' : s.Supports { cx with sources := sources } :=
      supports.congr (Context.sources_of_outline outlines)
    obtain ⟨sources', heq', outlines'⟩ := ih supports' known'
    refine ⟨sources', ?_, outlines'.trans outlines⟩
    rw [List.foldl_cons, heq]
    exact heq'

theorem outline_of_prepared (h : s.prepared? cx = some (order, start)) :
    start.outline = (s.parseAll cx).outline := by
  obtain ⟨-, -, -, sorted⟩ := prepared?_iff_supports.1 h
  have sources := (Context.asks_of_sorted sorted).remarks.sources
  rw [Context.outline, sources, (defineUnits_evolves _).sources]
  rfl

/-- Two runs whose first phases only fill the slots, and end with the same outlines, get to the same
    order. -/
theorem prepared_of_outline (h : s.prepared? cx = some (order, start)) (supports : s.Supports cx')
    (ok : cx'.hasErrors = false) (definitions : cx'.registry.definitions = cx.registry.definitions)
    (multinames : cx'.registry.multinames = cx.registry.multinames) {sources sources' : List SourceSlot}
    (parsed : s.parseAll cx = { cx with sources := sources })
    (parsed' : s.parseAll cx' = { cx' with sources := sources' })
    (outlines : (s.parseAll cx').outline = (s.parseAll cx).outline) :
    ∃ start', s.prepared? cx' = some (order, start') ∧
      start'.registry.definitions = start.registry.definitions := by
  obtain ⟨-, -, defined, sorted⟩ := prepared?_iff_supports.1 h
  -- the definitions are the same, and with them the answers
  have noted : defineUnits (s.parseAll cx) = (s.parseAll cx).withDefinitions _ :=
    defineUnits_of_outline rfl rfl defined
  have noted' := defineUnits_of_outline outlines (by rw [parsed', parsed]; exact definitions) defined
  have answers : (defineUnits (s.parseAll cx')).registry.answer
      = (defineUnits (s.parseAll cx)).registry.answer := by
    rw [noted']
    refine Registry.answer_congr rfl ?_
    rw [noted, parsed', parsed]
    exact multinames
  obtain ⟨start', sorted'⟩ := Context.dependencyOrder_of_outline
    (by rw [noted', noted]; exact outlines) (by rw [noted']; rfl) answers sorted
  refine ⟨start', prepared?_iff_supports.2 ⟨supports, ok, ?_, sorted'⟩, ?_⟩
  · rw [noted', parsed']
    exact ok
  · rw [(Context.asks_of_sorted sorted').remarks.definitions,
      (Context.asks_of_sorted sorted).remarks.definitions, noted']
    rfl

/-- A run over units that are taken over from another run gets to the same order. -/
theorem prepared_again (plain : s.Plain) (opened : ∀ slot ∈ cx.sources, slot.Opened cx.store)
    (h : s.prepared? cx = some (order, start))
    (definitions : cx'.registry.definitions = cx.registry.definitions)
    (multinames : cx'.registry.multinames = cx.registry.multinames) (ok : cx'.hasErrors = false)
    (outlines : cx'.outline = start.outline) (known : ∀ slot ∈ cx'.sources, s.Known slot) :
    ∃ start', s.prepared? cx' = some (order, start') ∧
      start'.registry.definitions = start.registry.definitions := by
  obtain ⟨supports, -, defined, -⟩ := prepared?_iff_supports.1 h
  have first : cx'.outline = (s.parseAll cx).outline := outlines.trans (outline_of_prepared h)
  have supports' : s.Supports cx' :=
    (supports.advances (parseAll_advances plain cx)).congr (Context.sources_of_outline first)
  obtain ⟨sources, parsed, -⟩ := parseAll_readies plain supports opened
    ((defineUnits_evolves _).advances.ok defined)
  obtain ⟨sources', parsed', same⟩ := parseAll_known supports' known
  have again : (s.parseAll cx').outline = (s.parseAll cx).outline := by
    rw [parsed', ← first]
    exact same
  exact prepared_of_outline h supports' ok definitions multinames parsed parsed' again

end Scheduler

end AbcBuild
