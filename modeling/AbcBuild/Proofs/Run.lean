/-
Module: AbcBuild.Proofs.Run
Purpose: A whole build.  Whether it comes to its end, and what it has published then, is told by the sources
  and the settings, whichever units are taken over from an earlier build.
Main exports: Part.parse_eq, Scheduler.parseAll_eq, Builds, Scheduler.run_eq
-/
import AbcBuild.Proofs.Definitions
import AbcBuild.Proofs.Parsing

namespace AbcBuild

variable {config : Config}

/-! ### Parsing a source -/

namespace Part

variable {b : Basis config} {part : Part config} {cx : Context} {unit : Option BuildUnit}

/-- A unit that is already there is taken as it is. -/
theorem parse_known {u : BuildUnit} (h : part.After b cx.store .parse1 u) :
    part.tree.frontend.parse part.source (some u) cx = (true, some u, cx) := by
  rcases h with kept | parsed
  · refine Frontend.parse_of_known _ _ _ (by rw [kept.kept, Bool.true_or]) fun abc _ => ?_
    cases htree : part.tree with
    | abc p =>
      rw [kept.bytes]
      exact (AbcFrontend.bytecode_eq_ok (of_abc htree).2.1).2
    | properties file =>
      rw [htree] at abc
      cases abc
  · have parsed : part.Parsed u := parsed
    refine Frontend.parse_of_known _ _ _ (by simp [parsed.tree]) fun _ kept => ?_
    cases parsed.new.1.symm.trans kept

/-- A unit is made of the source. -/
theorem parse_new (ok : cx.hasErrors = false) (settings : cx.config = config) :
    part.tree.frontend.parse part.source none cx = (true, some part.unit, cx) := by
  have made : part.tree.frontend.made? cx.config part.source (.ofSource part.source) = some part.unit := by
    cases htree : part.tree with
    | abc p =>
      obtain ⟨-, found, decoded, input⟩ := of_abc htree
      simp only [ParseTree.frontend, Frontend.made?, found, Except.toOption, Option.bind_some, decoded,
        Option.map_some, unit, htree, input]
    | properties file =>
      obtain ⟨-, read, made⟩ := of_properties htree
      simp only [ParseTree.frontend, Frontend.made?, read, settings, Except.toOption, Option.map_some,
        ← made, unit, htree]
  have plain : part.tree.frontend.extensions = [] := by cases part.tree <;> rfl
  rw [Frontend.parse_made plain (fun _ none => (Option.not_mem_none _ none).elim) made]
  simp [ok]

/-- The first phase gives a part its unit, unless it has one. -/
theorem parse_eq (ok : cx.hasErrors = false) (settings : cx.config = config)
    (h : ∀ u ∈ unit, part.After b cx.store .parse1 u) :
    ∃ u, part.tree.frontend.parse part.source unit cx = (true, some u, cx) ∧
      part.After b cx.store .parse1 u := by
  cases unit with
  | none =>
    exact ⟨_, parse_new ok settings, Or.inr ⟨_, rfl⟩⟩
  | some u => exact ⟨u, parse_known (h u rfl), h u rfl⟩

end Part

namespace Scheduler

variable {cx : Context} {b : Basis config} {parts : List (Part config)}

/-- Each part of the order gets its unit; nothing else changes. -/
theorem parseList_eq {order : List Nat} (inside : ∀ i ∈ order, i < parts.length) (ok : cx.hasErrors = false)
    (settings : cx.config = config) (h : cx.Holds parts fun i part unit =>
      (∀ u ∈ unit, part.After b cx.store .parse1 u) ∧
        (i ∉ order → part.Reached b cx.store .parse1 unit)) :
    ∃ sources, order.foldl standard.parseAt cx = { cx with sources := sources } ∧
      (order.foldl standard.parseAt cx).Holds parts fun _ part unit =>
        part.Reached b cx.store .parse1 unit := by
  induction order generalizing cx with
  | nil => exact ⟨cx.sources, rfl, h.imp fun i part unit _ holds => holds.2 List.not_mem_nil⟩
  | cons index rest ih =>
    obtain ⟨part, hpart⟩ : ∃ part, parts[index]? = some part :=
      ⟨_, List.getElem?_eq_getElem (inside index (.head _))⟩
    obtain ⟨unit, slot, holds, -⟩ := h.2 index part hpart
    obtain ⟨u, parsed, after⟩ : ∃ u, part.tree.frontend.parse part.source unit (cx.putUnit index none)
        = (true, some u, cx.putUnit index none) ∧ part.After b cx.store .parse1 u :=
      Part.parse_eq ok settings holds
    have step : standard.parseAt cx index
        = cx.putUnit index (some { u with lastPhase := some .parse1 }) := by
      simp [parseAt, slot, parsed]
    have first : (standard.parseAt cx index).Holds parts fun i part unit =>
        (∀ u ∈ unit, part.After b cx.store .parse1 u) ∧
          (i ∉ rest → part.Reached b cx.store .parse1 unit) := by
      rw [step]
      refine h.modify hpart rfl ⟨fun u' found => ?_, fun _ => ⟨_, rfl, after.noted _, rfl⟩⟩ ?_
      · cases found
        exact after.noted _
      · rintro i part unit other ⟨all, there⟩
        exact ⟨all, fun absent => there fun later => (List.mem_cons.1 later).elim other absent⟩
    rw [List.foldl_cons]
    rw [step] at first ⊢
    have still : (cx.putUnit index (some { u with lastPhase := some .parse1 })).hasErrors = false := ok
    obtain ⟨sources, heq, units⟩ := ih (fun i hi => inside i (.tail _ hi)) still settings first
    exact ⟨sources, heq, units⟩

/-- All parts get their units. -/
theorem parseAll_eq (ok : cx.hasErrors = false) (settings : cx.config = config)
    (h : cx.Holds parts fun _ part unit => ∀ u ∈ unit, part.After b cx.store .parse1 u) :
    ∃ sources, standard.parseAll cx = { cx with sources := sources } ∧
      (standard.parseAll cx).Holds parts fun _ part unit => part.Reached b cx.store .parse1 unit := by
  refine parseList_eq (fun i hi => h.1 ▸ List.mem_range.1 hi) ok settings ?_
  refine h.imp fun i part unit hpart holds => ⟨holds, fun absent => (absent ?_).elim⟩
  rw [List.mem_range, h.1]
  exact (List.getElem?_eq_some_iff.1 hpart).1

/-! ### Sources that cannot be parsed -/

theorem frontend?_standard {mime : String} {frontend : Frontend}
    (h : standard.frontend? mime = some frontend) :
    (mime = Mime.abc ∧ frontend = { format := .abc }) ∨
      (mime = Mime.properties ∧ frontend = { format := .properties }) := by
  have supports := List.find?_some h
  have known : frontend = { format := .abc } ∨ frontend = { format := .properties } := by
    simpa [standard, ofFormats] using List.mem_of_find?_eq_some h
  rcases known with rfl | rfl
  · exact Or.inl ⟨(of_decide_eq_true supports).symm, rfl⟩
  · exact Or.inr ⟨(of_decide_eq_true supports).symm, rfl⟩

/-- A source that cannot be parsed is an error. -/
theorem parse_unread {source : Source} {frontend : Frontend}
    (h : standard.frontend? source.mime = some frontend) (unread : source.tree? cx.config = none) :
    (frontend.parse source none cx).2.2.hasErrors = true := by
  have unmade : frontend.made? cx.config source (.ofSource source) = none := by
    unfold Source.tree? at unread
    rcases frontend?_standard h with ⟨mime, rfl⟩ | ⟨mime, rfl⟩
    · rw [if_pos mime] at unread
      simpa [Frontend.made?, Option.bind_eq_none_iff] using unread
    · rw [if_neg (by rw [mime]; decide), if_pos mime] at unread
      simpa [Frontend.made?] using unread
  obtain ⟨cx', heq, failed, -⟩ :=
    Frontend.parse_unmade (plain_standard.frontend? h)
      (fun _ none => (Option.not_mem_none _ none).elim) unmade
  rw [heq]
  exact failed

/-- Errors stay, and a source that cannot be parsed adds one. -/
theorem parseList_failed {order : List Nat}
    (h : cx.hasErrors = true ∨ ∃ i ∈ order, ∃ source, cx.sources[i]? = some ⟨source, none⟩ ∧
      (standard.frontend? source.mime).isSome = true ∧ source.tree? cx.config = none) :
    (order.foldl standard.parseAt cx).hasErrors = true := by
  induction order generalizing cx with
  | nil =>
    rcases h with failed | ⟨i, none, -⟩
    · exact failed
    · cases none
  | cons index rest ih =>
    refine ih ?_
    rcases h with failed | ⟨i, hi, source, slot, supported, unread⟩
    · exact Or.inl ((parseAt_advances plain_standard cx index).hasErrors failed)
    · by_cases here : i = index
      · subst here
        obtain ⟨frontend, found⟩ := Option.isSome_iff_exists.1 supported
        have failed : (frontend.parse source none (cx.putUnit i none)).2.2.hasErrors = true :=
          parse_unread found unread
        refine Or.inl ?_
        simp only [parseAt, slot, found]
        exact failed
      · obtain ⟨unit, log, heq, -⟩ := parseAt_eq plain_standard cx index
        rw [heq]
        exact Or.inr ⟨i, (List.mem_cons.1 hi).resolve_left here, source,
          by simp [Context.putUnit, Ne.symm here, slot], supported, unread⟩

end Scheduler

/-! ### The outcome -/

/-- The parts make a build without errors, which publishes what the ledger tells. -/
structure Part.Builds (parts : List (Part config)) (l : Ledger config) : Prop where
  clear : Part.Clear parts
  acyclic : (Part.graph parts).cycles = []
  published : ({} : Ledger config).publishAll ((Part.graph parts).order.filterMap (parts[·]?)) = some l

/-- A build is about to start.  The units that are there are taken over from earlier builds. -/
structure Context.Opens (cx : Context) (b : Basis config) (sources : List Source) : Prop where
  settings : cx.config = config
  ok : cx.hasErrors = false
  definitions : cx.registry.definitions = .empty
  multinames : cx.registry.multinames = .empty
  bundles : cx.registry.bundleSources = .empty
  styles : cx.registry.styles = .empty
  classes : cx.registry.classes = .empty
  distinct : (sources.map Source.name).Nodup
  parts : ∀ parts : List (Part config), parts.map Part.source = sources → b.parts = parts
  sources : cx.sources.map SourceSlot.source = sources
  admits : b.Open
  kept : ∀ slot ∈ cx.sources, ∀ u ∈ slot.unit,
    ∃ part : Part config, part.source = slot.source ∧ part.Kept b cx.store u

theorem Part.exists_of_sources (config : Config) (sources : List Source) :
    (∃ parts : List (Part config), parts.map Part.source = sources) ∨
    ∃ s ∈ sources, s.tree? config = none := by
  induction sources with
  | nil => exact Or.inl ⟨[], rfl⟩
  | cons s rest ih =>
    cases parsed : s.tree? config with
    | none => exact Or.inr ⟨s, .head _, parsed⟩
    | some tree =>
      rcases ih with ⟨parts, heq⟩ | ⟨s', hs', unread⟩
      · exact Or.inl ⟨⟨s, tree, parsed⟩ :: parts, by rw [List.map_cons, heq]⟩
      · exact Or.inr ⟨s', .tail _ hs', unread⟩

variable {cx : Context} {b : Basis config} {sources : List Source}

theorem Part.eq_of_sources {parts parts' : List (Part config)}
    (h : parts.map Part.source = parts'.map Part.source) :
    parts = parts' :=
  List.map_injective_iff.2 (fun _ _ same => Part.ext_source same) h

section

variable (h : cx.Opens b (b.parts.map Part.source))
include h

/-- The slots of a build that is about to start are those of its parts. -/
theorem Context.Opens.slots :
    cx.Holds b.parts fun _ part unit => ∀ u ∈ unit, part.After b cx.store .parse1 u := by
  refine ⟨by rw [← List.length_map SourceSlot.source, h.sources, List.length_map],
    fun index part hpart => ?_⟩
  have sources := congrArg (·[index]?) h.sources
  simp only [List.getElem?_map, hpart, Option.map_some] at sources
  obtain ⟨⟨_, unit⟩, slot, rfl⟩ := Option.map_eq_some_iff.1 sources
  refine ⟨unit, slot, fun u hu => Or.inl ?_⟩
  obtain ⟨part', source, kept⟩ := h.kept _ (List.mem_of_getElem? slot) u hu
  cases Part.ext_source source
  exact kept

/-- Once the registry knows what the parts define, it can answer for them. -/
theorem Context.Opens.grounded (clear : Part.Clear b.parts)
    {definitions : Table QName String} (known : ∀ name, definitions.get? name = Part.definer b.parts name)
    (slots : List SourceSlot) :
    ({ cx with
      registry := { cx.registry with definitions := definitions }, sources := slots } : Context).Grounded
        b.parts := by
  refine ⟨h.settings, fun m q kept => ?_, known, clear, ?_⟩
  · have none : cx.registry.multinames.get? m = none := by
      rw [h.multinames]
      rfl
    cases none.symm.trans kept
  · have names := h.distinct
    rw [List.map_map] at names
    exact names

end

/-- What follows the first phase starts with an empty ledger. -/
theorem Context.Asks.running {cx' : Context} (asks : cx.Asks cx') (ground : cx.Grounded b.parts)
    (ok : cx.hasErrors = false) (bundles : cx.registry.bundleSources = .empty)
    (styles : cx.registry.styles = .empty)
    (classes : cx.registry.classes = .empty)
    (units : cx.Holds b.parts fun _ part unit => part.Reached b cx.store .parse1 unit) :
    cx'.Running b {} fun _ => .parse1 := by
  have ground := asks.grounded ground
  obtain ⟨r, rfl, _, rfl, -⟩ := asks
  exact ⟨ground, ⟨ok, bundles, styles, .nil classes⟩, units⟩

/-- The order of the parts lists them all. -/
theorem Part.mem_order {parts : List (Part config)} {i : Nat} (bound : i < parts.length) :
    i ∈ (Part.graph parts).order := by
  refine Graph.mem_order ?_
  rw [Part.graph, Context.nodes_graphOf]
  exact List.mem_range.2 bound

namespace Scheduler

variable {order : List Nat} {start : Context}

/-- A build that gets past the first phase is one of parts. -/
theorem parts_of_prepared (h : cx.Opens b sources) (past : standard.prepared? cx = some (order, start)) :
    b.parts.map Part.source = sources := by
  obtain ⟨supports, -, clear, -⟩ := prepared?_iff_supports.1 past
  rcases Part.exists_of_sources config sources with ⟨parts, same⟩ | ⟨s, listed, unread⟩
  · rw [h.parts parts same, same]
  · rw [← h.sources] at listed
    obtain ⟨⟨_, unit⟩, member, rfl⟩ := List.mem_map.1 listed
    have absent : unit = none := by
      refine Option.eq_none_iff_forall_not_mem.2 fun u hu => ?_
      obtain ⟨part, source, -⟩ := h.kept _ member u hu
      have parsed := part.parsed
      rw [source, unread] at parsed
      cases parsed
    subst absent
    obtain ⟨i, slot⟩ := List.mem_iff_getElem?.1 member
    have bound := (List.getElem?_eq_some_iff.1 slot).1
    rw [← h.settings] at unread
    have failed : (standard.parseAll cx).hasErrors = true :=
      parseList_failed (Or.inr ⟨i, List.mem_range.2 bound, _, slot, supports _ member, unread⟩)
    cases clear.symm.trans ((defineUnits_evolves _).advances.hasErrors failed)

section

variable (h : cx.Opens b (b.parts.map Part.source))
include h

/-- The first phase of a build of parts gives them their units, and notes what they define. -/
theorem run_parse :
    (Part.Clear b.parts ∧ ∃ definitions slots,
        defineUnits (standard.parseAll cx)
          = { cx with registry := { cx.registry with definitions := definitions }, sources := slots } ∧
        (∀ name, definitions.get? name = Part.definer b.parts name) ∧
        (defineUnits (standard.parseAll cx)).Holds b.parts fun _ part unit =>
          part.Reached b cx.store .parse1 unit) ∨
      (¬Part.Clear b.parts ∧ (defineUnits (standard.parseAll cx)).hasErrors = true) := by
  obtain ⟨slots, parsed, units⟩ := parseAll_eq h.ok h.settings h.slots
  have ok : (standard.parseAll cx).hasErrors = false := by
    rw [parsed]
    exact h.ok
  have unknown : ∀ name,
      (standard.parseAll cx).registry.definitions.get? name
        = Part.definer ([] : List (Part config)) name := by
    intro name
    rw [parsed, h.definitions]
    rfl
  have first : Part.Clear ([] : List (Part config)) := fun part member => (List.not_mem_nil member).elim
  rcases defineList_eq units.fits.units ok unknown first with
    ⟨clear, definitions, defined, answers⟩ | failed
  · have defined : defineUnits (standard.parseAll cx)
        = { cx with registry := { cx.registry with definitions := definitions }, sources := slots } := by
      refine Eq.trans defined ?_
      rw [parsed]
    refine Or.inl ⟨clear, definitions, slots, defined, answers, ?_⟩
    rw [defined]
    rw [parsed] at units
    exact units
  · exact Or.inr failed

theorem running_of_prepared (past : standard.prepared? cx = some (order, start)) :
    order = (Part.graph b.parts).order ∧ (Part.graph b.parts).cycles = [] ∧
      start.Running b {} fun _ => .parse1 := by
  obtain ⟨-, -, parsed, sorted⟩ := prepared?_iff_supports.1 past
  rcases run_parse h with ⟨clear, definitions, slots, defined, known, units⟩ | ⟨-, failed⟩
  · rw [defined] at sorted units
    have ground := h.grounded clear known slots
    obtain ⟨cx', asks, ordered⟩ := Context.dependencyOrder_parts units.fits ground
    split at ordered
    next acyclic =>
      rw [ordered] at sorted
      cases sorted
      exact ⟨rfl, acyclic, asks.running ground h.ok h.bundles h.styles h.classes units⟩
    next =>
      rw [sorted] at ordered
      cases ordered
  · cases parsed.symm.trans failed

/-- A build of parts whose definitions are clear and that can be ordered gets past the first phase. -/
theorem prepared_of_parts (clear : Part.Clear b.parts) (acyclic : (Part.graph b.parts).cycles = []) :
    ∃ start, standard.prepared? cx = some ((Part.graph b.parts).order, start) := by
  have supports : standard.Supports cx := by
    intro slot member
    have mapped := List.mem_map_of_mem (f := SourceSlot.source) member
    rw [h.sources] at mapped
    obtain ⟨part, -, source⟩ := List.mem_map.1 mapped
    rw [← source, part.frontend?_eq]
    rfl
  rcases run_parse h with ⟨-, definitions, slots, defined, known, units⟩ | ⟨clash, -⟩
  · rw [defined] at units
    obtain ⟨start, -, ordered⟩ := Context.dependencyOrder_parts units.fits (h.grounded clear known slots)
    rw [if_pos acyclic, ← defined] at ordered
    refine ⟨start, prepared?_iff_supports.2 ⟨supports, h.ok, ?_, ordered⟩⟩
    rw [defined]
    exact h.ok
  · exact (clash clear).elim

end

/-- Once all units of a build are analyzed, it comes to its end if the parts can be published. -/
theorem completed_of_analyzed (past : standard.prepared? cx = some ((Part.graph b.parts).order, start))
    (analyzed : (standard.through (Part.graph b.parts).order analyses start).Running b {} fun _ => .analyze3)
    {l : Ledger config}
    (published : ({} : Ledger config).publishAll
      ((Part.graph b.parts).order.filterMap (b.parts[·]?)) = some l) :
    (standard.run cx).2.Completed b l := by
  have complete : ∀ i < b.parts.length, i ∈ (Part.graph b.parts).order := fun _ => Part.mem_order
  have ends := publish_analyzed (Part.graph b.parts).nodup_order complete analyzed
  rw [published, ← through_later] at ends
  rw [(run_clear plain_standard past ends.follows.ok).1]
  exact completed_finishAll complete ends

/-- A build comes to its end if its sources can be parsed and make one. -/
theorem run_eq (h : cx.Opens b sources) :
    (∃ l, b.parts.map Part.source = sources ∧ Part.Builds b.parts l ∧ (standard.run cx).2.Completed b l) ∨
      ((standard.run cx).2.hasErrors = true ∧ ∀ (parts : List (Part config)) l,
        parts.map Part.source = sources → ¬Part.Builds parts l) := by
  cases past : standard.prepared? cx with
  | some found =>
    obtain ⟨order, start⟩ := found
    have sources := parts_of_prepared h past
    subst sources
    obtain ⟨rfl, acyclic, running⟩ := running_of_prepared h past
    have distinct := (Part.graph b.parts).nodup_order
    have complete : ∀ i < b.parts.length, i ∈ (Part.graph b.parts).order := fun _ => Part.mem_order
    have analyzed := running_analyses distinct complete running h.admits
    cases published : ({} : Ledger config).publishAll
      ((Part.graph b.parts).order.filterMap (b.parts[·]?)) with
    | none =>
      have ends := publish_analyzed distinct complete analyzed
      rw [published, ← through_later] at ends
      refine Or.inr ⟨?_, fun parts' l same builds => ?_⟩
      · by_contra ok
        cases ends.symm.trans (clear_of_ok plain_standard past (Bool.eq_false_iff.2 ok))
      · cases Part.eq_of_sources same
        cases published.symm.trans builds.published
    | some l =>
      exact Or.inl ⟨l, rfl, ⟨running.ground.clear, acyclic, published⟩,
        completed_of_analyzed past analyzed published⟩
  | none =>
    rcases standard.run_cases cx with ⟨order, start, past', -⟩ | ⟨phase, cx', halted, -, failed, -⟩
    · cases past.symm.trans past'
    · refine Or.inr ⟨by rw [halted, failed], ?_⟩
      rintro parts l rfl builds
      cases h.parts parts rfl
      obtain ⟨start, past'⟩ := prepared_of_parts h builds.clear builds.acyclic
      cases past.symm.trans past'

end Scheduler

end AbcBuild
