/-
Module: AbcBuild.Proofs.PairedRuns
Purpose: Two runs whose units come from the same sources and are new.  Whether a unit can publish depends on
  what the units before it have declared and not on their frames or classes, so the second run fails only if
  the first does.
Main exports: Facts.gate, Facts.publish, Scheduler.Paired.ends, Scheduler.Paired.lists
-/
import AbcBuild.Proofs.Gathering
import AbcBuild.Proofs.Replay
import AbcBuild.Proofs.Unframed

namespace AbcBuild

/-! ### Publishing new units -/

namespace Facts

/-- What decides whether units can publish. -/
def gate (facts : Facts) : Facts := { facts with sources := [], classes := .empty }

/-- The facts after a new unit has published, but for its classes. -/
def publish (facts : Facts) (format : InputFormat) (u : BuildUnit) : Facts :=
  match format with
  | .abc => Part.styled facts u.styles
  | .properties =>
    let key := BundleFrontend.bundleKey u.source facts.config.locale
    if (facts.bundles.get? key).any (· ≠ u.source.name) then { facts with failed := true }
    else Part.bundled facts key u.source.name

/-- If two builds agree on all that decides whether units can publish, then publishing units of one source
    and of equal styles leaves them in agreement.  The classes, which the units may show differently, play no
    part in this. -/
theorem gate_publish {facts facts' : Facts} {u u' : BuildUnit} (h : facts'.gate = facts.gate)
    (source : u'.source = u.source) (styles : u'.styles = u.styles) (format : InputFormat) :
    (facts'.publish format u').gate = (facts.publish format u).gate := by
  obtain ⟨config, sources, definitions, bundles, declared, classes, failed⟩ := facts
  cases h
  cases format with
  | abc => simp only [publish, gate, Part.styled, styles]
  | properties =>
    simp only [publish, source]
    split <;> rfl

/-- Publishing defines no names. -/
theorem definitions_publish (facts : Facts) (format : InputFormat) (u : BuildUnit) :
    (facts.publish format u).definitions = facts.definitions := by
  cases format with
  | abc => rfl
  | properties =>
    simp only [publish]
    split <;> rfl

end Facts

variable {p : Program} {cx' cx : Context} {u : BuildUnit} {R : Nat × ClassDef → ClassDescriptor → Prop}
variable {defined : Option (QName → Bool)}

theorem Program.Lists.mono {store store' : ClassStore}
    {table : Table String ClassId} (h : p.Lists R store table) (more : store.Extends store') :
    p.Lists R store' table := by
  refine ⟨h.keys, fun name id listed => ?_⟩
  obtain ⟨placed, d, last, holds, publishes⟩ := h.shows name id listed
  exact ⟨placed, d, last, holds, publishes.mono more⟩

/-- A new bundle is registered unless another source has one of its name. -/
theorem BundleFrontend.publish_becomes (new : u.hasTypeInfo = false)
    (format : u.tree.map ParseTree.format = some .properties)
    (noted : ∀ name ∈ u.topLevel, cx.registry.definitions.get? name = some u.source.name)
    (coherent : cx.registry.Coherent) :
    ∃ classes, cx.Becomes { cx.facts.publish .properties u with classes := classes }
      (publish [] u cx).2 := by
  obtain ⟨file, held⟩ := u.exists_properties format
  unfold Facts.publish
  dsimp only
  split
  next taken =>
    obtain ⟨e, refused⟩ := registered_taken noted rfl taken
    rw [publish_refused (congrArg Prod.snd refused), refused]
    exact ⟨_, Context.becomes_error coherent _ _⟩
  next free =>
    obtain ⟨accepted, table⟩ := opened_becomes noted rfl (Bool.eq_false_iff.2 free) coherent
    obtain ⟨entries, cx₁, publishes, heq⟩ := publish_new accepted new held
    have entered := publishes.becomes table.coherent
    rw [table.facts] at entered
    rw [heq]
    exact ⟨_, table.trans entered⟩

/-- What publishing a new unit changes is told by its source and its styles. -/
theorem Frontend.step_becomes {f : Frontend} (plain : f.extensions = []) (new : u.hasTypeInfo = false)
    (format : u.tree.map ParseTree.format = some f.format)
    (noted : ∀ name ∈ u.topLevel, cx.registry.definitions.get? name = some u.source.name)
    (ok : cx.hasErrors = false)
    (coherent : cx.registry.Coherent) :
    ∃ classes, cx.Becomes { cx.facts.publish f.format u with classes := classes }
      (f.step .analyze4 u cx).2 := by
  rw [f.step_publishes u ok, plain]
  cases kind : f.format with
  | abc =>
    obtain ⟨p, program⟩ := u.exists_program (format.trans (congrArg some kind))
    obtain ⟨cx', _, entries, _, published, becomes, -⟩ := Part.publish_gives new program
      (fun _ _ => Publication.gives_origins p _ _ u.source.name)
        (fun _ none => (Option.not_mem_none _ none).elim)
      ok coherent
    rw [published]
    exact ⟨_, becomes⟩
  | properties => exact BundleFrontend.publish_becomes new (format.trans (congrArg some kind)) noted coherent

/-! ### Phases that do not publish -/

theorem Context.Remarks.gate (h : cx.Remarks cx') : cx'.facts.gate = cx.facts.gate := by
  unfold facts Facts.gate hasErrors
  rw [h.config, h.definitions, h.bundles, h.styles, h.log.hasErrors_eq]

namespace Scheduler

variable {s : Scheduler} {cx cx' : Context} {index : Nat} {f : Frontend} {u : BuildUnit}

/-! ### The phase that publishes -/

/-- The unit at a place is new, and what it defines is noted for its source. -/
structure Novel (s : Scheduler) (noted : Table QName String) (cx : Context) (index : Nat) (f : Frontend)
    (u : BuildUnit) : Prop where
  found : s.frontendAt? cx index = some f
  here : cx.unit? index = some u
  new : u.hasTypeInfo = false
  format : u.tree.map ParseTree.format = some f.format
  noted : ∀ name ∈ u.topLevel, noted.get? name = some u.source.name

variable {noted : Table QName String} {p : Program}

/-- Without errors, what units define is noted for their sources, and stays so. -/
theorem foldl_defineUnit_noted {units : List BuildUnit}
    (ok : (units.foldl defineUnit cx).hasErrors = false) :
    (∀ name source, cx.registry.definitions.get? name = some source →
        (units.foldl defineUnit cx).registry.definitions.get? name = some source) ∧
      ∀ u ∈ units, ∀ name ∈ u.topLevel,
        (units.foldl defineUnit cx).registry.definitions.get? name = some u.source.name := by
  induction units generalizing cx with
  | nil => exact ⟨fun _ _ => id, fun u none => (List.not_mem_nil none).elim⟩
  | cons u rest ih =>
    have first : (defineUnit cx u).hasErrors = false :=
      (Context.Evolves.foldl defineUnit_evolves rest _).advances.ok ok
    obtain ⟨kept, noted⟩ := ih ok
    obtain ⟨clear, heq⟩ := defineUnit_clear first
    obtain ⟨definitions, errors, defined, free, answers⟩ :=
      cx.registry.defineAll_answers u.source.name u.topLevel
    rw [defined] at clear heq
    have answer (name : QName) : (defineUnit cx u).registry.definitions.get? name
        = (cx.registry.definitions.get? name).or
          (if name ∈ u.topLevel then some u.source.name else none) := by
      rw [heq]
      exact answers name
    refine ⟨fun name source known => kept name source ?_, fun v member name top => ?_⟩
    · rw [answer, known, Option.some_or]
    · rcases List.mem_cons.1 member with rfl | later
      · refine kept name v.source.name ?_
        rw [answer, if_pos top]
        cases known : cx.registry.definitions.get? name with
        | none => rfl
        | some existing => rw [Option.some_or, free.1 clear name top existing known]
      · exact noted v later name top

/-- What a unit defines is noted for its source before the phases start. -/
theorem prepared_noted {order : List Nat} {start : Context} (h : s.prepared? cx = some (order, start))
    (here : start.unit? index = some u) :
    ∀ name ∈ u.topLevel, start.registry.definitions.get? name = some u.source.name := by
  obtain ⟨-, -, defined, sorted⟩ := prepared?_iff_supports.1 h
  have remarks := (Context.asks_of_sorted sorted).remarks
  have sources : start.sources = (s.parseAll cx).sources :=
    remarks.sources.trans (defineUnits_evolves _).sources
  rw [remarks.definitions]
  refine (foldl_defineUnit_noted defined).2 u ?_
  obtain ⟨slot, held, unit⟩ := Option.bind_eq_some_iff.1 here
  rw [sources] at held
  exact List.mem_filterMap.2 ⟨slot, List.mem_of_getElem? held, unit⟩

/-- In a run that starts with its sources alone, every unit is new. -/
theorem Succeeds.novel {order : List Nat} {start : Context} (h : s.Succeeds cx order start)
    (bare : ∀ slot ∈ cx.sources, slot.unit = none) (listed : index ∈ order) :
    ∃ f u, s.Novel start.registry.definitions start index f u ∧ u.classTable = .empty := by
  obtain ⟨slot, held⟩ := h.toPrepares.exists_slot h.toReady listed
  obtain ⟨f, u, found, -, here, -, readies⟩ := h.start_slot held
  have empty := bare slot (List.mem_of_getElem? held)
  have new := readies.unknown empty
  exact ⟨f, u, ⟨found, here, new, (readies.proper.fresh new).2, prepared_noted h.prepared here⟩,
    readies.new empty⟩

theorem Novel.passes (h : s.Novel noted cx index f u) (passes : s.Passes BuildUnit.Stays cx cx') :
    ∃ u', s.Novel noted cx' index f u' ∧ u.Stays f.format u' := by
  obtain ⟨u', here, stays⟩ := passes.units index f u h.found h.here
  refine ⟨u', ⟨?_, here, stays.kept.trans h.new, stays.tree.trans h.format, ?_⟩, stays⟩
  · exact (frontendAt?_congr passes.sources index).trans h.found
  · rw [stays.topLevel, stays.source]
    exact h.noted

/-- A new unit that publishes changes only the facts that `publish` tells, its classes apart. -/
theorem stepAt_publishes_new (plain : s.Plain) (h : s.Novel noted cx index f u)
    (definitions : cx.registry.definitions = noted) (ok : cx.hasErrors = false)
    (coherent : cx.registry.Coherent) :
    (s.stepAt .analyze4 cx index).facts.gate = (cx.facts.publish f.format u).gate ∧
      (s.stepAt .analyze4 cx index).registry.Coherent := by
  have known : ∀ name ∈ u.topLevel, (cx.putUnit index none).registry.definitions.get? name
      = some u.source.name :=
    fun name defined => (congrArg (Table.get? · name) definitions).trans (h.noted name defined)
  obtain ⟨classes, becomes⟩ :=
    Frontend.step_becomes (frontendAt?_plain plain h.found) h.new h.format known ok coherent
  have emptied : (cx.putUnit index none).facts.gate = cx.facts.gate := rfl
  rw [stepAt_own h.found h.here]
  refine ⟨(congrArg Facts.gate becomes.facts).trans ?_, becomes.coherent⟩
  exact Facts.gate_publish emptied rfl rfl f.format

theorem Novel.abc (h : s.Novel noted cx index f u) (program : u.program? = some p) : f.format = .abc := by
  have format := h.format
  rw [u.tree_of_program program] at format
  exact (Option.some.inj format).symm

/-- A new block lists its classes as it describes them. -/
theorem stepAt_lists (plain : s.Plain) (h : s.Novel noted cx index f u) (program : u.program? = some p)
    (empty : u.classTable = .empty)
    (described : Part.Described u p defined (List.Forall₂ R (Program.indexed p.classes)))
    (named : ∀ placed d, R placed d → d.name = placed.2.name.text)
    (hdefined : ∀ known ∈ defined, cx.registry.definitions.contains = known) (ok : cx.hasErrors = false)
    (coherent : cx.registry.Coherent) :
    ∃ v, (s.stepAt .analyze4 cx index).unit? index = some v ∧
      p.Lists R (s.stepAt .analyze4 cx index).store v.classTable := by
  have abc := h.abc program
  have simple := frontendAt?_plain plain h.found
  obtain ⟨form, extensions⟩ := f
  subst abc simple
  have emptied : (cx.putUnit index none).hasErrors = false := ok
  have hdefined : ∀ known ∈ defined, (cx.putUnit index none).registry.definitions.contains = known :=
    hdefined
  obtain ⟨cx', descriptors, entries, loader, published, -, made, stored⟩ :=
    Part.publish_gives h.new program described hdefined emptied coherent
  have step : Frontend.step ⟨.abc, []⟩ .analyze4 u (cx.putUnit index none)
      = AbcFrontend.publish [] u (cx.putUnit index none) := by
    simp [Frontend.step, AbcFrontend.step, emptied]
  have lists := Program.lists_of_stored made named stored
  rw [← empty] at lists
  rw [stepAt_own_unit? plain h.found h.here, stepAt_own h.found h.here, step, published]
  exact ⟨_, rfl, lists⟩

/-- The units at a place of two contexts are new, and come from one source with the same styles. -/
def Alike (s : Scheduler) (noted : Table QName String) (cx₁ cx₂ : Context) (index : Nat) : Prop :=
  ∃ f u₁ u₂, s.Novel noted cx₁ index f u₁ ∧ s.Novel noted cx₂ index f u₂ ∧ u₂.source = u₁.source ∧
    u₂.styles = u₁.styles

theorem Alike.passes {cx₁ cx₂ cx₁' cx₂' : Context} (h : s.Alike noted cx₁ cx₂ index)
    (first : s.Passes BuildUnit.Stays cx₁ cx₁') (second : s.Passes BuildUnit.Stays cx₂ cx₂') :
    s.Alike noted cx₁' cx₂' index := by
  obtain ⟨f, u₁, u₂, novel₁, novel₂, source, styles⟩ := h
  obtain ⟨u₁', novel₁', stays₁⟩ := novel₁.passes first
  obtain ⟨u₂', novel₂', stays₂⟩ := novel₂.passes second
  refine ⟨f, u₁', u₂', novel₁', novel₂', ?_, ?_⟩
  · rw [stays₁.source, stays₂.source, source]
  · rw [stays₁.styles, stays₂.styles, styles]

/-- Two runs in step: both are about to work on units that are alike, and so far they agree. -/
structure Paired (s : Scheduler) (noted : Table QName String) (items : List Nat) (cx₁ cx₂ : Context) :
    Prop where
  definitions : cx₁.registry.definitions = noted
  gate : cx₂.facts.gate = cx₁.facts.gate
  coherent₁ : cx₁.registry.Coherent
  coherent₂ : cx₂.registry.Coherent
  alike : ∀ i ∈ items, s.Alike noted cx₁ cx₂ i

variable {items : List Nat} {cx₁ cx₂ cx₁' cx₂' : Context}

section

variable (h : s.Paired noted items cx₁ cx₂)
include h

theorem Paired.definitions₂ : cx₂.registry.definitions = noted :=
  (congrArg Facts.definitions h.gate).trans h.definitions

/-- If one of two paired runs is without errors, then so is the other. -/
theorem Paired.ok (clear : cx₁.hasErrors = false) : cx₂.hasErrors = false :=
  (congrArg Facts.failed h.gate).trans clear

/-- A run is paired with itself. -/
theorem Paired.left : s.Paired noted items cx₁ cx₁ := by
  refine ⟨h.definitions, rfl, h.coherent₁, h.coherent₁, fun i member => ?_⟩
  obtain ⟨f, u₁, -, novel, -⟩ := h.alike i member
  exact ⟨f, u₁, u₁, novel, novel, rfl, rfl⟩

theorem Paired.looks (first : cx₁.Looks cx₁') (second : cx₂.Looks cx₂')
    (passes₁ : s.Passes BuildUnit.Stays cx₁ cx₁') (passes₂ : s.Passes BuildUnit.Stays cx₂ cx₂') :
    s.Paired noted items cx₁' cx₂' where
  definitions := first.remarks.definitions.trans h.definitions
  gate := second.remarks.gate.trans (h.gate.trans first.remarks.gate.symm)
  coherent₁ := first.remarks.coherent h.coherent₁
  coherent₂ := second.remarks.coherent h.coherent₂
  alike i member := (h.alike i member).passes passes₁ passes₂

end

/-- One unit publishes in both runs. -/
theorem Paired.stepAt (plain : s.Plain) (h : s.Paired noted items cx₁ cx₂) (member : index ∈ items)
    (clear : cx₁.hasErrors = false) :
    s.Paired noted items (s.stepAt .analyze4 cx₁ index) (s.stepAt .analyze4 cx₂ index) := by
  obtain ⟨f, u₁, u₂, novel₁, novel₂, source, styles⟩ := h.alike index member
  obtain ⟨gate₁, coherent₁⟩ := stepAt_publishes_new plain novel₁ h.definitions clear h.coherent₁
  obtain ⟨gate₂, coherent₂⟩ := stepAt_publishes_new plain novel₂ h.definitions₂ (h.ok clear) h.coherent₂
  refine ⟨?_, ?_, coherent₁, coherent₂, fun i listed => ?_⟩
  · have same : (s.stepAt .analyze4 cx₁ index).registry.definitions
        = (cx₁.facts.publish f.format u₁).definitions :=
      congrArg Facts.definitions gate₁
    rw [same, Facts.definitions_publish]
    exact h.definitions
  · rw [gate₁, gate₂]
    exact Facts.gate_publish h.gate source styles f.format
  · exact (h.alike i listed).passes (stepAt_stays plain .analyze4 cx₁ index)
      (stepAt_stays plain .analyze4 cx₂ index)

/-- Paired runs stay so while their units publish, unit by unit. -/
theorem Paired.stepAll (plain : s.Plain) {done : List Nat} (within : ∀ i ∈ done, i ∈ items)
    (h : s.Paired noted items cx₁ cx₂) (clear : (s.stepAll done .analyze4 cx₁).hasErrors = false) :
    s.Paired noted items (s.stepAll done .analyze4 cx₁) (s.stepAll done .analyze4 cx₂) := by
  induction done generalizing cx₁ cx₂ with
  | nil => exact h
  | cons index rest ih =>
    have first := stepAt_advances plain .analyze4 cx₁ index
    have later := stepAll_advances plain rest .analyze4 (s.stepAt .analyze4 cx₁ index)
    have here := h.stepAt plain (within index (.head _)) ((first.trans later).ok clear)
    exact ih (fun i member => within i (.tail _ member)) here clear

/-! ### Whole runs -/

variable {order : List Nat}

/-- They stay so through the phases that do not publish. -/
theorem Paired.through (plain : s.Plain) {phases : List Phase} (quiet : ∀ phase ∈ phases, phase ≠ .analyze4)
    (h : s.Paired noted items cx₁ cx₂) (order : List Nat) :
    s.Paired noted items (s.through order phases cx₁) (s.through order phases cx₂) :=
  h.looks (through_looks plain quiet order cx₁) (through_looks plain quiet order cx₂)
    (through_stays plain order phases cx₁) (through_stays plain order phases cx₂)

/-- A run over units that are alike to those of a run without errors agrees with it to the end. -/
theorem Paired.ends (plain : s.Plain) (h : s.Paired noted order cx₁ cx₂)
    (clear : (s.through order Phase.later cx₁).hasErrors = false) :
    s.Paired noted order (s.through order Phase.later cx₁) (s.through order Phase.later cx₂) := by
  rw [through_later] at clear ⊢
  have published := (through_looks plain quiet_closings order _).ok.symm.trans clear
  have ready := h.through plain quiet_analyses order
  exact (ready.stepAll plain (fun _ => id) published).through plain quiet_closings order

section

variable (plain : s.Plain) (distinct : order.Nodup) (h : s.Paired noted order cx₁ cx₂)
  (clear : (s.through order Phase.later cx₁).hasErrors = false) (listed : index ∈ order)
include plain distinct h clear listed

/-- Where a block of the second run is about to publish. -/
theorem Paired.reaches :
    ∃ cx rest, cx.hasErrors = false ∧ cx.registry.Coherent ∧ cx.registry.definitions = noted ∧
      (∃ f u, s.Novel noted cx index f u) ∧ cx.unit? index = (s.through order analyses cx₂).unit? index ∧
      index ∉ rest ∧ s.through order Phase.later cx₂
        = s.through order closings (s.stepAll rest .analyze4 (s.stepAt .analyze4 cx index)) := by
  rw [through_later] at clear ⊢
  have published := (through_looks plain quiet_closings order _).ok.symm.trans clear
  have ready := h.through plain quiet_analyses order
  obtain ⟨done, rest, rfl⟩ := List.append_of_mem listed
  obtain ⟨-, second, apart⟩ := List.nodup_append.1 distinct
  have absent : index ∉ done := fun early => apart index early index (.head _) rfl
  have split (cx : Context) : s.stepAll (done ++ index :: rest) .analyze4 cx
      = s.stepAll rest .analyze4 (s.stepAt .analyze4 (s.stepAll done .analyze4 cx) index) :=
    stepAll_append done (index :: rest) .analyze4 cx
  rw [split] at published ⊢
  have midway :=
    ((stepAt_advances plain .analyze4 _ index).trans (stepAll_advances plain rest .analyze4 _)).ok published
  have there := ready.stepAll plain (fun i early => List.mem_append_left _ early) midway
  obtain ⟨f, u₁, u₂, -, novel, -, -⟩ := there.alike index listed
  exact ⟨_, rest, there.ok midway, there.coherent₂, there.definitions₂, ⟨f, u₂, novel⟩,
    foldl_stepAt_of_not_mem plain .analyze4 absent _, (List.nodup_cons.1 second).1, rfl⟩

/-- A block of the second run lists its classes as it describes them, to the end of the run. -/
theorem Paired.lists (here : (s.through order analyses cx₂).unit? index = some u)
    (program : u.program? = some p) (empty : u.classTable = .empty)
    (described : Part.Described u p defined (List.Forall₂ R (Program.indexed p.classes)))
    (named : ∀ placed d, R placed d → d.name = placed.2.name.text)
    (hdefined : ∀ known ∈ defined, noted.contains = known) :
    ∃ v, (s.through order Phase.later cx₂).unit? index = some v ∧
      p.Lists R (s.through order Phase.later cx₂).store v.classTable := by
  obtain ⟨cx, rest, ok, coherent, definitions, ⟨f, u', novel⟩, same, absent, ends⟩ :=
    h.reaches plain distinct clear listed
  cases Option.some.inj (novel.here.symm.trans (same.trans here))
  obtain ⟨v, unit, lists⟩ := stepAt_lists plain novel program empty described named
    (fun known here => definitions ▸ hdefined known here) ok coherent
  -- later units and phases leave the table alone
  have first := stepAt_advances plain .analyze4 cx index
  have during := stepAll_advances plain rest .analyze4 (s.stepAt .analyze4 cx index)
  have found := (frontendAt?_congr (first.trans during).sources index).trans novel.found
  have kept := foldl_stepAt_of_not_mem plain .analyze4 absent (s.stepAt .analyze4 cx index)
  have closes :=
    through_rests plain quiet_closings order (s.stepAll rest .analyze4 (s.stepAt .analyze4 cx index))
  obtain ⟨v', there, rests⟩ := closes.units index f v found (kept.trans unit)
  rw [ends]
  refine ⟨v', there, ?_⟩
  rw [rests.classTable]
  exact lists.mono (during.store.trans closes.store)

end

end Scheduler

end AbcBuild
