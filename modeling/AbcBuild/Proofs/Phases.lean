/-
Module: AbcBuild.Proofs.Phases
Purpose: The phases of a build after the first.  Each phase takes every unit one step further, and what the
  build has published in the end is what the ledger of its parts tells.
Main exports: Context.Holds, Context.Running, Context.Completed, Scheduler.publish_analyzed,
  Scheduler.completed_finishAll
-/
import AbcBuild.Proofs.Gate
import AbcBuild.Proofs.Ledger
import Mathlib.Logic.Function.Basic

namespace AbcBuild

variable {config : Config} {part : Part config} {u : BuildUnit} {store : ClassStore} {phase : Phase}
  {index : Nat}

theorem Part.Finished.markDone {b : Basis config} (h : part.Finished b store u) :
    part.Finished b store u.markDone :=
  { h with fits := { h.fits with } }

/-! ### Slots -/

namespace Context

/-- Each part has its slot, and the property holds of what is in it. -/
def Holds (cx : Context) (parts : List (Part config)) (P : Nat → Part config → Option BuildUnit → Prop) :
    Prop :=
  cx.sources.length = parts.length ∧
    ∀ index part, parts[index]? = some part → ∃ unit, cx.sources[index]? = some ⟨part.source, unit⟩ ∧
      P index part unit

variable {cx cx' : Context} {parts : List (Part config)} {P Q : Nat → Part config → Option BuildUnit → Prop}

section

variable (h : cx.Holds parts P)
include h

theorem Holds.imp
    (weaker : ∀ index part unit, parts[index]? = some part → P index part unit → Q index part unit) :
    cx.Holds parts Q := by
  refine ⟨h.1, fun index part hpart => ?_⟩
  obtain ⟨unit, slot, holds⟩ := h.2 index part hpart
  exact ⟨unit, slot, weaker index part unit hpart holds⟩

/-- Parts and slots go along with each other. -/
theorem Holds.forall₂ :
    List.Forall₂ (fun part slot => ∃ index unit, slot = ⟨part.source, unit⟩ ∧ P index part unit) parts
      cx.sources := by
  refine List.forall₂_iff_get.2 ⟨h.1.symm, fun index hpart hslot => ?_⟩
  obtain ⟨unit, slot, holds⟩ := h.2 index _ (List.getElem?_eq_getElem hpart)
  exact ⟨index, unit, Option.some.inj ((List.getElem?_eq_getElem hslot).symm.trans slot), holds⟩

/-- Work on one slot. -/
theorem Holds.modify (hpart : parts[index]? = some part)
    {unit : Option BuildUnit} (changed : cx'.sources = cx.sources.modify index fun slot =>
      { slot with unit := unit })
    (here : Q index part unit) (others : ∀ i part unit, i ≠ index → P i part unit → Q i part unit) :
    cx'.Holds parts Q := by
  refine ⟨by rw [changed, List.length_modify, h.1], fun i part' hpart' => ?_⟩
  obtain ⟨unit', slot, holds⟩ := h.2 i part' hpart'
  rw [changed, List.getElem?_modify, slot]
  by_cases same : index = i
  · subst same
    rw [hpart] at hpart'
    cases hpart'
    exact ⟨unit, by simp, here⟩
  · exact ⟨unit', by simp [same], others i part' unit' (fun h => same h.symm) holds⟩

theorem Holds.missing (outside : parts[index]? = none) : cx.sources[index]? = none := by
  rw [List.getElem?_eq_none_iff, h.1]
  exact List.getElem?_eq_none_iff.1 outside

theorem Holds.sources : cx.sources.map SourceSlot.source = parts.map Part.source := by
  refine List.ext_getElem? fun index => ?_
  rw [List.getElem?_map, List.getElem?_map]
  cases hpart : parts[index]? with
  | none =>
    rw [h.missing hpart]
    rfl
  | some part =>
    obtain ⟨unit, slot, -⟩ := h.2 index part hpart
    rw [slot]
    rfl

theorem Holds.indexOf? (name : String) :
    cx.indexOf? name = parts.findIdx? fun part => part.source.name = name := by
  have left : cx.indexOf? name = (cx.sources.map SourceSlot.source).findIdx? fun s => s.name = name := by
    rw [List.findIdx?_map]
    rfl
  rw [left, h.sources, List.findIdx?_map]
  rfl

/-- The unit of the first source with a name is that of a part of this name. -/
theorem Holds.unitNamed? {name : String} (found : cx.unitNamed? name = some u) :
    ∃ index part, parts[index]? = some part ∧ part.source.name = name ∧ P index part (some u) := by
  obtain ⟨index, place, there⟩ := Option.bind_eq_some_iff.1 found
  rw [h.indexOf?, List.findIdx?_eq_some_iff_getElem] at place
  obtain ⟨bound, same, -⟩ := place
  obtain ⟨unit, slot, holds⟩ := h.2 index _ (List.getElem?_eq_getElem bound)
  rw [Context.unit?_eq slot] at there
  cases there
  exact ⟨index, _, List.getElem?_eq_getElem bound, of_decide_eq_true same, holds⟩

/-- If no two sources share a name, each part is found under its own. -/
theorem Holds.unitNamed?_eq (distinct : (parts.map fun part => part.source.name).Nodup)
    (hpart : parts[index]? = some part) :
    ∃ unit, cx.unitNamed? part.source.name = unit ∧ P index part unit := by
  obtain ⟨unit, slot, holds⟩ := h.2 index part hpart
  refine ⟨unit, ?_, holds⟩
  have place := (findIdx?_eq_some_iff distinct).2 ⟨part, hpart, rfl⟩
  rw [Context.unitNamed?, h.indexOf?, place, Option.bind_some, Context.unit?_eq slot]

end

end Context

/-! ### A step -/

/-- The unit of each part has reached its phase, and the build has published what the ledger tells. -/
structure Context.Running (cx : Context) (b : Basis config) (l : Ledger config) (stage : Nat → Phase) :
    Prop where
  ground : cx.Grounded b.parts
  follows : l.Follows b cx
  units : cx.Holds b.parts fun index part unit => part.Reached b cx.store (stage index) unit

namespace Part

/-- The phases that leave a unit with its frame open. -/
def IsOpen (phase : Phase) : Prop := phase = .analyze1 ∨ phase = .analyze2 ∨ phase = .analyze3

variable {b : Basis config} {part : Part config} {u : BuildUnit}

/-- The frame of a unit while units are analyzed. -/
theorem After.frame (h : part.After b store phase u) (isOpen : IsOpen phase) :
    ∃ f, u.typeInfo = some f ∧ part.Frames b.ever f := by
  rcases h with kept | h
  · exact kept.frame
  · rcases isOpen with rfl | rfl | rfl
    · obtain ⟨_, knows, framed⟩ := h
      obtain ⟨f, hf, bears, rfl, -⟩ := framed.frame
      exact ⟨f, hf, bears, knows.within⟩
    · obtain ⟨_, bound⟩ := h
      obtain ⟨f, hf, bears, contains, -⟩ := bound.framed.frame
      exact ⟨f, hf, bears, contains ▸ bound.knows.within⟩
    · obtain ⟨s, typed⟩ := h
      exact typed.frame

end Part

namespace Context

variable {cx : Context} {b : Basis config} {l : Ledger config} {stage : Nat → Phase}

section

variable (h : cx.Running b l stage)
include h

/-- The unit at a place has gone one step further. -/
theorem Running.put (hpart : b.parts[index]? = some part) {cx' : Context}
    (keeps : (cx.putUnit index none).Keeps cx') {l' : Ledger config} (follows : l'.Follows b cx')
    (reached : part.After b cx'.store phase { u with lastPhase := some phase }) :
    (cx'.putUnit index (some { u with lastPhase := some phase })).Running b l'
      (Function.update stage index phase) where
  ground := by
    refine ⟨keeps.config.trans h.ground.settings, keeps.coherent, fun name => ?_, h.ground.clear,
      h.ground.distinct⟩
    exact (congrArg (Table.get? · name) keeps.definitions).trans (h.ground.definitions name)
  follows := { follows with }
  units := by
    have changed : (cx'.putUnit index (some { u with lastPhase := some phase })).sources
        = cx.sources.modify index fun slot =>
          { slot with unit := some { u with lastPhase := some phase } } := by
      have same := cx.sources_putUnit_putUnit index none (some { u with lastPhase := some phase })
      simp only [Context.putUnit, keeps.sources] at same ⊢
      exact same
    refine h.units.modify hpart changed ?_ ?_
    · rw [Function.update_self]
      exact ⟨_, rfl, reached, rfl⟩
    · rintro i part unit other ⟨u, rfl, after, last⟩
      rw [Function.update_of_ne other]
      exact ⟨u, rfl, after.mono keeps.store, last⟩

theorem Running.outside (hpart : b.parts[index]? = none)
    (phase : Phase) : cx.Running b l (Function.update stage index phase) := by
  refine ⟨h.ground, h.follows, h.units.imp fun i part unit hi holds => ?_⟩
  have other : i ≠ index := by
    rintro rfl
    rw [hpart] at hi
    cases hi
  rw [Function.update_of_ne other]
  exact holds

/-- While all units are analyzed, each is offered the frames of the others. -/
theorem Running.offers (isOpen : ∀ i, Part.IsOpen (stage i)) (hpart : b.parts[index]? = some part) :
    (cx.putUnit index none).Offers b part := by
  -- the unit that is worked on offers nothing
  have slots : (cx.putUnit index none).Holds b.parts fun i other unit => (i = index → unit = none) ∧
      (i ≠ index → other.Reached b cx.store (stage i) unit) := by
    refine h.units.modify hpart rfl ⟨fun _ => rfl, fun apart => (apart rfl).elim⟩ ?_
    exact fun i other unit apart holds => ⟨fun same => (apart same).elim, fun _ => holds⟩
  refine ⟨fun source g found => ?_, fun other member apart => ?_⟩
  · obtain ⟨u, named, hg⟩ := Option.bind_eq_some_iff.1 found
    obtain ⟨i, other, -, -, here, elsewhere⟩ := slots.unitNamed? named
    by_cases same : i = index
    · cases here same
    · obtain ⟨u', hu, after, -⟩ := elsewhere same
      cases hu
      obtain ⟨f, hf, frames⟩ := after.frame (isOpen i)
      cases hf.symm.trans hg
      exact ⟨frames.named, frames.within⟩
  · obtain ⟨i, hother⟩ := List.mem_iff_getElem?.1 member
    obtain ⟨_, found, -, elsewhere⟩ := slots.unitNamed?_eq h.ground.distinct hother
    have away : i ≠ index := by
      rintro rfl
      rw [hpart] at hother
      cases hother
      exact apart rfl
    obtain ⟨u, rfl, after, -⟩ := elsewhere away
    obtain ⟨f, hf, frames⟩ := after.frame (isOpen i)
    exact ⟨f, by rw [frameOf?, found, Option.bind_some, hf], frames.knows.own⟩

end

/-- Units that the order does not name count as having gone along. -/
theorem Running.whole {order : List Nat} (complete : ∀ i < b.parts.length, i ∈ order) {before : Phase}
    (h : cx.Running b l fun i => if i ∈ order then phase else before) :
    cx.Running b l fun _ => phase := by
  refine ⟨h.ground, h.follows, h.units.imp fun i part unit hi holds => ?_⟩
  rw [if_pos (complete i (List.getElem?_eq_some_iff.1 hi).1)] at holds
  exact holds

end Context

namespace Scheduler

variable {cx : Context} {b : Basis config} {l : Ledger config} {stage : Nat → Phase}
variable {order : List Nat} {before phase : Phase} {index : Nat}

theorem frontendAt?_eq {unit : Option BuildUnit} (slot : cx.sources[index]? = some ⟨part.source, unit⟩) :
    standard.frontendAt? cx index = some part.tree.frontend := by
  rw [frontendAt?, slot]
  exact part.frontend?_eq

theorem stepAt_eq {u' : BuildUnit} {cx' : Context} (slot : cx.sources[index]? = some ⟨part.source, some u⟩)
    (step : part.tree.frontend.step phase u (cx.putUnit index none) = (u', cx')) :
    standard.stepAt phase cx index = cx'.putUnit index (some { u' with lastPhase := some phase }) := by
  simp [stepAt, slot, step]

/-- A place without a part is passed over. -/
theorem stepAt_outside (h : cx.Running b l stage) (outside : b.parts[index]? = none) (phase : Phase) :
    standard.stepAt phase cx index = cx := by
  simp [stepAt, h.units.missing outside]

/-- While a phase is under way, each unit has been through it or through the one before. -/
theorem isOpen_of_level (hnext : before.next? = some phase) (binds : phase = .analyze2 ∨ phase = .analyze3)
    (level : ∀ i, stage i = before ∨ stage i = phase) (i : Nat) : Part.IsOpen (stage i) := by
  rcases binds with rfl | rfl
  · have first : before = .analyze1 := by cases before <;> first | rfl | cases hnext
    exact (level i).elim (fun h => .inl (h.trans first)) fun h => .inr (.inl h)
  · have first : before = .analyze2 := by cases before <;> first | rfl | cases hnext
    exact (level i).elim (fun h => .inr (.inl (h.trans first))) fun h => .inr (.inr h)

/-- A phase that does not publish takes the unit at a place one step further. -/
theorem stepAt_quiet (h : cx.Running b l stage) (hnext : before.next? = some phase)
    (quiet : phase ≠ .analyze4) (admits : phase = .analyze3 → b.Open)
    (level : ∀ i, stage i = before ∨ stage i = phase) (waiting : stage index = before) :
    (standard.stepAt phase cx index).Running b l (Function.update stage index phase) := by
  cases hpart : b.parts[index]? with
  | none =>
    rw [stepAt_outside h hpart]
    exact h.outside hpart phase
  | some part =>
    obtain ⟨-, slot, u, rfl, after, -⟩ := h.units.2 index part hpart
    rw [waiting] at after
    have ok : (cx.putUnit index none).hasErrors = false := h.follows.ok
    have ground : (cx.putUnit index none).Grounded b.parts := { h.ground with }
    obtain ⟨u', cx', step, becomes, reached⟩ :=
      Part.step_quiet hnext quiet ground (List.mem_of_getElem? hpart)
      (fun binds => h.offers (isOpen_of_level hnext binds level) hpart)
        (fun last => admits last part) ok after
    rw [stepAt_eq slot step]
    have follows : l.Follows b cx' := by
      refine ⟨(congrArg Facts.failed becomes.facts).trans ok, ?_, ?_, ?_⟩
      · exact (congrArg Facts.bundles becomes.facts).trans h.follows.bundles
      · exact (congrArg Facts.styles becomes.facts).trans h.follows.styles
      · have classes : cx'.registry.classes = cx.registry.classes := congrArg Facts.classes becomes.facts
        rw [classes]
        exact h.follows.classes.mono becomes.store
    exact h.put hpart (becomes.keeps rfl rfl rfl) follows reached

/-- Publishing the unit at a place follows publishing its part. -/
theorem stepAt_publish (h : cx.Running b l stage) (waiting : stage index = .analyze3) :
    match b.parts[index]?.elim (some l) l.publish with
    | none => (standard.stepAt .analyze4 cx index).hasErrors = true
    | some l' =>
      (standard.stepAt .analyze4 cx index).Running b l' (Function.update stage index .analyze4) := by
  cases hpart : b.parts[index]? with
  | none =>
    rw [stepAt_outside h hpart]
    exact h.outside hpart _
  | some part =>
    obtain ⟨-, slot, u, rfl, after, -⟩ := h.units.2 index part hpart
    rw [waiting] at after
    have follows : l.Follows b (cx.putUnit index none) := { h.follows with }
    obtain ⟨u', cx', step, keeps, published⟩ :=
      follows.publish after { h.ground with } (List.mem_of_getElem? hpart)
    rw [stepAt_eq slot step, Option.elim_some]
    cases hl : l.publish part with
    | none =>
      rw [hl] at published
      exact published
    | some l' =>
      rw [hl] at published
      exact h.put hpart keeps published.1 published.2

/-! ### A phase -/

theorem stages_cons (stage : Nat → Phase) (phase : Phase) (index : Nat) (rest : List Nat) :
    (fun i => if i ∈ index :: rest then phase else stage i)
      = fun i => if i ∈ rest then phase else Function.update stage index phase i := by
  funext i
  by_cases here : i = index <;> simp [here]

theorem still_waiting {rest : List Nat} (distinct : (index :: rest).Nodup)
    (waiting : ∀ i ∈ index :: rest, stage i = before) :
    ∀ i ∈ rest, Function.update stage index phase i = before := by
  intro i hi
  have other : i ≠ index := fun same => (List.nodup_cons.1 distinct).1 (same ▸ hi)
  rw [Function.update_of_ne other]
  exact waiting i (.tail _ hi)

theorem level_update (level : ∀ i, stage i = before ∨ stage i = phase) (i : Nat) :
    Function.update stage index phase i = before ∨ Function.update stage index phase i = phase := by
  by_cases here : i = index
  · exact Or.inr (here ▸ Function.update_self ..)
  · rw [Function.update_of_ne here]
    exact level i

/-- Every unit of the order goes one step further. -/
theorem stepAll_quiet (distinct : order.Nodup) (h : cx.Running b l stage) (hnext : before.next? = some phase)
    (quiet : phase ≠ .analyze4) (admits : phase = .analyze3 → b.Open)
    (level : ∀ i, stage i = before ∨ stage i = phase) (waiting : ∀ i ∈ order, stage i = before) :
    (standard.stepAll order phase cx).Running b l fun i => if i ∈ order then phase else stage i := by
  induction order generalizing cx stage with
  | nil => simpa [stepAll] using h
  | cons index rest ih =>
    have first := stepAt_quiet h hnext quiet admits level (waiting index (.head _))
    rw [stages_cons]
    exact ih (List.nodup_cons.1 distinct).2 first (level_update level) (still_waiting distinct waiting)

/-- The phase that publishes follows the ledger. -/
theorem stepAll_publish (distinct : order.Nodup) (h : cx.Running b l stage)
    (waiting : ∀ i ∈ order, stage i = .analyze3) :
    match l.publishAll (order.filterMap (b.parts[·]?)) with
    | none => (standard.stepAll order .analyze4 cx).hasErrors = true
    | some l' => (standard.stepAll order .analyze4 cx).Running b l'
        fun i => if i ∈ order then .analyze4 else stage i := by
  induction order generalizing cx stage l with
  | nil => simpa [stepAll, Ledger.publishAll] using h
  | cons index rest ih =>
    have first := stepAt_publish h (waiting index (.head _))
    have publishes : l.publishAll ((index :: rest).filterMap (b.parts[·]?))
        = (b.parts[index]?.elim (some l) l.publish).bind (·.publishAll (rest.filterMap (b.parts[·]?))) := by
      cases hpart : b.parts[index]? with
      | none => simp [hpart]
      | some part => simp [hpart, Ledger.publishAll]
    rw [publishes]
    cases hl : b.parts[index]?.elim (some l) l.publish with
    | none =>
      rw [hl] at first
      exact (stepAll_advances plain_standard rest .analyze4 _).hasErrors first
    | some l' =>
      rw [hl] at first
      rw [stages_cons]
      exact ih (List.nodup_cons.1 distinct).2 first (still_waiting distinct waiting)

/-! ### All phases -/

section

variable {order : List Nat} (distinct : order.Nodup) (complete : ∀ i < b.parts.length, i ∈ order)

include distinct complete

/-- A phase that does not publish takes all units one step further. -/
theorem running_stepAll {before : Phase} (h : cx.Running b l fun _ => before)
    (hnext : before.next? = some phase) (quiet : phase ≠ .analyze4) (admits : phase = .analyze3 → b.Open) :
    (standard.stepAll order phase cx).Running b l fun _ => phase :=
  (stepAll_quiet distinct h hnext quiet admits (fun _ => .inl rfl) fun _ _ => rfl).whole complete

/-- The phases before the one that publishes analyze all units. -/
theorem running_analyses (h : cx.Running b l fun _ => .parse1) (admits : b.Open) :
    (standard.through order analyses cx).Running b l fun _ => .analyze3 := by
  have parsed := running_stepAll distinct complete h rfl (by decide) nofun
  have framed := running_stepAll distinct complete parsed rfl (by decide) nofun
  have bound := running_stepAll distinct complete framed rfl (by decide) nofun
  exact running_stepAll distinct complete bound rfl (by decide) fun _ => admits

/-- Once all units are analyzed, the other phases go without errors if the parts can be published in
    order. -/
theorem publish_analyzed (h : cx.Running b {} fun _ => .analyze3) :
    match ({} : Ledger config).publishAll (order.filterMap (b.parts[·]?)) with
    | none => (standard.through order closings (standard.stepAll order .analyze4 cx)).hasErrors = true
    | some l => (standard.through order closings (standard.stepAll order .analyze4 cx)).Running b l
        fun _ => .postprocess := by
  have published := stepAll_publish distinct h fun _ _ => rfl
  cases hl : ({} : Ledger config).publishAll (order.filterMap (b.parts[·]?)) with
  | none =>
    rw [hl] at published
    exact (through_advances plain_standard order closings _).hasErrors published
  | some l =>
    rw [hl] at published
    have generated := running_stepAll distinct complete (published.whole complete) rfl (by decide) nofun
    exact running_stepAll distinct complete generated rfl (by decide) nofun

end

end Scheduler

/-! ### The end of a build -/

/-- The unit is done, after all phases.  Of its analysis, nothing is left but type information that may serve
    again. -/
structure BuildUnit.Ended (u : BuildUnit) : Prop where
  done : u.done = true
  lastPhase : u.lastPhase = some .postprocess
  scratch : u.scratch = {}
  hasTypeInfo : u.hasTypeInfo = true
  available : u.bytecodeAvailable = true
  frame : ∃ f, u.typeInfo = some f ∧ f.isClean = true

theorem Part.Generated.ended {b : Basis config} (h : part.Generated b store u)
    (last : u.lastPhase = some .postprocess) : u.markDone.Ended := by
  obtain ⟨f, hf, -⟩ := h.frame
  refine ⟨rfl, last, rfl, ?_, h.available, f, hf, h.clean f hf⟩
  rw [BuildUnit.markDone, hf]
  rfl

/-- The unit of a part in a build that has come to its end. -/
structure Part.Ended (b : Basis config) (store : ClassStore) (part : Part config) (u : BuildUnit) : Prop
    extends part.Finished b store u where
  done : u.done = true
  ended : ¬b.reuses → u.Ended

/-- A build has come to its end: all units are finished, and it has published what the ledger tells. -/
structure Context.Completed (cx : Context) (b : Basis config) (l : Ledger config) : Prop where
  follows : l.Follows b cx
  units : cx.Holds b.parts fun _ part unit => ∃ u, unit = some u ∧ part.Ended b cx.store u

namespace Scheduler

variable {cx : Context} {b : Basis config} {l : Ledger config}

/-- Once all phases are gone through, finishing the units brings the build to its end. -/
theorem completed_finishAll {order : List Nat} (complete : ∀ i < b.parts.length, i ∈ order)
    (h : cx.Running b l fun _ => .postprocess) : (finishAll order cx).Completed b l := by
  obtain ⟨sources, heq⟩ := finishAll_frame order cx
  have slots := finishAll_advances order cx
  have units := finishAll_unit?_eq order cx
  rw [heq] at slots units ⊢
  refine ⟨{ h.follows with }, ?_, fun index part hpart => ?_⟩
  · rw [← List.length_map SourceSlot.source, slots.sources, List.length_map, h.units.1]
  · obtain ⟨-, slot, u, rfl, after, last⟩ := h.units.2 index part hpart
    have here : cx.unit? index = some u := Context.unit?_eq slot
    have listed := complete index (List.getElem?_eq_some_iff.1 hpart).1
    refine ⟨_, slots.slotAt slot ((units index).trans (by rw [if_pos listed, here]; rfl)),
      u.markDone, rfl, ?_⟩
    rcases after with kept | generated
    · exact ⟨kept.toFinished.markDone, rfl, fun alone => (alone kept.shared).elim⟩
    · have generated : part.Generated b cx.store u := generated
      exact ⟨generated.toFinished.markDone, rfl, fun _ => generated.ended last⟩

end Scheduler

end AbcBuild
