/-
Module: AbcBuild.Proofs.Advances
Purpose: What a run leaves alone, whatever its sources and units are like.  Settings and sources stay,
  descriptors stay as they are, and diagnostics are only added.  A run is complete exactly if it reports no
  error.
Main exports: Context.Advances, Scheduler.Plain, Scheduler.run_cases, Scheduler.run_advances,
  Scheduler.run_completed
-/
import AbcBuild.Proofs.InheritanceOrder
import AbcBuild.Proofs.Steps

namespace AbcBuild

/-! ### What a run leaves alone -/

namespace Context

/-- What every part of a run leaves alone: the settings, the sources, and the descriptors and diagnostics
    that are there. -/
structure Advances (cx cx' : Context) : Prop where
  config : cx'.config = cx.config
  sources : cx'.sources.map SourceSlot.source = cx.sources.map SourceSlot.source
  store : cx.store.Extends cx'.store
  log : cx.log.GrowsBy (fun _ => True) cx'.log

variable {cx cx' cx'' : Context} {kind : Diagnostic → Prop}

theorem Advances.refl (cx : Context) : cx.Advances cx := ⟨rfl, rfl, .refl _, .refl _ _⟩

theorem Advances.trans (h : cx.Advances cx') (h' : cx'.Advances cx'') : cx.Advances cx'' :=
  ⟨h'.config.trans h.config, h'.sources.trans h.sources, h.store.trans h'.store, h.log.trans h'.log⟩

/-- A run of steps that advance is one advance. -/
theorem Advances.foldl {α : Type} {step : Context → α → Context}
    (h : ∀ (cx : Context) a, cx.Advances (step cx a)) (items : List α) (cx : Context) :
    cx.Advances (items.foldl step cx) := by
  induction items generalizing cx with
  | nil => exact .refl cx
  | cons a rest ih => exact (h cx a).trans (ih _)

theorem Evolves.foldl {α : Type} {step : Context → α → Context}
    (h : ∀ (cx : Context) a, cx.Evolves kind (step cx a)) (items : List α) (cx : Context) :
    cx.Evolves kind (items.foldl step cx) := by
  induction items generalizing cx with
  | nil => exact .refl _ cx
  | cons a rest ih => exact (h cx a).trans (ih _)

/-- A step within one unit is an advance of the whole build. -/
theorem Evolves.advances (h : cx.Evolves kind cx') : cx.Advances cx' :=
  ⟨h.config, by rw [h.sources], h.store, h.log.imp fun _ _ => trivial⟩

/-- To put a unit back is to advance. -/
theorem advances_putUnit (cx : Context) (index : Nat) (unit : Option BuildUnit) :
    cx.Advances (cx.putUnit index unit) := by
  refine ⟨rfl, ?_, .refl _, .refl _ _⟩
  refine List.ext_getElem? fun i => ?_
  rw [putUnit, List.getElem?_map, List.getElem?_map, List.getElem?_modify]
  cases cx.sources[i]? with
  | none => rfl
  | some slot => by_cases here : index = i <;> simp [here]

/-- A build that has failed does not recover. -/
theorem Advances.hasErrors (h : cx.Advances cx') (failed : cx.hasErrors = true) : cx'.hasErrors = true :=
  h.log.hasErrors failed

/-- So a build without errors had none before. -/
theorem Advances.ok (h : cx.Advances cx') (ok : cx'.hasErrors = false) : cx.hasErrors = false := by
  cases failed : cx.hasErrors with
  | false => rfl
  | true => exact (h.hasErrors failed).symm.trans ok

theorem unit?_eq {index : Nat} {slot : SourceSlot} (held : cx.sources[index]? = some slot) :
    cx.unit? index = slot.unit := by
  rw [unit?, held, Option.bind_some]

@[simp] theorem unit?_putUnit_of_ne {i j : Nat} (other : j ≠ i) (cx : Context) (unit : Option BuildUnit) :
    (cx.putUnit i unit).unit? j = cx.unit? j := by
  simp [unit?, putUnit, other.symm]

theorem unit?_putUnit_self {i : Nat} {slot : SourceSlot} (held : cx.sources[i]? = some slot)
    (unit : Option BuildUnit) : (cx.putUnit i unit).unit? i = unit := by
  simp [unit?, putUnit, held]

/-- A change to the unit at a place. -/
@[simp] theorem unit?_putUnit_map (cx : Context) (i : Nat) (change : BuildUnit → BuildUnit) :
    (cx.putUnit i ((cx.unit? i).map change)).unit? i = (cx.unit? i).map change := by
  cases held : cx.sources[i]? with
  | none => simp [unit?, putUnit, held]
  | some slot => exact unit?_putUnit_self held _

theorem Evolves.unit? (h : cx.Evolves kind cx') (index : Nat) : cx'.unit? index = cx.unit? index := by
  unfold Context.unit?
  rw [h.sources]

/-- Contexts over the same sources have slots at the same places. -/
theorem exists_slot (h : cx'.sources.map SourceSlot.source = cx.sources.map SourceSlot.source)
    {index : Nat} {slot' : SourceSlot} (held : cx'.sources[index]? = some slot') :
    ∃ slot, cx.sources[index]? = some slot ∧ slot.source = slot'.source := by
  have same := congrArg (fun sources : List Source => sources[index]?) h
  simp only [List.getElem?_map, held, Option.map_some] at same
  exact Option.map_eq_some_iff.1 same.symm

theorem no_slot (h : cx'.sources.map SourceSlot.source = cx.sources.map SourceSlot.source)
    {index : Nat} (absent : cx.sources[index]? = none) : cx'.sources[index]? = none := by
  refine Option.eq_none_iff_forall_ne_some.2 fun slot' held => ?_
  obtain ⟨slot, held', -⟩ := exists_slot h held
  cases absent.symm.trans held'

/-- The slot of a source stays where it is, and holds the unit that is found there. -/
theorem Advances.slotAt {index : Nat} {slot : SourceSlot} {u : BuildUnit} (h : cx.Advances cx')
    (held : cx.sources[index]? = some slot) (here : cx'.unit? index = some u) :
    cx'.sources[index]? = some ⟨slot.source, some u⟩ := by
  obtain ⟨slot', held', unit⟩ := Option.bind_eq_some_iff.1 here
  obtain ⟨slot₀, held₀, same⟩ := exists_slot h.sources held'
  cases Option.some.inj (held.symm.trans held₀)
  rw [held', same, ← unit]

@[simp] theorem sources_putUnit_putUnit (cx : Context) (index : Nat) (first second : Option BuildUnit) :
    ((cx.putUnit index first).putUnit index second).sources = (cx.putUnit index second).sources := by
  simp only [putUnit, List.modify_modify_eq]
  rfl

@[simp] theorem putUnit_putUnit (cx : Context) (index : Nat) (first second : Option BuildUnit) :
    (cx.putUnit index first).putUnit index second = cx.putUnit index second := by
  have same := cx.sources_putUnit_putUnit index first second
  simp only [putUnit, Context.mk.injEq, and_true, true_and] at same ⊢
  exact same

@[simp] theorem putUnit_unit? (cx : Context) (index : Nat) : cx.putUnit index (cx.unit? index) = cx := by
  have same : cx.sources.modify index (fun slot => { slot with unit := cx.unit? index }) = cx.sources := by
    refine List.ext_getElem? fun i => ?_
    rw [List.getElem?_modify]
    by_cases here : index = i
    · subst here
      unfold unit?
      cases cx.sources[index]? <;> simp
    · simp [here]
  rw [putUnit, same]

end Context

namespace Scheduler

variable {s : Scheduler} {cx start : Context} {order : List Nat} {u : BuildUnit} {index : Nat}

/-- Nothing but the front ends themselves takes part in a build. -/
structure Plain (s : Scheduler) : Prop where
  frontends : ∀ f ∈ s.frontends, f.extensions = []
  linkHooks : s.linkHooks = []

theorem Plain.frontend? {s : Scheduler} (h : s.Plain) {mime : String} {f : Frontend}
    (found : s.frontend? mime = some f) : f.extensions = [] :=
  h.frontends f (List.mem_of_find?_eq_some found)

theorem plain_standard : standard.Plain := by
  refine ⟨fun f listed => ?_, rfl⟩
  obtain ⟨format, -, rfl⟩ := List.mem_map.1 listed
  rfl

/-! ### Parts of a run -/

/-- There is a front end for every source. -/
def Supports (s : Scheduler) (cx : Context) : Prop :=
  ∀ slot ∈ cx.sources, (s.frontend? slot.source.mime).isSome = true

theorem Supports.ne_none {slot : SourceSlot} (h : s.Supports cx) (held : cx.sources[index]? = some slot) :
    s.frontend? slot.source.mime ≠ none :=
  Option.isSome_iff_ne_none.1 (h slot (List.mem_of_getElem? held))

theorem Supports.congr {cx' : Context} (h : s.Supports cx)
    (sources : cx'.sources.map SourceSlot.source = cx.sources.map SourceSlot.source) : s.Supports cx' := by
  intro slot member
  have listed := List.mem_map_of_mem (f := SourceSlot.source) member
  rw [sources] at listed
  obtain ⟨slot', member', same⟩ := List.mem_map.1 listed
  rw [← same]
  exact h slot' member'

/-- Advancing changes no sources, so there is still a front end for each of them. -/
theorem Supports.advances {cx' : Context} (h : s.Supports cx) (more : cx.Advances cx') : s.Supports cx' :=
  h.congr more.sources

/-- Sources that no front end reads are errors; there is no other effect. -/
theorem reportUnsupported_eq (s : Scheduler) (cx : Context) :
    (s.reportUnsupported cx).store = cx.store ∧
      ((∀ slot ∈ cx.sources, (s.frontend? slot.source.mime).isSome = true) →
        s.reportUnsupported cx = cx) ∧
      ((cx.hasErrors = true ∨ ∃ slot ∈ cx.sources, (s.frontend? slot.source.mime).isSome = false) →
        (s.reportUnsupported cx).hasErrors = true) := by
  unfold reportUnsupported
  generalize cx.sources = slots
  induction slots generalizing cx with
  | nil =>
    refine ⟨rfl, fun _ => rfl, fun h => ?_⟩
    rcases h with failed | ⟨slot, none, -⟩
    · exact failed
    · cases none
  | cons slot rest ih =>
    rw [List.foldl_cons]
    cases supported : (s.frontend? slot.source.mime).isSome with
    | true =>
      obtain ⟨store, same, failed⟩ := ih cx
      refine ⟨store, fun all => same fun slot h => all slot (.tail _ h), fun h => failed ?_⟩
      refine h.imp id fun ⟨other, member, unsupported⟩ => ⟨other, ?_, unsupported⟩
      refine (List.mem_cons.1 member).resolve_left fun here => ?_
      rw [here, supported] at unsupported
      cases unsupported
    | false =>
      obtain ⟨store, -, failed⟩ :=
        ih (cx.report .error (some slot.source.name) (.unsupportedMime slot.source.mime))
      refine ⟨store, fun all => ?_, fun _ => failed (Or.inl (Context.hasErrors_error cx _ _))⟩
      have known := all slot (.head _)
      rw [supported] at known
      cases known

/-- The first phase at a place makes what it can of its slot. -/
theorem parseAt_cases (plain : s.Plain) (cx : Context) (index : Nat) :
    (s.parseAt cx index = cx ∧ (s.Supports cx → cx.sources[index]? = none)) ∨
      ∃ slot f made, cx.sources[index]? = some slot ∧ s.frontend? slot.source.mime = some f ∧
        f.Parses slot.source slot.unit (cx.putUnit index none) made ∧
        (made.2.2 = cx.putUnit index none ∨
          ∃ message, made.2.2 = (cx.putUnit index none).report .error (some slot.source.name) message) ∧
        s.parseAt cx index = made.2.2.putUnit index
          (if made.1 then made.2.1.map fun u => { u with lastPhase := some .parse1 } else made.2.1) := by
  unfold parseAt
  cases held : cx.sources[index]? with
  | none => exact Or.inl ⟨rfl, fun _ => rfl⟩
  | some slot =>
    cases found : s.frontend? slot.source.mime with
    | none => exact Or.inl ⟨by simp only [found], fun supports => (supports.ne_none held found).elim⟩
    | some f =>
      obtain ⟨parses, reports⟩ :=
        f.parses (plain.frontend? found) slot.source slot.unit (cx.putUnit index none)
      exact Or.inr ⟨slot, f, _, rfl, found, parses, reports, by simp only [found]⟩

/-- Parsing the source at a place changes its unit and may add errors to the log. -/
theorem parseAt_eq (plain : s.Plain) (cx : Context) (index : Nat) :
    ∃ unit log, s.parseAt cx index = ({ cx with log := log } : Context).putUnit index unit ∧
      cx.log.GrowsBy (·.severity = .error) log := by
  rcases parseAt_cases plain cx index with ⟨idle, -⟩ | ⟨slot, f, made, -, -, -, reports, heq⟩
  · exact ⟨cx.unit? index, cx.log, idle.trans (cx.putUnit_unit? index).symm, .refl _ _⟩
  · rw [heq]
    rcases reports with same | ⟨message, same⟩ <;> rw [same]
    · exact ⟨_, cx.log, cx.putUnit_putUnit index none _, .refl _ _⟩
    · have said : Diagnostic.severity ⟨.error, message, some slot.source.name, 0, 0⟩ = .error := rfl
      exact ⟨_, _, Context.putUnit_putUnit { cx with log := cx.log.report .error _ message } index none _,
        Log.growsBy_add said cx.log⟩

/-- After parsing at a place, a unit is an old one or what a front end has made, up to its last phase. -/
theorem parseAt_unit? (plain : s.Plain) {j : Nat} (there : (s.parseAt cx index).unit? j = some u) :
    cx.unit? j = some u ∨ ∃ f source made u' last, Frontend.Parses f source (cx.unit? j)
      (cx.putUnit j none) made ∧ made.2.1 = some u' ∧ u = { u' with lastPhase := last } := by
  by_cases other : j = index
  · subst other
    rcases parseAt_cases plain cx j with ⟨idle, -⟩ | ⟨slot, f, made, held, -, parses, reports, heq⟩
    · exact Or.inl (idle ▸ there)
    · have held' : made.2.2.sources[j]? = some { slot with unit := none } := by
        rcases reports with same | ⟨_, same⟩ <;> simp [same, Context.report, Context.putUnit, held]
      rw [heq, Context.unit?_putUnit_self held'] at there
      rw [← Context.unit?_eq held] at parses
      split at there
      next =>
        obtain ⟨u', found, rfl⟩ := Option.map_eq_some_iff.1 there
        exact Or.inr ⟨f, _, made, u', _, parses, found, rfl⟩
      next => exact Or.inr ⟨f, _, made, u, _, parses, there, rfl⟩
  · obtain ⟨unit, log, heq, -⟩ := parseAt_eq plain cx index
    rw [heq, Context.unit?_putUnit_of_ne other] at there
    exact Or.inl there

theorem reportUnsupported_evolves (s : Scheduler) (cx : Context) :
    cx.Evolves (fun _ => True) (s.reportUnsupported cx) := by
  refine Context.Evolves.foldl (fun cx slot => ?_) cx.sources cx
  split
  · exact .refl _ cx
  · exact cx.evolves_report trivial

theorem parseAt_advances (plain : s.Plain) (cx : Context) (index : Nat) :
    cx.Advances (s.parseAt cx index) := by
  obtain ⟨unit, log, heq, grows⟩ := parseAt_eq plain cx index
  have logged : cx.Advances { cx with log := log } := ⟨rfl, rfl, .refl _, grows.imp fun _ _ => trivial⟩
  rw [heq]
  exact logged.trans (Context.advances_putUnit _ index unit)

theorem parseAll_advances (plain : s.Plain) (cx : Context) : cx.Advances (s.parseAll cx) :=
  Context.Advances.foldl (parseAt_advances plain) _ cx

/-- Errors that are reported one by one make the build fail, if there are any. -/
theorem hasErrors_reports (source : String) (errors : List RegistryError) (cx : Context) :
    (errors.foldl (fun cx e => cx.report .error (some source) e.message) cx).hasErrors
      = (cx.hasErrors || !errors.isEmpty) := by
  induction errors generalizing cx with
  | nil => exact (Bool.or_false _).symm
  | cons e rest ih =>
    rw [List.foldl_cons, ih, Context.hasErrors_error]
    simp

theorem defineUnit_evolves (cx : Context) (u : BuildUnit) :
    cx.Evolves (fun _ => True) (defineUnit cx u) := by
  have noted : cx.Evolves (fun _ => True)
      { cx with registry := (cx.registry.defineAll u.source.name u.topLevel).1 } :=
        ⟨rfl, rfl, .refl _, .refl _ _⟩
  exact noted.trans (Context.Evolves.foldl (fun cx e => cx.evolves_report trivial) _ _)

theorem defineUnits_evolves (cx : Context) : cx.Evolves (fun _ => True) (defineUnits cx) :=
  Context.Evolves.foldl defineUnit_evolves cx.units cx

theorem dependencyOrder_evolves (cx : Context) : cx.Evolves (fun _ => True) cx.dependencyOrder.2 := by
  obtain ⟨cx', asks, heq⟩ := cx.dependencyOrder_eq
  rw [heq]
  split
  · exact asks.remarks.any
  · exact asks.remarks.any.trans (Context.Evolves.foldl (fun cx cycle => cx.evolves_report trivial) _ cx')

/-- The front end of the source at a place. -/
def frontendAt? (s : Scheduler) (cx : Context) (index : Nat) : Option Frontend :=
  cx.sources[index]?.bind fun slot => s.frontend? slot.source.mime

/-- A step of a phase does nothing, which with a front end for each source means that there is no unit; or it
    is the step of the front end. -/
theorem stepAt_cases (s : Scheduler) (phase : Phase) (cx : Context) (index : Nat) :
    (s.stepAt phase cx index = cx ∧ (s.Supports cx → cx.unit? index = none)) ∨
      ∃ f u, s.frontendAt? cx index = some f ∧ cx.unit? index = some u := by
  unfold stepAt frontendAt? Context.unit?
  cases held : cx.sources[index]? with
  | none => exact Or.inl ⟨rfl, fun _ => rfl⟩
  | some slot =>
    cases found : s.frontend? slot.source.mime with
    | none => exact Or.inl ⟨by simp only [found], fun supports => (supports.ne_none held found).elim⟩
    | some f =>
      cases unit : slot.unit with
      | none => exact Or.inl ⟨by simp only [found, unit], fun _ => unit⟩
      | some u => exact Or.inr ⟨f, u, found, unit⟩

variable {f : Frontend}

/-- A step at the place of a unit is the step of its front end, and the slot is empty meanwhile. -/
theorem stepAt_own (found : s.frontendAt? cx index = some f) (here : cx.unit? index = some u)
    (phase : Phase) :
    s.stepAt phase cx index = (f.step phase u (cx.putUnit index none)).2.putUnit index
      (some { (f.step phase u (cx.putUnit index none)).1 with lastPhase := some phase }) := by
  obtain ⟨slot, held, unit⟩ := Option.bind_eq_some_iff.1 here
  rw [frontendAt?, held] at found
  have found : s.frontend? slot.source.mime = some f := found
  simp only [stepAt, held, found, unit]

section

variable (plain : s.Plain)
include plain

theorem frontendAt?_plain (found : s.frontendAt? cx index = some f) : f.extensions = [] := by
  obtain ⟨slot, -, found⟩ := Option.bind_eq_some_iff.1 found
  exact plain.frontend? found

theorem stepAt_advances (phase : Phase) (cx : Context) (index : Nat) :
    cx.Advances (s.stepAt phase cx index) := by
  rcases s.stepAt_cases phase cx index with ⟨idle, -⟩ | ⟨f, u, found, here⟩
  · rw [idle]
    exact .refl cx
  · have evolves := (f.step_stays (frontendAt?_plain plain found) phase u (cx.putUnit index none)).2
    rw [stepAt_own found here]
    exact ((cx.advances_putUnit index none).trans evolves.advances).trans
      (Context.advances_putUnit _ index _)

/-- A step changes no other unit. -/
theorem stepAt_unit?_of_ne {j : Nat} (other : j ≠ index) (phase : Phase) (cx : Context) :
    (s.stepAt phase cx index).unit? j = cx.unit? j := by
  rcases s.stepAt_cases phase cx index with ⟨idle, -⟩ | ⟨f, u, found, here⟩
  · rw [idle]
  · have evolves := (f.step_stays (frontendAt?_plain plain found) phase u (cx.putUnit index none)).2
    rw [stepAt_own found here, Context.unit?_putUnit_of_ne other, evolves.unit?,
      Context.unit?_putUnit_of_ne other]

/-- The unit of a step is what its front end makes of it. -/
theorem stepAt_own_unit? (found : s.frontendAt? cx index = some f) (here : cx.unit? index = some u)
    (phase : Phase) :
    (s.stepAt phase cx index).unit? index
      = some { (f.step phase u (cx.putUnit index none)).1 with lastPhase := some phase } := by
  obtain ⟨slot, held, -⟩ := Option.bind_eq_some_iff.1 here
  have evolves := (f.step_stays (frontendAt?_plain plain found) phase u (cx.putUnit index none)).2
  have held' : (f.step phase u (cx.putUnit index none)).2.sources[index]?
      = some { slot with unit := none } := by
    rw [evolves.sources]
    simp [Context.putUnit, held]
  rw [stepAt_own found here, Context.unit?_putUnit_self held']

/-- The unit of the step has been through the phase, and is done only if it was. -/
theorem stepAt_unit? (supports : s.Supports cx) (here : cx.unit? index = some u) (phase : Phase) :
    ∃ u', (s.stepAt phase cx index).unit? index = some u' ∧ u'.lastPhase = some phase ∧
      u'.done = u.done := by
  rcases s.stepAt_cases phase cx index with ⟨-, absent⟩ | ⟨f, u₀, found, here'⟩
  · cases here.symm.trans (absent supports)
  · cases here.symm.trans here'
    have stays := (f.step_stays (frontendAt?_plain plain found) phase u (cx.putUnit index none)).1
    exact ⟨_, stepAt_own_unit? plain found here phase, rfl, stays.done⟩

theorem stepAll_advances (order : List Nat) (phase : Phase) (cx : Context) :
    cx.Advances (s.stepAll order phase cx) :=
  Context.Advances.foldl (stepAt_advances plain phase) order cx

end

theorem finishAll_advances (order : List Nat) (cx : Context) : cx.Advances (finishAll order cx) :=
  Context.Advances.foldl (fun cx index => cx.advances_putUnit index _) order cx

/-- To finish units changes the slots alone. -/
theorem finishAll_frame (order : List Nat) (cx : Context) :
    ∃ sources, finishAll order cx = { cx with sources := sources } := by
  refine List.foldlRecOn (motive := fun cx' : Context => ∃ sources,
    cx' = { cx with sources := sources }) order _ ⟨cx.sources, rfl⟩ ?_
  rintro _ ⟨sources, rfl⟩ index -
  exact ⟨_, rfl⟩

/-- Exactly the units of the order are marked as done. -/
@[simp] theorem finishAll_unit?_eq (order : List Nat) (cx : Context) (j : Nat) :
    (finishAll order cx).unit? j = if j ∈ order then (cx.unit? j).map BuildUnit.markDone
    else cx.unit? j := by
  have twice : BuildUnit.markDone ∘ BuildUnit.markDone = BuildUnit.markDone := rfl
  induction order generalizing cx with
  | nil => rfl
  | cons index rest ih =>
    rw [finishAll, List.foldl_cons]
    refine (ih _).trans ?_
    by_cases here : j = index
    · subst here
      rw [Context.unit?_putUnit_map, Option.map_map, twice, ite_self, if_pos (.head _)]
    · rw [Context.unit?_putUnit_of_ne here]
      simp only [List.mem_cons, here, false_or]

/-! ### Whole runs -/

/-- What a run that gets past the first phase starts the others with: the order of the units, and the
    state. -/
def prepared? (s : Scheduler) (cx : Context) : Option (List Nat × Context) :=
  let opened := s.reportUnsupported cx
  let defined := defineUnits (s.parseAll opened)
  if opened.hasErrors || defined.hasErrors then none
  else defined.dependencyOrder.1.map fun order => (order, defined.dependencyOrder.2)

/-- A run gets past the first phase if all sources are supported, parsing and defining report no error, and
    the units can be put in order. -/
theorem prepared?_eq_some_iff : s.prepared? cx = some (order, start) ↔
    (s.reportUnsupported cx).hasErrors = false ∧
      (defineUnits (s.parseAll (s.reportUnsupported cx))).hasErrors = false ∧
      (defineUnits (s.parseAll (s.reportUnsupported cx))).dependencyOrder = (some order, start) := by
  unfold prepared?
  dsimp only
  rw [Option.ite_none_left_eq_some, Bool.or_eq_true, not_or, Bool.not_eq_true, Bool.not_eq_true, and_assoc]
  rcases (defineUnits (s.parseAll (s.reportUnsupported cx))).dependencyOrder with ⟨found, made⟩
  cases found <;> simp

theorem run_prepared (h : s.prepared? cx = some (order, start)) :
    s.run cx = s.runOrdered order start := by
  obtain ⟨supported, parsed, sorted⟩ := prepared?_eq_some_iff.1 h
  simp only [run, supported, Bool.false_eq_true, if_false, parsed, sorted]

/-- Units that cannot be put in order are an error. -/
@[simp] theorem hasErrors_of_cyclic (h : cx.dependencyOrder.1 = none) :
    cx.dependencyOrder.2.hasErrors = true := by
  obtain ⟨cx', -, heq⟩ := cx.dependencyOrder_eq
  rw [heq] at h ⊢
  split at h
  next => cases h
  next cyclic =>
    rw [if_neg cyclic]
    have some := List.length_pos_iff.2 cyclic
    rw [Context.hasErrors, Log.hasErrors_iff, Context.log_reportCycles]
    exact Nat.add_pos_right _ some

@[simp] theorem store_parseAll (plain : s.Plain) (cx : Context) : (s.parseAll cx).store = cx.store := by
  refine List.foldlRecOn (motive := fun cx' : Context => cx'.store = cx.store) _ _ rfl
    fun cx' same index _ => ?_
  obtain ⟨unit, log, heq, -⟩ := parseAt_eq plain cx' index
  rw [heq]
  exact same

@[simp] theorem store_defineUnits (cx : Context) : (defineUnits cx).store = cx.store :=
  List.foldlRecOn (motive := fun cx' : Context => cx'.store = cx.store) _ _ rfl fun _ same _ _ =>
    List.foldlRecOn (motive := fun cx' : Context => cx'.store = cx.store) _ _ same fun _ same _ _ => same

@[simp] theorem store_dependencyOrder (cx : Context) : cx.dependencyOrder.2.store = cx.store := by
  obtain ⟨cx', ⟨r, rfl, -⟩, heq⟩ := cx.dependencyOrder_eq
  rw [heq]
  split
  · rfl
  · exact Context.store_reportCycles _ _

/-- A run stops for errors in the first phase, or it works on the units in order. -/
theorem run_cases (s : Scheduler) (cx : Context) :
    (∃ order start, s.prepared? cx = some (order, start) ∧ s.run cx = s.runOrdered order start ∧
        (s.Plain → cx.Advances start)) ∨
      ∃ phase cx', s.run cx = (.stopped phase [], cx') ∧ phase ∈ [none, some .parse1] ∧
        cx'.hasErrors = true ∧ (s.Plain → cx.Advances cx' ∧ cx'.store = cx.store) := by
  have opens := (s.reportUnsupported_evolves cx).advances
  have opens' := (s.reportUnsupported_eq cx).1
  have parses' (plain : s.Plain) := (store_defineUnits _).trans ((store_parseAll plain _).trans opens')
  have ordered' := store_dependencyOrder (defineUnits (s.parseAll (s.reportUnsupported cx)))
  have parses (plain : s.Plain) :=
    (opens.trans (parseAll_advances plain _)).trans (defineUnits_evolves _).advances
  have ordered := dependencyOrder_evolves (defineUnits (s.parseAll (s.reportUnsupported cx)))
  have cyclic := @hasErrors_of_cyclic (defineUnits (s.parseAll (s.reportUnsupported cx)))
  cases unsupported : (s.reportUnsupported cx).hasErrors with
  | true =>
    exact Or.inr ⟨none, _, by rw [run, if_pos unsupported], by simp, unsupported, fun _ => ⟨opens, opens'⟩⟩
  | false =>
    cases failed : (defineUnits (s.parseAll (s.reportUnsupported cx))).hasErrors with
    | true =>
      refine Or.inr ⟨some .parse1, _, ?_, by simp, failed, fun plain => ⟨parses plain, parses' plain⟩⟩
      simp only [run, unsupported, Bool.false_eq_true, if_false, failed, if_true]
    | false =>
      cases sorted : (defineUnits (s.parseAll (s.reportUnsupported cx))).dependencyOrder with
      | mk found start =>
        rw [sorted] at ordered ordered' cyclic
        cases found with
        | some order =>
          have past := prepared?_eq_some_iff.2 ⟨unsupported, failed, sorted⟩
          exact Or.inl ⟨order, start, past, run_prepared past, fun plain =>
            (parses plain).trans ordered.advances⟩
        | none =>
          refine Or.inr ⟨some .parse1, start, ?_, by simp, cyclic rfl, fun plain => ?_⟩
          · simp only [run, unsupported, Bool.false_eq_true, if_false, failed, sorted]
          · exact ⟨(parses plain).trans ordered.advances, ordered'.trans (parses' plain)⟩

/-- The phases after the first advance, one unit and one phase after the other. -/
theorem runPhases_advances (plain : s.Plain) (order : List Nat) (phases : List Phase) (cx : Context) :
    cx.Advances (s.runPhases order phases cx).2 := by
  induction phases generalizing cx with
  | nil => exact .refl cx
  | cons phase rest ih =>
    have first := stepAll_advances plain order phase cx
    rw [runPhases]
    split
    · exact first
    · exact first.trans (ih _)

theorem runOrdered_advances (plain : s.Plain) (order : List Nat) (cx : Context) :
    cx.Advances (s.runOrdered order cx).2 := by
  have phases := runPhases_advances plain order Phase.later cx
  unfold runOrdered
  split
  next stopped =>
    rw [stopped] at phases
    exact phases
  next cx' ended =>
    rw [ended] at phases
    rw [link, plain.linkHooks]
    exact phases.trans (finishAll_advances order cx')

theorem run_advances (plain : s.Plain) (cx : Context) : cx.Advances (s.run cx).2 := by
  rcases s.run_cases cx with ⟨order, start, -, heq, more⟩ | ⟨phase, cx', heq, -, -, more⟩
  · rw [heq]
    exact (more plain).trans (runOrdered_advances plain order start)
  · rw [heq]
    exact (more plain).1

/-- Phases are only broken off after an error. -/
theorem runPhases_stopped {order : List Nat} {phases : List Phase} {cx cx' : Context} {phase : Phase}
    (h : s.runPhases order phases cx = (some phase, cx')) : cx'.hasErrors = true := by
  induction phases generalizing cx with
  | nil => cases h
  | cons first rest ih =>
    rw [runPhases] at h
    split at h
    next failed =>
      cases h
      exact failed
    next => exact ih h

/-- A run is complete exactly if there are no errors. -/
theorem run_completed (s : Scheduler) (cx : Context) : (s.run cx).1.completed = !(s.run cx).2.hasErrors := by
  rcases s.run_cases cx with ⟨order, start, -, heq, -⟩ | ⟨phase, cx', heq, -, failed, -⟩
  · rw [heq]
    unfold runOrdered
    split
    next stopped => rw [runPhases_stopped stopped]; rfl
    next => rfl
  · rw [heq, failed]
    rfl

end Scheduler

end AbcBuild
