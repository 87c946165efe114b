/-
Module: AbcBuild.Proofs.Gate
Purpose: The phases of a run are barriers.  The first error is the last thing that happens: the rest of its
  phase passes over the other units, and no later phase starts.
Main exports: Scheduler.through, Scheduler.HaltsAt, Scheduler.Ready, Scheduler.run_halts_at_first_error
-/
import AbcBuild.Abc.Builder
import AbcBuild.Proofs.Advances

namespace AbcBuild

namespace Scheduler

variable {s : Scheduler} {cx start : Context} {order items : List Nat} {phase : Phase} {u : BuildUnit}
  {index : Nat}

/-! ### The stages of a run -/

/-- Run whole phases, whatever they report. -/
def through (s : Scheduler) (order : List Nat) (phases : List Phase) (cx : Context) : Context :=
  phases.foldl (fun cx phase => s.stepAll order phase cx) cx

/-- The phases before the one that publishes. -/
def analyses : List Phase := [.parse2, .analyze1, .analyze2, .analyze3]

/-- The phases after the one that publishes. -/
def closings : List Phase := [.generate, .postprocess]

/-- Of the later phases, those before `analyze4` and those after it do not publish. -/
theorem through_later (s : Scheduler) (order : List Nat) (cx : Context) : s.through order Phase.later cx
    = s.through order closings (s.stepAll order .analyze4 (s.through order analyses cx)) := rfl

theorem quiet_analyses : ∀ phase ∈ analyses, phase ≠ .analyze4 := by decide

theorem quiet_closings : ∀ phase ∈ closings, phase ≠ .analyze4 := by decide

/-- An error is first reported in a phase after some others, while the unit at a place between others is
    worked on. -/
structure FailsFirst (s : Scheduler) (order : List Nat) (start : Context) (before : List Phase)
    (phase : Phase) (after : List Phase) (done : List Nat) (index : Nat) (rest : List Nat) : Prop where
  phases : Phase.later = before ++ phase :: after
  place : order = done ++ index :: rest
  clear : (done.foldl (s.stepAt phase) (s.through order before start)).hasErrors = false
  fails : (s.stepAt phase (done.foldl (s.stepAt phase) (s.through order before start))
    index).hasErrors = true

/-- A run halts in a phase because of the unit at a place, before the rest of the order: `opened` is the
    state at the start of the phase and `broken` the state after the step that failed. -/
structure HaltsAt (s : Scheduler) (cx : Context) (order : List Nat) (phase : Phase) (rest : List Nat)
    (opened broken : Context) : Prop where
  run : s.run cx = (.stopped (some phase) order, rest.foldl (s.stepAt phase) broken)
  registry : (s.run cx).2.registry = broken.registry
  log : (s.run cx).2.log = broken.log
  passed : ∀ j ∈ rest, (s.run cx).2.unit? j = (opened.unit? j).map fun u =>
    { u with lastPhase := some phase }
  lastPhase : ∀ j ∈ order, ∃ u, (s.run cx).2.unit? j = some u ∧ u.lastPhase = some phase
  undone : ∀ j, ∀ u ∈ (s.run cx).2.unit? j, u.done = true → ∃ u₀ ∈ cx.unit? j, u₀.done = true

/-- A run comes to its end: all phases are through, and every unit is done. -/
structure Completes (s : Scheduler) (cx : Context) (order : List Nat) (start : Context) : Prop where
  run : s.run cx = (⟨true, some .postprocess, order⟩, finishAll order (s.through order Phase.later start))
  ended : ∀ j ∈ order, ∃ u, (s.run cx).2.unit? j = some u ∧ u.lastPhase = some .postprocess ∧ u.done = true

theorem through_advances (plain : s.Plain) (order : List Nat) (phases : List Phase) (cx : Context) :
    cx.Advances (s.through order phases cx) :=
  Context.Advances.foldl (fun cx phase => stepAll_advances plain order phase cx) phases cx

/-! ### Whole phases -/

/-- Phases without error are run to the end. -/
theorem runPhases_clear (plain : s.Plain) {phases : List Phase}
    (ok : (s.through order phases cx).hasErrors = false) :
    s.runPhases order phases cx = (none, s.through order phases cx) := by
  induction phases generalizing cx with
  | nil => rfl
  | cons phase rest ih =>
    have first : (s.stepAll order phase cx).hasErrors = false := (through_advances plain order rest _).ok ok
    rw [runPhases, if_neg (Bool.eq_false_iff.1 first), ih ok]
    rfl

/-- The first phase with errors is the last. -/
theorem runPhases_failed (plain : s.Plain) {before : List Phase}
    (ok : (s.through order before cx).hasErrors = false)
    (failed : (s.stepAll order phase (s.through order before cx)).hasErrors = true) (after : List Phase) :
    s.runPhases order (before ++ phase :: after) cx
      = (some phase, s.stepAll order phase (s.through order before cx)) := by
  induction before generalizing cx with
  | nil => exact if_pos failed
  | cons first rest ih =>
    have clear : (s.stepAll order first cx).hasErrors = false := (through_advances plain order rest _).ok ok
    rw [List.cons_append, runPhases, if_neg (Bool.eq_false_iff.1 clear)]
    exact ih ok failed

/-- Of steps that lead to a failure, one is the first to fail. -/
theorem exists_first_failure {α : Type} (step : Context → α → Context) {items : List α} {cx : Context}
    (ok : cx.hasErrors = false) (failed : (items.foldl step cx).hasErrors = true) :
    ∃ done a rest, items = done ++ a :: rest ∧ (done.foldl step cx).hasErrors = false ∧
      (step (done.foldl step cx) a).hasErrors = true := by
  induction items generalizing cx with
  | nil => cases ok.symm.trans failed
  | cons a later ih =>
    cases first : (step cx a).hasErrors with
    | true => exact ⟨[], a, later, rfl, ok, first⟩
    | false =>
      obtain ⟨done, b, rest, rfl, clear, fails⟩ := ih first failed
      exact ⟨a :: done, b, rest, rfl, clear, fails⟩

/-! ### Units -/

section

variable (plain : s.Plain)
include plain

theorem stepAt_done (supports : s.Supports cx) (phase : Phase) (index j : Nat) :
    ((s.stepAt phase cx index).unit? j).map BuildUnit.done = (cx.unit? j).map BuildUnit.done := by
  by_cases other : j = index
  · subst other
    cases here : cx.unit? j with
    | some u =>
      obtain ⟨u', there, -, same⟩ := stepAt_unit? plain supports here phase
      rw [there, Option.map_some, Option.map_some, same]
    | none =>
      rcases s.stepAt_cases phase cx j with ⟨idle, -⟩ | ⟨f, u, -, there⟩
      · rw [idle, here]
      · cases here.symm.trans there
  · rw [stepAt_unit?_of_ne plain other]

theorem foldl_stepAt_done (supports : s.Supports cx) (phase : Phase) (items : List Nat) (j : Nat) :
    ((items.foldl (s.stepAt phase) cx).unit? j).map BuildUnit.done = (cx.unit? j).map BuildUnit.done := by
  induction items generalizing cx with
  | nil => rfl
  | cons i rest ih =>
    exact (ih (supports.advances (stepAt_advances plain phase cx i))).trans
      (stepAt_done plain supports phase i j)

/-- No phase marks a unit as done. -/
theorem through_done (supports : s.Supports cx) (order : List Nat) (phases : List Phase) (j : Nat) :
    ((s.through order phases cx).unit? j).map BuildUnit.done = (cx.unit? j).map BuildUnit.done := by
  induction phases generalizing cx with
  | nil => rfl
  | cons phase rest ih =>
    refine (ih (supports.advances (stepAll_advances plain order phase cx))).trans ?_
    exact foldl_stepAt_done plain supports phase order j

theorem foldl_stepAt_of_not_mem (phase : Phase) {j : Nat} (absent : j ∉ items)
    (cx : Context) : (items.foldl (s.stepAt phase) cx).unit? j = cx.unit? j := by
  induction items generalizing cx with
  | nil => rfl
  | cons i rest ih =>
    rw [List.mem_cons, not_or] at absent
    exact (ih absent.2 _).trans (stepAt_unit?_of_ne plain absent.1 phase cx)

/-- A unit that a phase works on has been through it in the end. -/
theorem foldl_stepAt_lastPhase (supports : s.Supports cx) (phase : Phase) {j : Nat}
    (listed : j ∈ items) (present : (cx.unit? j).isSome = true) :
    ∃ u, (items.foldl (s.stepAt phase) cx).unit? j = some u ∧ u.lastPhase = some phase := by
  induction items generalizing cx with
  | nil => cases listed
  | cons i rest ih =>
    have supports' := supports.advances (stepAt_advances plain phase cx i)
    rw [List.foldl_cons]
    by_cases later : j ∈ rest
    · refine ih supports' later ?_
      rw [← Option.isSome_map (f := BuildUnit.done), stepAt_done plain supports, Option.isSome_map]
      exact present
    · cases (List.mem_cons.1 listed).resolve_right later
      obtain ⟨u, here⟩ := Option.isSome_iff_exists.1 present
      obtain ⟨u', there, last, -⟩ := stepAt_unit? plain supports here phase
      exact ⟨u', (foldl_stepAt_of_not_mem plain phase later _).trans there, last⟩

end

/-- Once there are errors, a step only notes that the unit has been through the phase. -/
theorem stepAt_passes (supports : s.Supports cx) (failed : cx.hasErrors = true) (phase : Phase)
    (index : Nat) :
    s.stepAt phase cx index
      = cx.putUnit index ((cx.unit? index).map fun u => { u with lastPhase := some phase }) := by
  rcases s.stepAt_cases phase cx index with ⟨idle, absent⟩ | ⟨f, u, found, here⟩
  · have same := cx.putUnit_unit? index
    rw [absent supports] at same ⊢
    exact idle.trans same.symm
  · have still : (cx.putUnit index none).hasErrors = true := failed
    rw [stepAt_own found here, f.step_failed phase u still, Context.putUnit_putUnit, here, Option.map_some]

/-- Once there are errors, the rest of a phase passes over the units. -/
theorem foldl_stepAt_passes (plain : s.Plain) (supports : s.Supports cx) (failed : cx.hasErrors = true)
    (phase : Phase) (distinct : items.Nodup) :
    (items.foldl (s.stepAt phase) cx).registry = cx.registry ∧
    (items.foldl (s.stepAt phase) cx).log = cx.log ∧
      ∀ j ∈ items, (items.foldl (s.stepAt phase) cx).unit? j
        = (cx.unit? j).map fun u => { u with lastPhase := some phase } := by
  induction items generalizing cx with
  | nil => exact ⟨rfl, rfl, fun j none => (List.not_mem_nil none).elim⟩
  | cons i rest ih =>
    have step := stepAt_passes supports failed phase i
    have more := stepAt_advances plain phase cx i
    obtain ⟨absent, distinct'⟩ := List.nodup_cons.1 distinct
    obtain ⟨registry, log, units⟩ := ih (supports.advances more) (more.hasErrors failed) distinct'
    rw [List.foldl_cons]
    refine ⟨registry.trans (by rw [step]; rfl), log.trans (by rw [step]; rfl), fun j listed => ?_⟩
    by_cases later : j ∈ rest
    · have other : j ≠ i := fun same => absent (same ▸ later)
      rw [units j later, stepAt_unit?_of_ne plain other]
    · cases (List.mem_cons.1 listed).resolve_right later
      rw [foldl_stepAt_of_not_mem plain phase later, step]
      exact cx.unit?_putUnit_map _ _

theorem finishAll_log (order : List Nat) (cx : Context) : (finishAll order cx).log = cx.log := by
  obtain ⟨_, heq⟩ := finishAll_frame order cx
  rw [heq]

/-! ### What the other phases start with -/

theorem supports_of_reportUnsupported (h : (s.reportUnsupported cx).hasErrors = false) : s.Supports cx := by
  intro slot member
  cases supported : (s.frontend? slot.source.mime).isSome with
  | true => rfl
  | false =>
    have failed := (s.reportUnsupported_eq cx).2.2 (Or.inr ⟨slot, member, supported⟩)
    cases h.symm.trans failed

/-- A run gets to its order if all sources have a front end and nothing fails before. -/
theorem prepared?_iff_supports : s.prepared? cx = some (order, start) ↔
    s.Supports cx ∧ cx.hasErrors = false ∧ (defineUnits (s.parseAll cx)).hasErrors = false ∧
      (defineUnits (s.parseAll cx)).dependencyOrder = (some order, start) := by
  have quiet (supports : s.Supports cx) : s.reportUnsupported cx = cx :=
    (s.reportUnsupported_eq cx).2.1 supports
  rw [prepared?_eq_some_iff]
  constructor
  · rintro ⟨ok, rest⟩
    have supports := supports_of_reportUnsupported ok
    rw [quiet supports] at ok rest
    exact ⟨supports, ok, rest⟩
  · rintro ⟨supports, rest⟩
    rwa [quiet supports]

theorem parseAt_done (plain : s.Plain) (cx : Context) (index j : Nat) :
    ∀ u ∈ (s.parseAt cx index).unit? j, u.done = true → ∃ u₀ ∈ cx.unit? j, u₀.done = true := by
  intro u there done
  rcases parseAt_unit? plain there with same | ⟨f, source, made, u', last, parses, found, rfl⟩
  · exact ⟨u, same, done⟩
  · exact parses.done u' found done

/-- Parsing finishes no unit. -/
theorem parseAll_done (plain : s.Plain) (cx : Context) (j : Nat) :
    ∀ u ∈ (s.parseAll cx).unit? j, u.done = true → ∃ u₀ ∈ cx.unit? j, u₀.done = true := by
  unfold parseAll
  generalize List.range cx.sources.length = order
  induction order generalizing cx with
  | nil => exact fun u there done => ⟨u, there, done⟩
  | cons i rest ih =>
    intro u there done
    obtain ⟨u₁, there₁, done₁⟩ := ih (s.parseAt cx i) u there done
    exact parseAt_done plain cx i j u₁ there₁ done₁

/-- A run that gets past the first phase has no errors so far, every source has a front end, and the order
    lists the units, each once. -/
structure Ready (s : Scheduler) (cx : Context) (order : List Nat) (start : Context) : Prop where
  ok : start.hasErrors = false
  supports : s.Supports start
  distinct : order.Nodup
  units : ∀ i, i ∈ order ↔ (start.unit? i).isSome = true
  undone : ∀ j, ∀ u ∈ start.unit? j, u.done = true → ∃ u₀ ∈ cx.unit? j, u₀.done = true

theorem ready_of_prepared (plain : s.Plain) (h : s.prepared? cx = some (order, start)) :
    s.Ready cx order start := by
  obtain ⟨supports, -, parsed, sorted⟩ := prepared?_iff_supports.1 h
  have parses := parseAll_advances plain cx
  have defines := defineUnits_evolves (s.parseAll cx)
  obtain ⟨cx', asks, heq⟩ := (defineUnits (s.parseAll cx)).dependencyOrder_eq
  have closed := Context.closed_graphOf (defineUnits (s.parseAll cx)).closed_graph
  have nodes :=
    Context.nodes_graphOf (defineUnits (s.parseAll cx)).unitIndices (defineUnits (s.parseAll cx)).ancestry
  rw [heq] at sorted
  split at sorted
  next =>
    cases sorted
    have evolves := asks.remarks.toEvolves
    refine ⟨evolves.log.hasErrors_eq.trans parsed, ?_, Graph.nodup_order _, fun i => ?_,
      fun j u there done => ?_⟩
    · exact supports.advances ((parses.trans defines.advances).trans evolves.advances)
    · rw [Graph.mem_order_iff closed, nodes, Context.mem_unitIndices, evolves.unit?]
    · rw [evolves.unit?, defines.unit?] at there
      exact parseAll_done plain _ j u there done
  next => cases sorted

/-! ### The gate -/

variable {start : Context}

theorem stepAll_append (done rest : List Nat) (phase : Phase) (cx : Context) :
    s.stepAll (done ++ rest) phase cx = rest.foldl (s.stepAt phase) (done.foldl (s.stepAt phase) cx) :=
  List.foldl_append

section

variable (plain : s.Plain)
include plain

theorem through_isSome (supports : s.Supports cx) (order : List Nat) (phases : List Phase) (j : Nat) :
    ((s.through order phases cx).unit? j).isSome = (cx.unit? j).isSome := by
  rw [← Option.isSome_map (f := BuildUnit.done), through_done plain supports, Option.isSome_map]

theorem Ready.present (ready : s.Ready cx order start) (phases : List Phase) {j : Nat} (listed : j ∈ order) :
    ((s.through order phases start).unit? j).isSome = true := by
  rw [through_isSome plain ready.supports]
  exact (ready.units j).1 listed

section

variable (past : s.prepared? cx = some (order, start))
include past

/-- A run halts in the phase of its first error: the units after the one that failed only note that phase. -/
theorem haltsAt_of_failsFirst {before after : List Phase} {done rest : List Nat}
    (h : s.FailsFirst order start before phase after done index rest) :
    s.HaltsAt cx order phase rest (s.through order before start)
      (s.stepAt phase (done.foldl (s.stepAt phase) (s.through order before start)) index) := by
  have ready := ready_of_prepared plain past
  obtain ⟨phases, place, clear, fails⟩ := h
  have supports := ready.supports.advances (through_advances plain order before start)
  have begins := Context.Advances.foldl (stepAt_advances plain phase) done (s.through order before start)
  have breaks :=
    stepAt_advances plain phase (done.foldl (s.stepAt phase) (s.through order before start)) index
  -- the phase goes on after the failure, but every unit of the rest is passed over
  have split := s.stepAll_append done (index :: rest) phase (s.through order before start)
  rw [← place, List.foldl_cons] at split
  have distinct := place ▸ ready.distinct
  obtain ⟨-, distinct', apart⟩ := List.nodup_append.1 distinct
  obtain ⟨absent, distinct''⟩ := List.nodup_cons.1 distinct'
  obtain ⟨registry, log, passed⟩ :=
    foldl_stepAt_passes plain (supports.advances (begins.trans breaks)) fails phase distinct''
  have halted : s.run cx
      = (.stopped (some phase) order, s.stepAll order phase (s.through order before start)) := by
    have failed : (s.stepAll order phase (s.through order before start)).hasErrors = true := by
      rw [split]
      exact (Context.Advances.foldl (stepAt_advances plain phase) rest _).hasErrors fails
    rw [run_prepared past, runOrdered, phases, runPhases_failed plain (begins.ok clear) failed]
  rw [← split] at registry log passed
  refine ⟨by rw [halted, split], by rw [halted, registry], by rw [halted, log], fun j later => ?_,
    fun j listed => ?_, fun j u there finished => ?_⟩
  · have ahead : j ∉ done := fun first => apart j first j (.tail _ later) rfl
    have other : j ≠ index := fun same => absent (same ▸ later)
    rw [halted, passed j later, stepAt_unit?_of_ne plain other, foldl_stepAt_of_not_mem plain phase ahead]
  · rw [halted]
    exact foldl_stepAt_lastPhase plain supports phase listed (ready.present plain before listed)
  · rw [halted] at there
    have same :=
      (foldl_stepAt_done plain supports phase order j).trans
        (through_done plain ready.supports order before j)
    rw [← stepAll, Option.mem_def.1 there, Option.map_some, finished, eq_comm,
      Option.map_eq_some_iff] at same
    obtain ⟨u₁, there₁, done₁⟩ := same
    exact ready.undone j u₁ there₁ done₁

theorem exists_failsFirst (failed : (s.through order Phase.later start).hasErrors = true) :
    ∃ before phase after done index rest, s.FailsFirst order start before phase after done index rest := by
  have ready := ready_of_prepared plain past
  obtain ⟨before, phase, after, phases, clear, fails⟩ := exists_first_failure _ ready.ok failed
  obtain ⟨done, index, rest, place, clear', fails'⟩ := exists_first_failure _ clear fails
  exact ⟨before, phase, after, done, index, rest, phases, place, clear', fails'⟩

/-- A run whose phases report no error succeeds, and marks the units of its order. -/
theorem run_clear (clear : (s.through order Phase.later start).hasErrors = false) :
    s.run cx = (⟨true, some .postprocess, order⟩, finishAll order (s.through order Phase.later start)) ∧
      (s.run cx).2.hasErrors = false := by
  have ok : (finishAll order (s.through order Phase.later start)).hasErrors = false := by
    rw [Context.hasErrors, finishAll_log]
    exact clear
  have done : s.run cx
      = (⟨true, some .postprocess, order⟩, finishAll order (s.through order Phase.later start)) := by
    rw [run_prepared past, runOrdered, runPhases_clear plain clear]
    simp only [link, plain.linkHooks, List.foldl_nil, ok, Bool.not_false]
  exact ⟨done, by rw [done, ok]⟩

/-- A run without errors has none in any phase. -/
theorem clear_of_ok (ok : (s.run cx).2.hasErrors = false) :
    (s.through order Phase.later start).hasErrors = false := by
  cases clear : (s.through order Phase.later start).hasErrors with
  | false => rfl
  | true =>
    obtain ⟨before, phase, after, done, index, rest, first⟩ := exists_failsFirst plain past clear
    rw [Context.hasErrors, (haltsAt_of_failsFirst plain past first).log] at ok
    cases ok.symm.trans first.fails

theorem completes_of_clear
    (clear : (s.through order Phase.later start).hasErrors = false) : s.Completes cx order start := by
  have ready := ready_of_prepared plain past
  have ends := (run_clear plain past clear).1
  refine ⟨ends, fun j listed => ?_⟩
  obtain ⟨before, phases⟩ : ∃ before, Phase.later = before ++ [.postprocess] := ⟨Phase.later.dropLast, rfl⟩
  have last : s.through order Phase.later start
      = s.stepAll order .postprocess (s.through order before start) := by
    rw [phases, through, List.foldl_append]
    rfl
  have supports := ready.supports.advances (through_advances plain order before start)
  rw [ends, last]
  obtain ⟨u, there, ended⟩ :=
    foldl_stepAt_lastPhase plain supports .postprocess listed (ready.present plain before listed)
  exact ⟨u.markDone, by rw [finishAll_unit?_eq, if_pos listed]; exact congrArg _ there, ended, rfl⟩

end

end

/-- In a run that gets past the first phase, the units go through the phases in one order, all of them
    through one before the next.  The first error is the last thing that happens: the rest of the order is
    only noted to have been through the phase, and no unit is done.  Without errors all units are done. -/
theorem run_halts_at_first_error (plain : s.Plain) (past : (s.run cx).1.lastPhase ∉ [none, some .parse1]) :
    ∃ order start, s.prepared? cx = some (order, start) ∧ order.Nodup ∧
      (∀ i, i ∈ order ↔ (start.unit? i).isSome = true) ∧
      (∀ before phase after done index rest, s.FailsFirst order start before phase after done index rest →
        s.HaltsAt cx order phase rest (s.through order before start)
          (s.stepAt phase (done.foldl (s.stepAt phase) (s.through order before start)) index)) ∧
      ((s.run cx).2.hasErrors = true →
        ∃ before phase after done index rest, s.FailsFirst order start before phase after done index rest) ∧
      ((s.run cx).2.hasErrors = false → s.Completes cx order start) := by
  rcases s.run_cases cx with ⟨order, start, prepared, -⟩ | ⟨phase, cx', halted, early, -⟩
  · have ready := ready_of_prepared plain prepared
    refine ⟨order, start, prepared, ready.distinct, ready.units,
      fun before phase after done index rest => haltsAt_of_failsFirst plain prepared, fun failed => ?_,
      fun ok => ?_⟩
    · cases clear : (s.through order Phase.later start).hasErrors with
      | true => exact exists_failsFirst plain prepared clear
      | false => cases failed.symm.trans (run_clear plain prepared clear).2
    · exact completes_of_clear plain prepared (clear_of_ok plain prepared ok)
  · rw [halted] at past
    exact (past early).elim

/-- A source with a class that declares a style of some type. -/
def styled (name typeName : String) : SourceSlot :=
  let tag : Metadata := ⟨"Style", [(some "name", "size"), (some "type", typeName)]⟩
  { source := ⟨name ++ ".abc", "", Mime.abc,
    .ok (Abc.File.ofClasses [(Abc.ClassSpec.named name).tagged tag]).encode⟩ }

/-- Three classes declare a style, each in its own way. -/
def clash : Context :=
  { Context.start { styleSeverity := .error } {} with
    sources := [styled "A" "Number", styled "B" "String", styled "C" "Length"] }

theorem run_halts_at_first_error_clash :
    standard.Plain ∧ (standard.run clash).1.lastPhase ∉ [none, some .parse1] ∧
    ∃ opened broken, standard.HaltsAt clash [2, 1, 0] .analyze4 [0] opened broken := by
  have past : (standard.run clash).1.lastPhase ∉ [none, some .parse1] := by decide +kernel
  obtain ⟨order, start, prepared, -, -, halts, -⟩ := run_halts_at_first_error plain_standard past
  have fails : ((standard.prepared? clash).any fun p =>
      p.1 = [2, 1, 0] && !([2].foldl (standard.stepAt .analyze4)
          (standard.through p.1 [.parse2, .analyze1, .analyze2, .analyze3] p.2)).hasErrors &&
        (standard.stepAt .analyze4 ([2].foldl (standard.stepAt .analyze4)
          (standard.through p.1 [.parse2, .analyze1, .analyze2, .analyze3] p.2)) 1).hasErrors) = true := by
    decide +kernel
  rw [prepared, Option.any_some, Bool.and_eq_true, Bool.and_eq_true, Bool.not_eq_true',
    decide_eq_true_eq] at fails
  obtain ⟨⟨rfl, clear⟩, failed⟩ := fails
  have first : standard.FailsFirst [2, 1, 0] start [.parse2, .analyze1, .analyze2, .analyze3] .analyze4
      [.generate, .postprocess] [2] 1 [0] := ⟨rfl, rfl, clear, failed⟩
  exact ⟨plain_standard, past, _, _, halts _ _ _ _ _ _ first⟩

end Scheduler

end AbcBuild
