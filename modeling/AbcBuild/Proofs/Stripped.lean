/-
Module: AbcBuild.Proofs.Stripped
Purpose: A unit whose type information was removed, in a second run over its source.  Its program has been
  framed, so the second run builds no frame for it: its classes are listed under the same names, but their
  types and values are what a unit without a frame makes of them, and the unit ends without type information.
Main exports: BuildUnit.Unframed, BuildUnit.Moves, Scheduler.Paired.lists_unframed,
  Scheduler.stripped_unit_stays_unframed
-/
import AbcBuild.Proofs.Restart

namespace AbcBuild

/-! ### Units whose program is framed -/

namespace BuildUnit

/-- Nothing that the analysis of a program binds is there. -/
structure Unframed (u : BuildUnit) : Prop where
  typeInfo : u.typeInfo = none
  flow : u.scratch.flow = none
  constants : u.scratch.constants = none

/-- The tree of a unit stays, and no frame comes up. -/
structure Moves (u u' : BuildUnit) : Prop where
  tree : u'.tree = u.tree
  unframed : u.Unframed → u'.Unframed

variable {u u' u'' : BuildUnit}

theorem Moves.refl (u : BuildUnit) : u.Moves u := ⟨rfl, id⟩

theorem Moves.trans (h : u.Moves u') (h' : u'.Moves u'') : u.Moves u'' :=
  ⟨h'.tree.trans h.tree, fun start => h'.unframed (h.unframed start)⟩

theorem Moves.program? (h : u.Moves u') : u'.program? = u.program? := by
  unfold BuildUnit.program?
  rw [h.tree]

end BuildUnit

theorem mergeDependencies_moves (set : DependencySet) (u : BuildUnit) (cx : Context) :
    u.Moves (mergeDependencies set u cx).1 := by
  have h := accounts_mergeNamesBy takeOver (u.dependencies.ofSet set) u cx
  obtain ⟨typeInfo, done, same⟩ := h.unit
  have frame := h.frame
  rw [mergeDependencies, mergeBy]
  rw [same] at frame ⊢
  exact ⟨rfl, fun start => ⟨frame.trans (by rw [start.typeInfo]; rfl), start.flow, start.constants⟩⟩

namespace AbcFrontend

variable (u : BuildUnit) (cx : Context)

theorem bindInheritance_moves : u.Moves (bindInheritance u) := by
  unfold bindInheritance
  split
  next names frame flow _ =>
    refine ⟨rfl, fun start => ?_⟩
    cases start.flow.symm.trans flow
  next => exact .refl u

theorem bindTypes_moves : u.Moves (bindTypes u) := by
  unfold bindTypes
  split
  next => exact .refl u
  next frame framed =>
    refine ⟨rfl, fun start => ?_⟩
    cases start.typeInfo.symm.trans framed

theorem inheritance_moves : u.Moves (inheritance [] u cx).1 := by
  unfold inheritance
  split
  next =>
    have started : u.Moves { u with scratch := { u.scratch with processed := some [] } } :=
      ⟨rfl, fun start => ⟨start.typeInfo, start.flow, start.constants⟩⟩
    simp only [Part.finish_nil, ite_self]
    exact ((started.trans (mergeDependencies_moves _ _ _)).trans (mergeDependencies_moves _ _ _)).trans
      (bindInheritance_moves _)
  next => exact .refl u

theorem types_moves : u.Moves (types [] u cx).1 := by
  unfold types
  split
  next => exact .refl u
  next =>
    simp only [Part.finish_nil, ite_self]
    exact ((mergeDependencies_moves _ _ _).trans (mergeDependencies_moves _ _ _)).trans (bindTypes_moves _)

theorem publish_moves {u : BuildUnit} {p : Program} {cx : Context} (new : u.hasTypeInfo = false)
    (program : u.program? = some p) (ok : cx.hasErrors = false) : u.Moves (publish [] u cx).1 := by
  obtain ⟨entries, cx₁, loader, store, -, -, heq⟩ :=
    publishProgram_eq cx.typeTable.1 (cx.remarks_typeTable.log.hasErrors_eq.trans ok)
  rw [publish_new new program, heq]
  exact ⟨rfl, fun start => ⟨start.typeInfo, start.flow, rfl⟩⟩

theorem generate_moves : u.Moves (generate [] u cx).1 := by
  cases ok : cx.hasErrors with
  | true =>
    have stopped : Extension.runAll [] .generate u cx = (false, u, cx) := by simp [Extension.runAll, ok]
    simp only [generate, stopped, Bool.false_eq_true, if_false]
    exact .refl u
  | false =>
    simp only [generate, Part.runAll_nil .generate u ok, if_true]
    refine ⟨rfl, fun start => ⟨?_, rfl, rfl⟩⟩
    rw [BuildUnit.setBytecode, start.typeInfo, Option.map_none]

/-- Once its program is framed, a new unit keeps its tree, and if it has no frame then, it gets none. -/
theorem step_moves {u : BuildUnit} {p : Program} (new : u.hasTypeInfo = false)
    (program : u.program? = some p) (framed : p.state = .framed) (phase : Phase) (cx : Context) :
    u.Moves (step [] phase u cx).1 := by
  cases ok : cx.hasErrors with
  | true =>
    simp only [step, ok, if_true]
    exact .refl u
  | false =>
    simp only [step, ok, new, Bool.false_and, Bool.false_eq_true, if_false]
    cases phase with
    | parse1 | postprocess => exact .refl u
    | parse2 =>
      simp only [Part.finish_nil]
      exact .refl u
    | analyze1 =>
      simp only [frame, program, framed, reduceCtorEq, if_false]
      exact .refl u
    | analyze2 => exact inheritance_moves u cx
    | analyze3 => exact types_moves u cx
    | analyze4 => exact publish_moves new program ok
    | generate => exact generate_moves u cx

end AbcFrontend

/-! ### Blocks on their way through a run -/

/-- What a step does to a unit, if it is a new block whose program is framed. -/
structure BuildUnit.Carries (format : InputFormat) (u u' : BuildUnit) : Prop extends u.Stays format u' where
  moves : format = .abc → u.hasTypeInfo = false → ∀ p, u.program? = some p → p.state = .framed → u.Moves u'

namespace BuildUnit.Carries

variable {format : InputFormat} {u u' u'' : BuildUnit}

theorem refl (format : InputFormat) (u : BuildUnit) : u.Carries format u :=
  ⟨.refl format u, fun _ _ _ _ _ => .refl u⟩

theorem trans (h : u.Carries format u') (h' : u'.Carries format u'') : u.Carries format u'' := by
  refine ⟨h.toStays.trans h'.toStays, fun abc new p program framed => ?_⟩
  have first := h.moves abc new p program framed
  exact first.trans (h'.moves abc (h.kept.trans new) p (first.program?.trans program) framed)

end BuildUnit.Carries

theorem Frontend.step_carries {f : Frontend} (plain : f.extensions = []) (phase : Phase) (u : BuildUnit)
    (cx : Context) : u.Carries f.format { (f.step phase u cx).1 with lastPhase := some phase } := by
  refine ⟨{ (f.step_stays plain phase u cx).1 with }, fun abc new p program framed => ?_⟩
  obtain ⟨form, extensions⟩ := f
  cases plain
  cases abc
  have moves := AbcFrontend.step_moves new program framed phase cx
  exact ⟨moves.tree, fun start => ⟨(moves.unframed start).typeInfo, (moves.unframed start).flow,
    (moves.unframed start).constants⟩⟩

/-- The first analysis frames a program. -/
theorem AbcFrontend.step_frames {u : BuildUnit} {p : Program} {cx : Context} (new : u.hasTypeInfo = false)
    (program : u.program? = some p) (ok : cx.hasErrors = false) :
    ∃ q, (step [] .analyze1 u cx).1.program? = some q ∧ q.state = .framed := by
  simp only [step, ok, new, Bool.false_and, Bool.false_eq_true, if_false, frame, program, Part.finish_nil]
  split
  next => exact ⟨_, rfl, rfl⟩
  next other =>
    refine ⟨p, program, ?_⟩
    cases state : p.state with
    | fresh => exact absurd state other
    | framed => rfl

namespace Scheduler

variable {s : Scheduler} {noted : Table QName String} {cx cx' : Context} {index : Nat} {f : Frontend}
  {u : BuildUnit}
  {order : List Nat}

theorem through_carries (plain : s.Plain) (order : List Nat) (phases : List Phase) (cx : Context) :
    s.Passes BuildUnit.Carries cx (s.through order phases cx) := by
  have closed (format : InputFormat) (u u' u'' : BuildUnit) (h : u.Carries format u')
      (h' : u'.Carries format u'') :=
    h.trans h'
  refine Passes.foldl BuildUnit.Carries.refl closed (fun phase _ cx => ?_) cx
  refine Passes.foldl BuildUnit.Carries.refl closed (fun index _ cx => ?_) cx
  exact passes_stepAt plain BuildUnit.Carries.refl (fun f u cx simple =>
    f.step_carries simple phase u cx) cx index

/-- What a phase that does not publish makes of the unit at a place. -/
theorem stepAll_own (plain : s.Plain) (distinct : order.Nodup) (listed : index ∈ order) {phase : Phase}
    (quiet : phase ≠ .analyze4) (found : s.frontendAt? cx index = some f) (here : cx.unit? index = some u) :
    ∃ cx', cx'.hasErrors = cx.hasErrors ∧ (s.stepAll order phase cx).unit? index
      = some { (f.step phase u cx').1 with lastPhase := some phase } := by
  obtain ⟨done, rest, -, -, -, -, -, -, before, after⟩ := stepAll_split plain distinct listed phase cx
  have found' := (frontendAt?_congr (stepAll_advances plain done phase cx).sources index).trans found
  refine ⟨(s.stepAll done phase cx).putUnit index none, (stepAll_looks plain quiet done cx).ok, ?_⟩
  rw [after, stepAt_own_unit? plain found' (before.trans here)]

/-- A new block has a framed program when it publishes, and keeps it to the end. -/
theorem Novel.framed (plain : s.Plain) (distinct : order.Nodup) (listed : index ∈ order)
    (novel : s.Novel noted cx index f u) (abc : f.format = .abc) (ok : cx.hasErrors = false) :
    ∃ x v p, (s.through order analyses cx).unit? index = some x ∧ x.program? = some p ∧ p.state = .framed ∧
      (s.through order Phase.later cx).unit? index = some v ∧ v.program? = some p := by
  have framing := stepAll_advances plain order .analyze1 (s.stepAll order .parse2 cx)
  obtain ⟨y, novel', -⟩ := novel.passes (stepAll_stays plain order .parse2 cx)
  have simple := frontendAt?_plain plain novel.found
  obtain ⟨form, extensions⟩ := f
  subst abc simple
  obtain ⟨q, program⟩ := y.exists_program novel'.format
  obtain ⟨cx', same, here⟩ :=
    stepAll_own plain distinct listed (show Phase.analyze1 ≠ .analyze4 by decide) novel'.found novel'.here
  have looks := stepAll_looks plain (show Phase.parse2 ≠ .analyze4 by decide) order cx
  obtain ⟨p, framed, state⟩ := AbcFrontend.step_frames novel'.new program (same.trans (looks.ok.trans ok))
  -- from here on every phase keeps the tree
  have found := (frontendAt?_congr framing.sources index).trans novel'.found
  obtain ⟨x, analyzed, carries⟩ :=
    (through_carries plain order [.analyze2, .analyze3] _).units index _ _ found here
  have unit := (Frontend.step_stays (f := ⟨.abc, []⟩) rfl .analyze1 y cx').1
  have moves := carries.moves rfl (unit.kept.trans novel'.new) p framed state
  have kept := moves.program?.trans framed
  have found' :=
    (frontendAt?_congr (through_advances plain order analyses cx).sources index).trans novel.found
  obtain ⟨v, ended, carries'⟩ :=
    (through_carries plain order [.analyze4, .generate, .postprocess] (s.through order analyses cx)).units
      index _ x found' analyzed
  have new : x.hasTypeInfo = false := carries.kept.trans (unit.kept.trans novel'.new)
  exact ⟨x, v, p, analyzed, kept, state, ended, (carries'.moves rfl new p kept state).program?.trans kept⟩

/-! ### A block without its type information -/

/-- A run over sources, with the unit at a place kept from an earlier run without its type information. -/
def rerun (s : Scheduler) (config : Config) (store : ClassStore) (sources : List Source) (index : Nat)
    (u : BuildUnit) :
    Outcome × Context :=
  s.run ((Context.opening config store sources).putUnit index (some u.removeTypeInfo))

variable {s : Scheduler} {noted : Table QName String} {cx start : Context} {index : Nat} {order : List Nat}
  {f : Frontend} {u w : BuildUnit} {p : Program}

/-- What a run without errors has made of the block at a place. -/
structure Makes (s : Scheduler) (order : List Nat) (start : Context) (index : Nat) (u : BuildUnit)
    (p : Program) (u₁ x v : BuildUnit) : Prop where
  listed : index ∈ order
  started : start.unit? index = some u₁
  stands : u.removeTypeInfo.StandsFor u₁
  framed : p.state = .framed
  analyzed : (s.through order analyses start).unit? index = some x
  program : x.program? = some p
  empty : x.classTable = .empty
  source : x.source = u.source
  ended : (s.through order Phase.later start).unit? index = some v
  classTable : v.classTable = u.classTable
  scratch : u.scratch = {}

theorem Succeeds.makes (plain : s.Plain) (h : s.Succeeds cx order start)
    (bare : ∀ slot ∈ cx.sources, slot.unit = none) (held : (s.run cx).2.unit? index = some u)
    (block : u.program? = some p) :
    ∃ u₁ x v, s.Makes order start index u p u₁ x v := by
  have listed : index ∈ order := by
    obtain ⟨slot, there, -⟩ := Option.bind_eq_some_iff.1 held
    obtain ⟨slot', place, -⟩ := Context.exists_slot (run_advances plain cx).sources there
    obtain ⟨-, -, -, -, -, listed, -⟩ := h.start_slot place
    exact listed
  obtain ⟨f, u₁, novel, empty⟩ := h.novel bare listed
  obtain ⟨v, ended, stays⟩ :=
    (through_stays plain order Phase.later start).units index f u₁ novel.found novel.here
  have done : u = v.markDone := by
    rw [h.ended, finishAll_unit?_eq, if_pos listed, ended] at held
    exact (Option.some.inj held).symm
  subst done
  have block : v.program? = some p := block
  have abc : f.format = .abc := by
    have format := stays.tree.trans novel.format
    rw [v.tree_of_program block] at format
    exact (Option.some.inj format).symm
  obtain ⟨x, v', q, analyzed, program, framed, ended', kept⟩ := novel.framed plain h.distinct listed abc h.ok
  cases Option.some.inj (ended.symm.trans ended')
  cases Option.some.inj (block.symm.trans kept)
  obtain ⟨x', analyzed', rests⟩ :=
    (through_rests plain quiet_analyses order start).units index f u₁ novel.found novel.here
  cases Option.some.inj (analyzed.symm.trans analyzed')
  refine ⟨u₁, x, v, listed, novel.here, ?_, framed, analyzed, program, ?_, ?_, ended, rfl, rfl⟩
  · exact ⟨stays.source, stays.topLevel, stays.dependencies, stays.styles, stays.tree⟩
  · rw [rests.classTable, empty]
  · exact rests.source.trans stays.source.symm

/-- A block whose program is framed and that has no frame goes through a run without one. -/
theorem Novel.unframed (plain : s.Plain) (novel : s.Novel noted start index f w)
    (program : w.program? = some p) (framed : p.state = .framed) (bare : w.Unframed) (order : List Nat)
    (phases : List Phase) :
    ∃ x, (s.through order phases start).unit? index = some x ∧ x.program? = some p ∧ x.Unframed := by
  have abc := novel.abc program
  obtain ⟨x, here, carries⟩ :=
    (through_carries plain order phases start).units index f w novel.found novel.here
  have moves := carries.moves abc novel.new p program framed
  exact ⟨x, here, moves.program?.trans program, moves.unframed bare⟩

section

variable {cx₁ : Context} (plain : s.Plain) (distinct : order.Nodup) (h : s.Paired noted order cx₁ start)
  (clear : (s.through order Phase.later cx₁).hasErrors = false) (listed : index ∈ order)
include plain distinct h clear listed

/-- Whatever frame a block has, its descriptors have the skeletons of those that it would make without
    one. -/
theorem Paired.lists_skeletons (here : (s.through order analyses start).unit? index = some w)
    (program : w.program? = some p) (empty : w.classTable = .empty) :
    ∃ v, (s.through order Phase.later start).unit? index = some v ∧
      p.Lists (fun placed d => d.skeleton =
        (p.describeUnframed noted.contains w.source.name placed.2
        (Program.members placed.1 placed.2)).skeleton)
        (s.through order Phase.later start).store v.classTable :=
  h.lists plain distinct clear listed here program empty
    (fun _ _ => Publication.gives_skeleton p noted.contains _ _ w.source.name)
    (fun _ _ same => congrArg ClassDescriptor.name same) fun _ none => (Option.not_mem_none _ none).elim

/-- A block that starts with a framed program and no frame ends without one, and describes its classes so. -/
theorem Paired.lists_unframed (here : start.unit? index = some w) (program : w.program? = some p)
    (framed : p.state = .framed) (bare : w.Unframed) (empty : w.classTable = .empty) :
    ∃ v, (s.through order Phase.later start).unit? index = some v ∧ v.Unframed ∧
      p.Lists (fun placed d => d =
        p.describeUnframed noted.contains w.source.name placed.2 (Program.members placed.1 placed.2))
        (s.through order Phase.later start).store v.classTable := by
  obtain ⟨f, -, w', -, novel, -, -⟩ := h.alike index listed
  cases Option.some.inj (here.symm.trans novel.here)
  obtain ⟨x, analyzed, kept, unframed⟩ := novel.unframed plain program framed bare order analyses
  obtain ⟨v, ended, -, unframedEnd⟩ := novel.unframed plain program framed bare order Phase.later
  obtain ⟨x', same, rests⟩ :=
    (through_rests plain quiet_analyses order start).units index f w novel.found here
  cases Option.some.inj (analyzed.symm.trans same)
  have source : x.source.name = w.source.name := congrArg Source.name rests.source
  have described (strict : Bool) (log : Log) :=
    Publication.gives_unframed p noted.contains strict w.source.name log
  obtain ⟨v', ended', lists⟩ :=
    h.lists plain distinct clear listed analyzed kept (rests.classTable.trans empty) (fun strict log => by
      rw [unframed.typeInfo, unframed.constants, source]
      exact described strict log)
    (fun _ _ same => congrArg ClassDescriptor.name same) fun _ here => Option.some.inj here
  cases Option.some.inj (ended.symm.trans ended')
  exact ⟨v, ended, unframedEnd, lists⟩

end

/-- A run that keeps a block without its type information completes if the run that made the block did.  The
    block has its classes under the same names, but every type in them is written as the sources define it
    and every value as it is in the block, and the block ends without type information.  Otherwise its
    descriptors are as they were. -/
theorem stripped_unit_stays_unframed (plain : s.Plain) (config : Config) (store store' : ClassStore)
    (sources : List Source) (completed : (s.run (.opening config store sources)).1.completed = true)
    (held : (s.run (.opening config store sources)).2.unit? index = some u) (block : u.program? = some p) :
    (s.rerun config store' sources index u).1.completed = true ∧
      ∃ v, (s.rerun config store' sources index u).2.unit? index = some v ∧ v.typeInfo = none ∧
        v.hasTypeInfo = false ∧ v.classTable.keys = u.classTable.keys ∧
        ∀ name id, v.classTable.get? name = some id →
          ∃ place c old new, p.lastNamed? name = some (place, c) ∧
          (u.classTable.get? name).bind (s.run (.opening config store sources)).2.store.descriptor?
            = some old ∧
          (s.rerun config store' sources index u).2.store.descriptor? id = some new ∧
          new = p.describeUnframed (s.run (.opening config store sources)).2.registry.definitions.contains
            u.source.name c (Program.members place c) ∧
          new.skeleton = old.skeleton := by
  have ok : (s.run (.opening config store sources)).2.hasErrors = false := by
    rw [run_completed] at completed
    exact Bool.not_eq_true' _ ▸ completed
  have restarts := restarts_opening config store store' sources index (w := u.removeTypeInfo) rfl
    (by rw [BuildUnit.removeTypeInfo, u.tree_of_program block]; rfl)
  obtain ⟨order, start₁, first⟩ := exists_succeeds plain restarts.opened ok
  obtain ⟨u₁, x₁, v₁, made⟩ := first.makes plain restarts.bare held block
  obtain ⟨start₂, phase, prepared, paired, own⟩ := restarts.paired plain first made.started made.stands
  have ends := paired.ends plain first.clear
  obtain ⟨run₂, -⟩ := run_clear plain prepared (ends.ok first.clear)
  have frames (cx : Context) : (finishAll order cx).store = cx.store ∧ (finishAll order cx).registry
      = cx.registry := by
    obtain ⟨_, heq⟩ := finishAll_frame order cx
    rw [heq]
    exact ⟨rfl, rfl⟩
  have definitions : (s.run (.opening config store sources)).2.registry.definitions
      = start₁.registry.definitions := by
    rw [first.ended, (frames _).2, ends.definitions]
  -- both runs list the classes of the program, the second without a frame
  obtain ⟨_, ended₁, lists₁⟩ :=
    paired.left.lists_skeletons plain first.distinct first.clear made.listed made.analyzed
      made.program made.empty
  cases Option.some.inj (made.ended.symm.trans ended₁)
  have bare : BuildUnit.Unframed { u.removeTypeInfo with lastPhase := phase } :=
    ⟨rfl, congrArg Scratch.flow made.scratch, congrArg Scratch.constants made.scratch⟩
  obtain ⟨v₂, ended₂, bareEnd, lists₂⟩ :=
    paired.lists_unframed plain first.distinct first.clear made.listed own block made.framed bare rfl
  rw [made.source, made.classTable] at lists₁
  rw [rerun, run₂, definitions, first.ended, (frames _).1, (frames _).1]
  refine ⟨rfl, v₂.markDone, ?_, bareEnd.typeInfo, ?_, ?_, fun name id listed => ?_⟩
  · rw [finishAll_unit?_eq, if_pos made.listed, ended₂, Option.map_some]
  · rw [BuildUnit.markDone, bareEnd.typeInfo]
    rfl
  · rw [lists₁.keys]
    exact lists₂.keys
  · obtain ⟨⟨place, c⟩, d, last, rfl, publishes⟩ := lists₂.shows name id listed
    have key : name ∈ u.classTable.keys := by
      rw [lists₁.keys, ← lists₂.keys]
      exact (Table.isSome_get? ..).1 (Option.isSome_of_eq_some listed)
    obtain ⟨oldId, listed'⟩ := Option.isSome_iff_exists.1 ((Table.isSome_get? ..).2 key)
    obtain ⟨placed, old, last', skeleton, publishes'⟩ := lists₁.shows name oldId listed'
    cases Option.some.inj (last'.symm.trans last)
    refine ⟨place, c, old, _, last, ?_, publishes.descriptor, rfl, skeleton.symm⟩
    rw [listed', Option.bind_some]
    exact publishes'.descriptor

/-- A class, and one that inherits from it and has a constant whose value is taken over into its type. -/
def gauges : List Source :=
  [⟨"a.abc", "", Mime.abc, .ok (Abc.File.ofClasses [Abc.ClassSpec.named "A"]).encode⟩,
    ⟨"b.abc", "", Mime.abc, .ok (Abc.File.ofClasses
      [((Abc.ClassSpec.named "B").extending "A").constant "x" "Number" (.int 1) true]).encode⟩]

theorem stripped_unit_stays_unframed_gauges :
    (standard.run (.opening {} {} gauges)).1.completed = true ∧ ∃ u p,
      (standard.run (.opening {} {} gauges)).2.unit? 1 = some u ∧ u.program? = some p ∧
      (standard.rerun {} {} gauges 1 u).1.completed = true ∧ ∃ v id,
        (standard.rerun {} {} gauges 1 u).2.unit? 1 = some v ∧ v.typeInfo = none ∧ v.hasTypeInfo = false ∧
        v.classTable.keys = u.classTable.keys ∧ v.classTable.get? "B" = some id ∧
        ∃ place c old new, p.lastNamed? "B" = some (place, c) ∧
          (u.classTable.get? "B").bind (standard.run (.opening {} {} gauges)).2.store.descriptor?
            = some old ∧
          (standard.rerun {} {} gauges 1 u).2.store.descriptor? id = some new ∧
          new = p.describeUnframed (standard.run (.opening {} {} gauges)).2.registry.definitions.contains
            u.source.name c (Program.members place c) ∧ new.skeleton = old.skeleton := by
  have completed : (standard.run (.opening {} {} gauges)).1.completed = true := by decide +kernel
  have computed : ((standard.run (.opening {} {} gauges)).2.unit? 1).any (fun u =>
    u.program?.isSome && decide ("B" ∈ u.classTable.keys)) = true := by decide +kernel
  obtain ⟨u, held, facts⟩ := (Option.any_eq_true _ _).1 computed
  rw [Bool.and_eq_true, decide_eq_true_eq] at facts
  obtain ⟨p, block⟩ := Option.isSome_iff_exists.1 facts.1
  obtain ⟨again, v, there, typeInfo, lost, keys, classes⟩ :=
    stripped_unit_stays_unframed plain_standard {} {} {} gauges completed held block
  have key : "B" ∈ v.classTable.keys := keys ▸ facts.2
  obtain ⟨id, listed⟩ := Option.isSome_iff_exists.1 ((Table.isSome_get? ..).2 key)
  exact ⟨completed, u, p, held, block, again, v, id, there, typeInfo, lost, keys, listed,
    classes "B" id listed⟩

/-- A class with a constant whose value is taken over into its type. -/
def gauge : List Source :=
  [⟨"a.abc", "", Mime.abc, .ok (Abc.File.ofClasses
    [(Abc.ClassSpec.named "A").constant "x" "Number" (.int 1) true]).encode⟩]

/-- The second run leaves the class with another value, and its unit without the type information that it
    had. -/
theorem stripped_unit_differs :
    (standard.run (.opening {} {} gauge)).1.completed = true ∧ ∃ u v,
      (standard.run (.opening {} {} gauge)).2.unit? 0 = some u ∧ u.program?.isSome = true ∧
        u.hasTypeInfo = true ∧
      (standard.rerun {} {} gauge 0 u).2.unit? 0 = some v ∧ v.hasTypeInfo = false ∧
      ((u.classTable.get? "A").bind (standard.run (.opening {} {} gauge)).2.store.descriptor?).map
        (fun d => d.vars.map Variable.value) = some [some (.number ⟨0x3ff0000000000000⟩)] ∧
      ((v.classTable.get? "A").bind (standard.rerun {} {} gauge 0 u).2.store.descriptor?).map
        (fun d => d.vars.map Variable.value) = some [some (.int 1)] := by
  have completed : (standard.run (.opening {} {} gauge)).1.completed = true := by decide +kernel
  have computed : ((standard.run (.opening {} {} gauge)).2.unit? 0).any (fun u =>
    ((standard.rerun {} {} gauge 0 u).2.unit? 0).any fun v =>
      u.program?.isSome && u.hasTypeInfo && !v.hasTypeInfo &&
        decide (((u.classTable.get? "A").bind (standard.run (.opening {} {} gauge)).2.store.descriptor?).map
          (fun d => d.vars.map Variable.value) = some [some (.number ⟨0x3ff0000000000000⟩)]) &&
        decide (((v.classTable.get? "A").bind (standard.rerun {} {} gauge 0 u).2.store.descriptor?).map
          (fun d => d.vars.map Variable.value) = some [some (.int 1)])) = true := by decide +kernel
  obtain ⟨u, held, again⟩ := (Option.any_eq_true _ _).1 computed
  obtain ⟨v, there, facts⟩ := (Option.any_eq_true _ _).1 again
  simp only [Bool.and_eq_true, Bool.not_eq_true', decide_eq_true_eq] at facts
  obtain ⟨⟨⟨⟨block, had⟩, lost⟩, before⟩, after⟩ := facts
  exact ⟨completed, u, v, held, block, had, there, lost, before, after⟩

end Scheduler

end AbcBuild
