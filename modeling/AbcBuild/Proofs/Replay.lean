/-
Module: AbcBuild.Proofs.Replay
Purpose: A run over units that are taken over from a run without errors.  It publishes the same classes,
  styles and bundles, and it reports the same clashes and nothing else.
Main exports: Context.Looks, Scheduler.Passes, Scheduler.Resumes, Scheduler.run_resumed
-/
import AbcBuild.Proofs.Preparation
import AbcBuild.Proofs.Success

namespace AbcBuild

variable {index : Nat}

namespace Context

variable {cx cx' cx'' : Context}

/-- Part of a run in which nothing is published.  Units change, and answers that the registry keeps. -/
def Looks (cx cx' : Context) : Prop :=
  ∃ r sources, cx' = { cx with registry := r, sources := sources } ∧ cx.registry.Resolves r

theorem Looks.refl (cx : Context) : cx.Looks cx := ⟨cx.registry, cx.sources, rfl, .refl _⟩

section

variable (h : cx.Looks cx')
include h

theorem Looks.trans (h' : cx'.Looks cx'') : cx.Looks cx'' := by
  obtain ⟨_, _, rfl, resolves⟩ := h
  obtain ⟨r, sources, rfl, resolves'⟩ := h'
  exact ⟨r, sources, rfl, resolves.trans resolves'⟩

theorem Looks.remarks : cx.Remarks { cx' with sources := cx.sources } := by
  obtain ⟨r, _, rfl, resolves⟩ := h
  exact Asks.remarks ⟨r, rfl, resolves⟩

theorem Looks.shared : cx'.shared = cx.shared := h.remarks.shared

theorem Looks.stored (stored : cx.Stored) : cx'.Stored := { h.remarks.stored stored with }

theorem Looks.idles : cx.Idles cx' := { h.remarks.toIdles with }

theorem Looks.log : cx'.log = cx.log := by
  obtain ⟨_, _, rfl, -⟩ := h
  rfl

theorem Looks.ok : cx'.hasErrors = cx.hasErrors := congrArg Log.hasErrors h.log

end

end Context

/-! ### Units on their way through a run -/

namespace Scheduler

variable {s : Scheduler} {cx cx' cx'' : Context} {R : InputFormat → BuildUnit → BuildUnit → Prop}
  {f : Frontend}

theorem frontendAt?_congr (h : cx'.sources.map SourceSlot.source = cx.sources.map SourceSlot.source)
    (index : Nat) :
    s.frontendAt? cx' index = s.frontendAt? cx index := by
  have same :=
    congrArg (fun sources : List Source => sources[index]?.bind fun source => s.frontend? source.mime) h
  simp only [List.getElem?_map, Option.bind_map] at same
  exact same

/-- Part of a run leads every unit to one that is related to it. -/
structure Passes (s : Scheduler) (R : InputFormat → BuildUnit → BuildUnit → Prop) (cx cx' : Context) : Prop
    extends cx.Advances cx' where
  units : ∀ index f u, s.frontendAt? cx index = some f → cx.unit? index = some u →
    ∃ u', cx'.unit? index = some u' ∧ R f.format u u'

theorem Passes.refl (h : ∀ format u, R format u u) (cx : Context) : s.Passes R cx cx :=
  ⟨.refl cx, fun _ _ u _ here => ⟨u, here, h _ u⟩⟩

theorem Passes.trans (closed : ∀ format u u' u'', R format u u' → R format u' u'' → R format u u'')
    (h : s.Passes R cx cx') (h' : s.Passes R cx' cx'') : s.Passes R cx cx'' := by
  refine ⟨h.toAdvances.trans h'.toAdvances, fun index f u found here => ?_⟩
  obtain ⟨u', here', first⟩ := h.units index f u found here
  obtain ⟨u'', here'', second⟩ := h'.units index f u' ((frontendAt?_congr h.sources index).trans found) here'
  exact ⟨u'', here'', closed _ _ _ _ first second⟩

theorem Passes.foldl {α : Type} {step : Context → α → Context} (reflexive : ∀ format u, R format u u)
    (closed : ∀ format u u' u'', R format u u' → R format u' u'' → R format u u'') {items : List α}
    (h : ∀ a ∈ items, ∀ cx : Context, s.Passes R cx (step cx a)) (cx : Context) :
    s.Passes R cx (items.foldl step cx) := by
  induction items generalizing cx with
  | nil => exact .refl reflexive cx
  | cons a rest ih =>
    exact (h a (.head _) cx).trans closed (ih (fun b later => h b (.tail _ later)) _)

section

variable (plain : s.Plain)
include plain

/-- What the front ends do to a unit in a phase, a step does to all units. -/
theorem passes_stepAt (reflexive : ∀ format u, R format u u) {phase : Phase}
    (step : ∀ (f : Frontend) u cx, f.extensions = [] →
      R f.format u { (f.step phase u cx).1 with lastPhase := some phase })
    (cx : Context) (index : Nat) : s.Passes R cx (s.stepAt phase cx index) := by
  refine ⟨stepAt_advances plain phase cx index, fun j f u found here => ?_⟩
  by_cases own : j = index
  · subst own
    exact ⟨_, stepAt_own_unit? plain found here phase, step f u _ (frontendAt?_plain plain found)⟩
  · exact ⟨u, (stepAt_unit?_of_ne plain own phase cx).trans here, reflexive _ u⟩

/-- Every unit keeps what other units may rely on. -/
theorem stepAt_stays (phase : Phase) (cx : Context) (index : Nat) :
    s.Passes BuildUnit.Stays cx (s.stepAt phase cx index) :=
  passes_stepAt plain BuildUnit.Stays.refl (fun f u cx simple => { (f.step_stays simple phase u cx).1 with })
    cx index

theorem stepAll_stays (order : List Nat) (phase : Phase) (cx : Context) :
    s.Passes BuildUnit.Stays cx (s.stepAll order phase cx) :=
  Passes.foldl BuildUnit.Stays.refl (fun _ _ _ _ => BuildUnit.Stays.trans)
    (fun index _ cx => stepAt_stays plain phase cx index) cx

theorem through_stays (order : List Nat) (phases : List Phase) (cx : Context) :
    s.Passes BuildUnit.Stays cx (s.through order phases cx) :=
  Passes.foldl BuildUnit.Stays.refl (fun _ _ _ _ => BuildUnit.Stays.trans)
    (fun phase _ cx => stepAll_stays plain order phase cx) cx

/-- Phases that do not publish leave the tables of the units alone. -/
theorem through_rests {phases : List Phase} (quiet : ∀ phase ∈ phases, phase ≠ .analyze4)
    (order : List Nat) (cx : Context) : s.Passes BuildUnit.Rests cx (s.through order phases cx) := by
  refine Passes.foldl BuildUnit.Rests.refl (fun _ _ _ _ => BuildUnit.Rests.trans)
    (fun phase member cx => ?_) cx
  refine Passes.foldl BuildUnit.Rests.refl (fun _ _ _ _ => BuildUnit.Rests.trans) (fun index _ cx => ?_) cx
  exact passes_stepAt plain BuildUnit.Rests.refl
    (fun f u cx simple => { (f.step_rests simple (quiet phase member) u cx).1 with }) cx index

theorem stepAt_looks {phase : Phase} (quiet : phase ≠ .analyze4) (cx : Context) (index : Nat) :
    cx.Looks (s.stepAt phase cx index) := by
  rcases s.stepAt_cases phase cx index with ⟨idle, -⟩ | ⟨f, u, found, here⟩
  · rw [idle]
    exact .refl cx
  · obtain ⟨r, asked, resolves⟩ :=
      (f.step_asks (frontendAt?_plain plain found) quiet u (cx.putUnit index none)).2
    rw [stepAt_own found here, asked]
    exact ⟨r, _, rfl, resolves⟩

theorem stepAll_looks {phase : Phase} (quiet : phase ≠ .analyze4) (order : List Nat) (cx : Context) :
    cx.Looks (s.stepAll order phase cx) :=
  List.foldlRecOn (motive := cx.Looks) order _ (.refl cx) fun cx' before index _ =>
    before.trans (stepAt_looks plain quiet cx' index)

theorem through_looks {phases : List Phase} (quiet : ∀ phase ∈ phases, phase ≠ .analyze4)
    (order : List Nat) (cx : Context) : cx.Looks (s.through order phases cx) :=
  List.foldlRecOn (motive := cx.Looks) phases _ (.refl cx) fun cx' before phase member =>
    before.trans (stepAll_looks plain (quiet phase member) order cx')

end

/-! ### The phase that publishes -/

variable {index : Nat} {f : Frontend} {u : BuildUnit} {items : List Nat}

theorem stepAt_exported (plain : s.Plain) (found : s.frontendAt? cx index = some f)
    (here : cx.unit? index = some u) (proper : u.Proper f.format cx.store) (stored : cx.Stored)
    (ok : cx.hasErrors = false) :
    ∃ u', (s.stepAt .analyze4 cx index).unit? index = some u' ∧
      cx.Exported f.format u' (s.stepAt .analyze4 cx index) ∧
      (u.hasTypeInfo = true → u'.exports = u.exports ∧ ((s.stepAt .analyze4 cx index).hasErrors = false →
        cx.log.GrowsBy Diagnostic.IsClash (s.stepAt .analyze4 cx index).log)) := by
  obtain ⟨exported, again⟩ :=
    Frontend.step_exported (frontendAt?_plain plain found) (cx.putUnit index none) proper { stored with } ok
  refine ⟨_, stepAt_own_unit? plain found here _, ?_, fun kept => ?_⟩
  · rw [stepAt_own found here]
    exact ⟨exported.tidy, { exported.stored with }, exported.shared⟩
  · rw [stepAt_own found here]
    exact ⟨(again kept).exports, fun clear => ((again kept).evolves clear).log⟩

/-- The unit at a place is ready to publish. -/
def Publishable (s : Scheduler) (cx : Context) (index : Nat) : Prop :=
  ∃ f u, s.frontendAt? cx index = some f ∧ cx.unit? index = some u ∧ u.Proper f.format cx.store

theorem Publishable.of_ne (plain : s.Plain) {j : Nat} (other : j ≠ index) (h : s.Publishable cx j)
    (phase : Phase) :
    s.Publishable (s.stepAt phase cx index) j := by
  obtain ⟨f, u, found, here, proper⟩ := h
  have advances := stepAt_advances plain phase cx index
  refine ⟨f, u, (frontendAt?_congr advances.sources j).trans found,
    (stepAt_unit?_of_ne plain other phase cx).trans here, ⟨proper.toTidy.mono advances.store, proper.fresh⟩⟩

/-- The first of several units publishes its table and is then left alone, and the others are still ready. -/
theorem foldl_stepAt_first (plain : s.Plain) (distinct : (index :: items).Nodup) (stored : cx.Stored)
    (ok : (items.foldl (s.stepAt .analyze4) (s.stepAt .analyze4 cx index)).hasErrors = false)
    (ready : ∀ i ∈ index :: items, s.Publishable cx i) :
    ∃ f u, s.frontendAt? cx index = some f ∧
      (items.foldl (s.stepAt .analyze4) (s.stepAt .analyze4 cx index)).unit? index = some u ∧
      cx.Exported f.format u (s.stepAt .analyze4 cx index) ∧
      (s.stepAt .analyze4 cx index).Advances
        (items.foldl (s.stepAt .analyze4) (s.stepAt .analyze4 cx index)) ∧
      ∀ j ∈ items, s.Publishable (s.stepAt .analyze4 cx index) j := by
  have new := (List.nodup_cons.1 distinct).1
  obtain ⟨f, u, found, here, proper⟩ := ready index (.head _)
  have first := stepAt_advances plain .analyze4 cx index
  have later := Context.Advances.foldl (stepAt_advances plain .analyze4) items (s.stepAt .analyze4 cx index)
  obtain ⟨u', here', exported, -⟩ :=
    stepAt_exported plain found here proper stored ((first.trans later).ok ok)
  refine ⟨f, u', found, (foldl_stepAt_of_not_mem plain .analyze4 new _).trans here', exported, later,
    fun j member => ?_⟩
  exact (ready j (.tail _ member)).of_ne plain (ne_of_mem_of_not_mem member new) .analyze4

/-- After the phase that publishes, the tables of the units are in order. -/
theorem foldl_stepAt_tidy (plain : s.Plain) (distinct : items.Nodup) (stored : cx.Stored)
    (ok : (items.foldl (s.stepAt .analyze4) cx).hasErrors = false) (ready : ∀ i ∈ items,
      s.Publishable cx i) :
    (items.foldl (s.stepAt .analyze4) cx).Stored ∧
      ∀ i ∈ items, ∃ u, (items.foldl (s.stepAt .analyze4) cx).unit? i = some u ∧
        u.Tidy (items.foldl (s.stepAt .analyze4) cx).store := by
  induction items generalizing cx with
  | nil => exact ⟨stored, fun _ none => (List.not_mem_nil none).elim⟩
  | cons index rest ih =>
    obtain ⟨_, u, -, here, exported, later, ready'⟩ := foldl_stepAt_first plain distinct stored ok ready
    obtain ⟨stored', tidy⟩ := ih distinct.of_cons exported.stored ok ready'
    refine ⟨stored', fun j member => ?_⟩
    rcases List.mem_cons.1 member with rfl | member
    · exact ⟨u, here, exported.tidy.mono later.store⟩
    · exact tidy j member

/-- The unit at a place is taken over from another run, where it published the same. -/
def Repeatable (s : Scheduler) (first cx : Context) (index : Nat) : Prop :=
  ∃ f u u', s.frontendAt? cx index = some f ∧ cx.unit? index = some u ∧ u.hasTypeInfo = true ∧
    u.Tidy cx.store ∧ first.unit? index = some u' ∧ u'.exports = u.exports

theorem Repeatable.of_ne (plain : s.Plain) {first : Context} {j : Nat} (other : j ≠ index)
    (h : s.Repeatable first cx j) (phase : Phase) : s.Repeatable first (s.stepAt phase cx index) j := by
  obtain ⟨f, u, u', found, here, kept, tidy, rest⟩ := h
  have advances := stepAt_advances plain phase cx index
  exact ⟨f, u, u', (frontendAt?_congr advances.sources j).trans found,
    (stepAt_unit?_of_ne plain other phase cx).trans here, kept, tidy.mono advances.store, rest⟩

/-- Units that are taken over publish the same shared again, one by one. -/
theorem foldl_stepAt_repeats (plain : s.Plain) {cx₁ cx₂ : Context} (distinct : items.Nodup)
    (tables : cx₂.shared = cx₁.shared) (stored₁ : cx₁.Stored) (stored₂ : cx₂.Stored)
    (ok : (items.foldl (s.stepAt .analyze4) cx₁).hasErrors = false)
    (within : (items.foldl (s.stepAt .analyze4) cx₁).store.Extends cx₂.store)
    (sources : cx₂.sources.map SourceSlot.source = cx₁.sources.map SourceSlot.source)
    (ready : ∀ i ∈ items, s.Publishable cx₁ i)
    (taken : ∀ i ∈ items, s.Repeatable (items.foldl (s.stepAt .analyze4) cx₁) cx₂ i) :
    (items.foldl (s.stepAt .analyze4) cx₂).shared = (items.foldl (s.stepAt .analyze4) cx₁).shared ∧
      cx₂.log.GrowsBy Diagnostic.IsClash (items.foldl (s.stepAt .analyze4) cx₂).log := by
  induction items generalizing cx₁ cx₂ with
  | nil => exact ⟨tables, .refl _ _⟩
  | cons index rest ih =>
    obtain ⟨new, distinct'⟩ := List.nodup_cons.1 distinct
    obtain ⟨f, u₁, found, here₁, exported₁, later, ready'⟩ :=
      foldl_stepAt_first plain distinct stored₁ ok ready
    have first := stepAt_advances plain .analyze4 cx₁ index
    have again := stepAt_advances plain .analyze4 cx₂ index
    obtain ⟨f', v, u', found', here', kept, tidy, published, exports⟩ := taken index (.head _)
    cases Option.some.inj (found'.symm.trans ((frontendAt?_congr sources index).trans found))
    have clear : cx₁.hasErrors = false := (first.trans later).ok ok
    obtain ⟨u₂, here₂, exported₂, repeats⟩ := stepAt_exported plain found' here'
      ⟨tidy, fun fresh => by rw [kept] at fresh; cases fresh⟩ stored₂
        ((congrArg SharedTables.failed tables).trans clear)
    -- the first run left this unit alone for the rest of the phase, so what it exports is what is published
    -- here
    have same : u₁ = u' := Option.some.inj (here₁.symm.trans published)
    -- the second store holds all classes of the first run, so both tell the same origins
    have tables' : (s.stepAt .analyze4 cx₂ index).shared = (s.stepAt .analyze4 cx₁ index).shared := by
      rw [exported₂.shared _ (.refl _), exported₁.shared _ ((later.store.trans within).trans again.store),
        tables, (repeats kept).1, ← exports, same]
    have clear₂ := (congrArg SharedTables.failed tables').trans (later.ok ok)
    obtain ⟨ends, grows⟩ :=
      ih distinct' tables' exported₁.stored exported₂.stored ok (within.trans again.store)
      (again.sources.trans (sources.trans first.sources.symm)) ready'
      fun j member => (taken j (.tail _ member)).of_ne plain (ne_of_mem_of_not_mem member new) .analyze4
    exact ⟨ends, ((repeats kept).2 clear₂).trans grows⟩

/-! ### All phases -/

theorem Publishable.rests (h : s.Publishable cx index) (passes : s.Passes BuildUnit.Rests cx cx') :
    s.Publishable cx' index := by
  obtain ⟨f, u, found, here, proper⟩ := h
  obtain ⟨u', here', rests⟩ := passes.units index f u found here
  exact ⟨f, u', (frontendAt?_congr passes.sources index).trans found, here',
    rests.proper proper passes.store⟩

theorem Repeatable.rests {first : Context} (h : s.Repeatable first cx index)
    (passes : s.Passes BuildUnit.Rests cx cx') :
    s.Repeatable first cx' index := by
  obtain ⟨f, u, v, found, here, kept, tidy, published, exports⟩ := h
  obtain ⟨u', here', rests⟩ := passes.units index f u found here
  exact ⟨f, u', v, (frontendAt?_congr passes.sources index).trans found, here', rests.kept.trans kept,
    rests.tidy tidy passes.store, published, exports.trans rests.exports.symm⟩

/-- What a unit has published is settled before the last phases. -/
theorem Repeatable.earlier {first first' : Context} (h : s.Repeatable first' cx index)
    (passes : s.Passes BuildUnit.Rests first first') (found : s.frontendAt? first index = some f)
    (there : first.unit? index = some u) : s.Repeatable first cx index := by
  obtain ⟨f', v, u', found', here, kept, tidy, published, exports⟩ := h
  obtain ⟨u'', there', rests⟩ := passes.units index f u found there
  cases Option.some.inj (published.symm.trans there')
  exact ⟨f', v, u, found', here, kept, tidy, there, rests.exports.symm.trans exports⟩

/-- A run without errors leaves the registry and the tables of its units in order. -/
theorem through_tidy (plain : s.Plain) {order : List Nat} (distinct : order.Nodup) (stored : cx.Stored)
    (ok : (s.through order Phase.later cx).hasErrors = false) (ready : ∀ i ∈ order, s.Publishable cx i) :
    (s.through order Phase.later cx).Stored ∧
    ∀ i ∈ order, ∃ u, (s.through order Phase.later cx).unit? i = some u ∧
      u.Tidy (s.through order Phase.later cx).store := by
  rw [through_later] at ok ⊢
  have passes := through_rests plain quiet_analyses order cx
  have ending :=
    through_rests plain quiet_closings order (s.stepAll order .analyze4 (s.through order analyses cx))
  obtain ⟨published, tidy⟩ := foldl_stepAt_tidy plain distinct
    ((through_looks plain quiet_analyses order cx).stored stored) (ending.ok ok) fun i member =>
      (ready i member).rests passes
  refine ⟨(through_looks plain quiet_closings order _).stored published, fun i member => ?_⟩
  obtain ⟨u, here, tidy⟩ := tidy i member
  obtain ⟨f, -, found, -⟩ := ready i member
  have advances :=
    passes.toAdvances.trans (stepAll_advances plain order .analyze4 (s.through order analyses cx))
  obtain ⟨u', here', rests⟩ := ending.units i f u ((frontendAt?_congr advances.sources i).trans found) here
  exact ⟨u', here', rests.tidy tidy ending.store⟩

/-- A run over units that are taken over from a run without errors publishes the same shared, and reports
    only clashes. -/
theorem through_repeats (plain : s.Plain) {cx₁ cx₂ : Context} {order : List Nat} (distinct : order.Nodup)
    (tables : cx₂.shared = cx₁.shared) (stored₁ : cx₁.Stored) (stored₂ : cx₂.Stored)
    (ok : (s.through order Phase.later cx₁).hasErrors = false)
    (within : (s.through order Phase.later cx₁).store.Extends cx₂.store)
    (sources : cx₂.sources.map SourceSlot.source = cx₁.sources.map SourceSlot.source)
    (ready : ∀ i ∈ order, s.Publishable cx₁ i)
    (taken : ∀ i ∈ order, s.Repeatable (s.through order Phase.later cx₁) cx₂ i) :
    (s.through order Phase.later cx₂).shared = (s.through order Phase.later cx₁).shared ∧
      cx₂.log.GrowsBy Diagnostic.IsClash (s.through order Phase.later cx₂).log := by
  simp only [through_later] at ok within taken ⊢
  have passes₁ := through_rests plain quiet_analyses order cx₁
  have passes₂ := through_rests plain quiet_analyses order cx₂
  have looks₁ := through_looks plain quiet_analyses order cx₁
  have looks₂ := through_looks plain quiet_analyses order cx₂
  have ending :=
    through_rests plain quiet_closings order (s.stepAll order .analyze4 (s.through order analyses cx₁))
  have publishing := stepAll_advances plain order .analyze4 (s.through order analyses cx₁)
  have ready' (i : Nat) (member : i ∈ order) := (ready i member).rests passes₁
  obtain ⟨-, published⟩ := foldl_stepAt_tidy plain distinct (looks₁.stored stored₁) (ending.ok ok) ready'
  obtain ⟨same, grows⟩ := foldl_stepAt_repeats plain distinct
    (looks₂.shared.trans (tables.trans looks₁.shared.symm)) (looks₁.stored stored₁) (looks₂.stored stored₂)
    (ending.ok ok) ((ending.store.trans within).trans passes₂.store)
    (passes₂.sources.trans (sources.trans passes₁.sources.symm)) ready' fun i member => by
      obtain ⟨u, there, -⟩ := published i member
      obtain ⟨f, -, found, -⟩ := ready' i member
      exact ((taken i member).rests passes₂).earlier ending
        ((frontendAt?_congr publishing.sources i).trans found) there
  -- before and after that phase nothing is published or said
  constructor
  · rw [(through_looks plain quiet_closings order _).shared,
      (through_looks plain quiet_closings order _).shared]
    exact same
  · rw [(through_looks plain quiet_closings order _).log, ← looks₂.log]
    exact grows

/-! ### Whole runs -/

/-- What a run without errors has made of the slot of a source. -/
structure Ends (s : Scheduler) (cx : Context) (slot : SourceSlot) (u : BuildUnit) : Prop where
  source : u.source = slot.source
  done : u.done = true
  tidy : u.Tidy (s.run cx).2.store
  filled : ∀ f, s.frontend? slot.source.mime = some f → f.format = .abc → u.bytes ≠ []
  readable : slot.unit = none → ∃ content, slot.source.content = .ok content

/-- The course of a run without errors. -/
structure Succeeds (s : Scheduler) (cx : Context) (order : List Nat) (start : Context) : Prop
    extends s.Ready cx order start, s.Prepares cx start where
  prepared : s.prepared? cx = some (order, start)
  clear : (s.through order Phase.later start).hasErrors = false
  ended : (s.run cx).2 = finishAll order (s.through order Phase.later start)
  finished : ∀ j ∈ order, ∃ u, (s.run cx).2.unit? j = some u ∧ u.done = true

variable {order : List Nat} {start : Context} {slot : SourceSlot}

theorem succeeds_of_clear (plain : s.Plain) (opened : ∀ slot ∈ cx.sources, slot.Opened cx.store)
    (prepared : s.prepared? cx = some (order, start))
    (clear : (s.through order Phase.later start).hasErrors = false) :
    s.Succeeds cx order start := by
  have completes := completes_of_clear plain prepared clear
  refine ⟨ready_of_prepared plain prepared, prepares_of_prepared plain opened prepared, prepared, clear,
    by rw [completes.run], fun j listed => ?_⟩
  obtain ⟨u, here, -, done⟩ := completes.ended j listed
  exact ⟨u, here, done⟩

theorem exists_succeeds (plain : s.Plain) (opened : ∀ slot ∈ cx.sources, slot.Opened cx.store)
    (ok : (s.run cx).2.hasErrors = false) : ∃ order start, s.Succeeds cx order start := by
  rcases s.run_cases cx with ⟨order, start, prepared, -⟩ | ⟨phase, cx', halted, -, failed, -⟩
  · exact ⟨order, start, succeeds_of_clear plain opened prepared (clear_of_ok plain prepared ok)⟩
  · rw [halted] at ok
    cases failed.symm.trans ok

/-- The unit that a run goes on with at the place of a source. -/
theorem Prepares.start_slot (h : s.Prepares cx start) (ready : s.Ready cx order start)
    (held : cx.sources[index]? = some slot) :
    ∃ f u, s.frontendAt? start index = some f ∧ s.frontend? slot.source.mime = some f ∧
      start.unit? index = some u ∧ index ∈ order ∧ f.Readies cx.store slot u := by
  obtain ⟨f, u, found, readies, place⟩ := h.slots index slot held
  have here : start.unit? index = some u := Context.unit?_eq place
  exact ⟨f, u, by rw [frontendAt?, place]; exact found, found, here,
    (ready.units index).2 (by rw [here]; rfl), readies⟩

/-- Every unit of the order is one of a source. -/
theorem Prepares.exists_slot (h : s.Prepares cx start) (ready : s.Ready cx order start)
    (listed : index ∈ order) :
    ∃ slot, cx.sources[index]? = some slot := by
  obtain ⟨u, here⟩ := Option.isSome_iff_exists.1 ((ready.units index).1 listed)
  obtain ⟨slot, place, -⟩ := Option.bind_eq_some_iff.1 here
  obtain ⟨slot₀, held, -⟩ := Context.exists_slot h.sources place
  exact ⟨slot₀, held⟩

namespace Succeeds

variable (h : s.Succeeds cx order start)
include h

/-- After its phases a run changes nothing but units. -/
theorem frame :
    ∃ sources, (s.run cx).2 = { s.through order Phase.later start with sources := sources } := by
  rw [h.ended]
  exact finishAll_frame order _

theorem start_slot (held : cx.sources[index]? = some slot) :
    ∃ f u, s.frontendAt? start index = some f ∧ s.frontend? slot.source.mime = some f ∧
      start.unit? index = some u ∧ index ∈ order ∧ f.Readies cx.store slot u :=
        h.toPrepares.start_slot h.toReady held

/-- What a run without errors keeps of a unit from its first phase to its end. -/
theorem kept (plain : s.Plain) (found : s.frontendAt? start index = some f)
    (here : start.unit? index = some u) (listed : index ∈ order) :
    ∃ w v, (s.through order Phase.later start).unit? index = some w ∧ (s.run cx).2.unit? index = some v ∧
      u.Stays f.format w ∧ v.done = true ∧ v.exports = w.exports ∧ v.dependencies = w.dependencies ∧
        v.bytes = w.bytes := by
  obtain ⟨w, there, stays⟩ := (through_stays plain order Phase.later start).units index f u found here
  have last : (s.run cx).2.unit? index = some w.markDone := by
    rw [h.ended, finishAll_unit?_eq, if_pos listed, there, Option.map_some]
  exact ⟨w, w.markDone, there, last, stays, rfl, rfl, rfl, rfl⟩

theorem publishable (listed : index ∈ order) : s.Publishable start index := by
  obtain ⟨slot, held⟩ := h.toPrepares.exists_slot h.toReady listed
  obtain ⟨f, u, found, -, here, -, readies⟩ := h.start_slot held
  exact ⟨f, u, found, here, h.store ▸ readies.proper⟩

/-- The registered classes are there in the end, and the tables of the units are in order. -/
theorem tidy (plain : s.Plain) (stored : cx.Stored) :
    (s.run cx).2.Stored ∧ ∀ i ∈ order, ∃ u, (s.through order Phase.later start).unit? i = some u ∧
      u.Tidy (s.run cx).2.store := by
  obtain ⟨sources, frame⟩ := h.frame
  obtain ⟨registered, tidy⟩ := through_tidy plain h.distinct (h.toPrepares.stored stored) h.clear
    fun _ listed => h.publishable listed
  rw [frame]
  exact ⟨{ registered with }, tidy⟩

/-- Every slot has a unit in the end. -/
theorem ends (plain : s.Plain) (stored : cx.Stored) (held : cx.sources[index]? = some slot) :
    ∃ u, (s.run cx).2.sources[index]? = some ⟨slot.source, some u⟩ ∧ s.Ends cx slot u := by
  obtain ⟨f, u, found, found', here, listed, readies⟩ := h.start_slot held
  obtain ⟨w, v, there, last, stays, done, exports, -, bytes⟩ := h.kept plain found here listed
  obtain ⟨w', there', tidy⟩ := (h.tidy plain stored).2 index listed
  cases Option.some.inj (there.symm.trans there')
  have source : v.source = w.source := congrArg Exports.source exports
  refine ⟨v, (run_advances plain cx).slotAt held last,
    source.trans (stays.source.trans readies.source), done, tidy.of_exports exports, fun f' other abc => ?_,
    readies.readable⟩
  cases Option.some.inj (found'.symm.trans other)
  rw [bytes, stays.bytes (Or.inl abc)]
  exact readies.filled abc

/-- The outlines of the units are those of the first phase. -/
theorem outline (plain : s.Plain) : (s.run cx).2.outline = start.outline := by
  refine List.ext_getElem? fun index => ?_
  rw [Context.outline, Context.outline, List.getElem?_map, List.getElem?_map]
  have sources := (run_advances plain cx).sources.trans h.sources.symm
  cases place : start.sources[index]? with
  | none => rw [Context.no_slot sources place]
  | some slot' =>
    obtain ⟨slot, held, -⟩ := Context.exists_slot h.sources place
    obtain ⟨f, u, found, -, here, listed, -⟩ := h.start_slot held
    obtain ⟨w, v, -, last, stays, -, exports, dependencies, -⟩ := h.kept plain found here listed
    have source : v.source = w.source := congrArg Exports.source exports
    have topLevel : v.topLevel = w.topLevel := congrArg Exports.topLevel exports
    obtain ⟨-, u', -, -, place'⟩ := h.slots index slot held
    rw [Context.unit?, place'] at here
    cases here
    cases Option.some.inj (place.symm.trans place')
    rw [(run_advances plain cx).slotAt held last]
    simp [SourceSlot.outline, source, topLevel, dependencies, stays.source, stays.topLevel,
      stays.dependencies]

/-- A unit that is taken over with its bytes keeps them. -/
theorem bytes (plain : s.Plain) (held : cx.sources[index]? = some slot)
    (unit : slot.unit = some u) (kept : u.hasTypeInfo = true)
    (filled : ∀ f, s.frontend? slot.source.mime = some f → f.format = .abc → u.bytes ≠ []) :
    ∃ v, (s.run cx).2.sources[index]? = some ⟨slot.source, some v⟩ ∧ v.bytes = u.bytes := by
  obtain ⟨f, u₀, found, found', here, listed, readies⟩ := h.start_slot held
  obtain ⟨w, v, -, last, stays, -, -, -, bytes⟩ := h.kept plain found here listed
  obtain ⟨own, rfl, same⟩ := readies.known u unit
  refine ⟨v, (run_advances plain cx).slotAt held last, ?_⟩
  rw [bytes, stays.bytes (Or.inr kept)]
  refine same ?_
  cases format : f.format with
  | abc => exact Or.inr (filled f found' format)
  | properties => exact Or.inl rfl

end Succeeds

end Scheduler

/-! ### A run over the units of another -/

/-- What a later run takes over of a slot. -/
def SourceSlot.summary (slot : SourceSlot) : Source × Option (Exports × Dependencies × List UInt8) :=
  (slot.source, slot.unit.map fun u => (u.exports, u.dependencies, u.bytes))

theorem Context.outline_of_summary {cx cx' : Context}
    (h : cx'.sources.map SourceSlot.summary = cx.sources.map SourceSlot.summary) :
    cx'.outline = cx.outline := by
  have told (cx : Context) : cx.outline = (cx.sources.map SourceSlot.summary).map fun slot =>
      (slot.1, slot.2.map fun unit => (unit.1.source.name, unit.1.topLevel, unit.2.1)) := by
    rw [List.map_map]
    refine List.map_congr_left fun slot _ => ?_
    cases unit : slot.unit <;> simp [SourceSlot.outline, SourceSlot.summary, unit, BuildUnit.exports]
  rw [told, told, h]

namespace Scheduler

variable {s : Scheduler} {cx₁ cx₂ : Context}

/-- A run starts from what a run without errors has left: its units are taken over, and nothing else is there
    yet. -/
structure Resumes (s : Scheduler) (cx₁ cx₂ : Context) : Prop where
  shared : cx₂.shared = cx₁.shared
  multinames : cx₂.registry.multinames = cx₁.registry.multinames
  stored₁ : cx₁.Stored
  stored₂ : cx₂.Stored
  opened₁ : ∀ slot ∈ cx₁.sources, slot.Opened cx₁.store
  opened₂ : ∀ slot ∈ cx₂.sources, slot.Opened cx₂.store
  store : (s.run cx₁).2.store.Extends cx₂.store
  summary : cx₂.sources.map SourceSlot.summary = (s.run cx₁).2.sources.map SourceSlot.summary

namespace Resumes

variable {order : List Nat} {start₁ start₂ : Context} {index : Nat} {slot : SourceSlot}
variable (h : s.Resumes cx₁ cx₂)
include h

theorem sources :
    cx₂.sources.map SourceSlot.source = (s.run cx₁).2.sources.map SourceSlot.source :=
  Context.sources_of_outline (Context.outline_of_summary h.summary)

/-- The slots of the second run are those that the first run has left. -/
theorem slot₂ (plain : s.Plain) (first : s.Succeeds cx₁ order start₁)
    (held : cx₂.sources[index]? = some slot) :
    ∃ slot₁ u v, cx₁.sources[index]? = some slot₁ ∧ slot = ⟨slot₁.source, some v⟩ ∧
      (s.run cx₁).2.sources[index]? = some ⟨slot₁.source, some u⟩ ∧ s.Ends cx₁ slot₁ u ∧
      v.exports = u.exports ∧ v.bytes = u.bytes := by
  have same := congrArg (fun summaries : List _ => summaries[index]?) h.summary
  simp only [List.getElem?_map, held, Option.map_some] at same
  obtain ⟨slot', held', summary⟩ := Option.map_eq_some_iff.1 same.symm
  obtain ⟨slot₁, held₁, -⟩ := Context.exists_slot (run_advances plain cx₁).sources held'
  obtain ⟨u, ended, ends⟩ := first.ends plain h.stored₁ held₁
  cases Option.some.inj (held'.symm.trans ended)
  obtain ⟨source, unit⟩ := Prod.mk.inj summary
  obtain ⟨v, there, told⟩ := Option.map_eq_some_iff.1 unit.symm
  obtain ⟨exports, -, bytes⟩ : v.exports = u.exports ∧ v.dependencies = u.dependencies ∧
    v.bytes = u.bytes := by
    simpa using told
  refine ⟨slot₁, u, v, held₁, ?_, ended, ends, exports, bytes⟩
  obtain ⟨source₂, unit₂⟩ := slot
  cases source
  cases there
  rfl

/-- The second run gets to the same order. -/
theorem exists_prepared (plain : s.Plain) (ok : cx₁.hasErrors = false)
    (first : s.Succeeds cx₁ order start₁) :
    ∃ start₂, s.prepared? cx₂ = some (order, start₂) ∧ start₂.shared = start₁.shared := by
  have outlines := (Context.outline_of_summary h.summary).trans (first.outline plain)
  have known : ∀ slot ∈ cx₂.sources, s.Known slot := by
    intro slot member
    obtain ⟨index, held⟩ := List.mem_iff_getElem?.1 member
    obtain ⟨slot₁, u, v, -, rfl, -, ends, -, bytes⟩ := h.slot₂ plain first held
    exact ⟨v, rfl, (h.opened₂ _ member v rfl).2.1, fun f found abc => bytes ▸ ends.filled f found abc⟩
  obtain ⟨start₂, prepared, definitions⟩ := prepared_again plain h.opened₁ first.prepared
    (congrArg SharedTables.definitions h.shared) h.multinames
      ((congrArg SharedTables.failed h.shared).trans ok) outlines known
  refine ⟨start₂, prepared, ?_⟩
  rw [(prepares_of_prepared plain h.opened₂ prepared).shared, first.shared, definitions, h.shared]

/-- The units of the second run publish what those of the first run have published. -/
theorem repeatable (plain : s.Plain) (first : s.Succeeds cx₁ order start₁)
    (ready : s.Ready cx₂ order start₂) (prepares : s.Prepares cx₂ start₂) (listed : index ∈ order) :
    s.Repeatable (s.through order Phase.later start₁) start₂ index := by
  obtain ⟨_, here⟩ := Option.isSome_iff_exists.1 ((ready.units index).1 listed)
  obtain ⟨_, place, -⟩ := Option.bind_eq_some_iff.1 here
  obtain ⟨slot, held, -⟩ := Context.exists_slot prepares.sources place
  obtain ⟨slot₁, u, v, held₁, rfl, ended, -, exports, -⟩ := h.slot₂ plain first held
  obtain ⟨f₁, u₁, found₁, -, here₁, -, -⟩ := first.start_slot held₁
  obtain ⟨w, v', there, last, -, -, exports', -, -⟩ := first.kept plain found₁ here₁ listed
  rw [Context.unit?, ended] at last
  cases last
  obtain ⟨f, u₂, found, readies, place⟩ := prepares.slots index _ held
  obtain ⟨bytes, rfl, -⟩ := readies.known v rfl
  obtain ⟨-, kept, tidy⟩ := h.opened₂ _ (List.mem_of_getElem? held) v rfl
  refine ⟨f, { v with bytes := bytes, lastPhase := some .parse1 }, w, ?_, ?_, kept, ?_, there,
    exports'.symm.trans exports.symm⟩
  · rw [frontendAt?, place]
    exact found
  · rw [Context.unit?_eq place]
  · rw [prepares.store]
    exact tidy

/-- The units of both runs have the same bytes in the end. -/
theorem bytes (plain : s.Plain) (first : s.Succeeds cx₁ order start₁)
    (second : s.Succeeds cx₂ order start₂) :
    (s.run cx₂).2.sources.map (fun slot => (slot.source, slot.unit.map BuildUnit.bytes))
      = (s.run cx₁).2.sources.map fun slot => (slot.source, slot.unit.map BuildUnit.bytes) := by
  refine List.ext_getElem? fun index => ?_
  rw [List.getElem?_map, List.getElem?_map]
  cases held : cx₂.sources[index]? with
  | none => rw [Context.no_slot (run_advances plain cx₂).sources held, Context.no_slot h.sources.symm held]
  | some slot =>
    obtain ⟨slot₁, u, v, -, rfl, ended, ends, -, bytes⟩ := h.slot₂ plain first held
    obtain ⟨-, kept, -⟩ := h.opened₂ _ (List.mem_of_getElem? held) v rfl
    obtain ⟨w, ended', bytes'⟩ :=
      second.bytes plain held rfl kept fun f found abc => bytes ▸ ends.filled f found abc
    rw [ended, ended']
    simp [bytes, bytes']

end Resumes

/-- A run over the units that a run without errors has left succeeds.  It publishes the same shared, it
    reports nothing but clashes, and its units have the same bytecode. -/
theorem run_resumed (h : s.Resumes cx₁ cx₂) (plain : s.Plain) (ok : (s.run cx₁).2.hasErrors = false) :
    (s.run cx₂).2.hasErrors = false ∧ (s.run cx₂).2.shared = (s.run cx₁).2.shared ∧
      cx₂.log.GrowsBy Diagnostic.IsClash (s.run cx₂).2.log ∧
      (s.run cx₂).2.sources.map (fun slot => (slot.source, slot.unit.map BuildUnit.bytes))
        = (s.run cx₁).2.sources.map fun slot => (slot.source, slot.unit.map BuildUnit.bytes) := by
  obtain ⟨order, start₁, first⟩ := exists_succeeds plain h.opened₁ ok
  obtain ⟨start₂, prepared, tables⟩ := h.exists_prepared plain ((run_advances plain cx₁).ok ok) first
  have prepares := prepares_of_prepared plain h.opened₂ prepared
  obtain ⟨sources₁, frame₁⟩ := first.frame
  have store : (s.run cx₁).2.store = (s.through order Phase.later start₁).store := by rw [frame₁]
  obtain ⟨same, grows⟩ := through_repeats plain first.distinct tables (first.toPrepares.stored h.stored₁)
    (prepares.stored h.stored₂) first.clear (by rw [prepares.store, ← store]; exact h.store)
    (prepares.sources.trans (h.sources.trans ((run_advances plain cx₁).sources.trans first.sources.symm)))
    (fun _ listed => first.publishable listed)
    fun _ listed => h.repeatable plain first (ready_of_prepared plain prepared) prepares listed
  have clear : (s.through order Phase.later start₂).hasErrors = false :=
    (congrArg SharedTables.failed same).trans first.clear
  have second := succeeds_of_clear plain h.opened₂ prepared clear
  obtain ⟨sources₂, frame₂⟩ := second.frame
  refine ⟨?_, ?_, ?_, h.bytes plain first second⟩
  · rw [frame₂]
    exact clear
  · rw [frame₁, frame₂]
    exact same
  · rw [frame₂]
    exact prepares.log ▸ grows

end Scheduler

end AbcBuild
