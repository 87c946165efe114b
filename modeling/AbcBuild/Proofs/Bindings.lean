/-
Module: AbcBuild.Proofs.Bindings
Purpose: Which classes a run binds to its type table.  Only the phase that publishes binds classes: those
  that a unit brings from an earlier run, and those that it adds.  A unit whose bundle is refused binds none.
Main exports: Context.Binds, Context.BindsOwn, Scheduler.Succeeds.binds, Scheduler.FailsFirst.binds
-/
import AbcBuild.Proofs.Reuse

namespace AbcBuild

variable {entries : List (String × ClassId)} {u : BuildUnit}

theorem ClassStore.exists_descriptor_of_bound {s : ClassStore} {id : ClassId} {table : TypeTable}
    (bound : s.bound? id = some table) : ∃ d, s.descriptor? id = some d := by
  obtain ⟨record, held, -⟩ := Option.bind_eq_some_iff.1 bound
  exact ⟨record.descriptor, by rw [descriptor?, held]; rfl⟩

theorem Table.mem_of_mem_values_insertAll {id : ClassId}
    (member : id ∈ (insertAll .empty entries).values) : id ∈ entries.map Prod.snd := by
  obtain ⟨entry, listed, rfl⟩ := List.mem_map.1 member
  have distinct := nodup_keys_insertAll (t := (.empty : Table String ClassId)) List.nodup_nil entries
  exact List.mem_map_of_mem (mem_of_get?_insertAll ((get?_eq_some_iff distinct).2 listed))

/-! ### Binding classes -/

namespace Context

variable {cx cx' cx'' : Context} {ids ids' : List ClassId}

/-- A step binds classes to the type table of the generation, and no others of those that are there. -/
structure Binds (cx : Context) (ids : List ClassId) (cx' : Context) : Prop where
  generation : cx'.registry.generation = cx.registry.generation
  current : cx.registry.Current → cx'.registry.Current
  bound : ∀ id ∈ ids, cx'.store.bound? id = some ⟨cx.registry.generation⟩
  kept : ∀ id d, cx.store.descriptor? id = some d → id ∉ ids → cx'.store.bound? id = cx.store.bound? id

theorem Idles.binds (h : cx.Idles cx') : cx.Binds [] cx' :=
  ⟨h.generation, h.current, fun _ none => (List.not_mem_nil none).elim, fun id _ _ _ => h.bound id⟩

theorem Binds.trans (h : cx.Binds ids cx') (more : cx.store.Extends cx'.store) (h' : cx'.Binds ids' cx'') :
    cx.Binds (ids ++ ids') cx'' := by
  refine ⟨h'.generation.trans h.generation, fun start => h'.current (h.current start), fun id member => ?_,
    fun id d there absent => ?_⟩
  · by_cases later : id ∈ ids'
    · rw [h'.bound id later, h.generation]
    · have first := h.bound id ((List.mem_append.1 member).resolve_right later)
      obtain ⟨d, there⟩ := ClassStore.exists_descriptor_of_bound first
      exact (h'.kept id d there later).trans first
  · rw [List.mem_append, not_or] at absent
    exact (h'.kept id d (more.descriptors id d there) absent.2).trans (h.kept id d there absent.1)

theorem Binds.after (h : cx.Idles cx') (more : cx.store.Extends cx'.store) (h' : cx'.Binds ids cx'') :
    cx.Binds ids cx'' := h.binds.trans more h'

theorem Binds.then (h : cx.Binds ids cx') (more : cx.store.Extends cx'.store) (h' : cx'.Idles cx'') :
    cx.Binds ids cx'' := List.append_nil ids ▸ h.trans more h'.binds

theorem idles_report (cx : Context) (severity : Severity) (source : Option String) (message : Message) :
    cx.Idles (cx.report severity source message) := { Idles.refl cx with }

/-- The class of a name in the table of the unit at a place. -/
def listed? (cx : Context) (name : String) (index : Nat) : Option ClassId :=
  (cx.unit? index).bind fun u => u.classTable.get? name

end Context

/-! ### Publishing -/

theorem Context.Publishes.binds {cx cx' : Context} {source : String} {table : TypeTable}
    (h : cx.Publishes source table entries cx')
    (own : table = ⟨cx.registry.generation⟩) : cx.Binds (entries.map Prod.snd) cx' where
  generation := by rw [h.registry]
  current := fun start => by rw [h.registry]; exact start
  bound := fun id member => by rw [h.bound, if_pos member, own]
  kept := fun id _ _ absent => by rw [h.bound, if_neg absent]

/-- A unit publishes.  Of the classes that are there it binds its own, and in the end all classes of its
    table are bound. -/
structure Context.BindsOwn (cx : Context) (u : BuildUnit) (ids : List ClassId) (u' : BuildUnit)
    (cx' : Context) : Prop
    extends cx.Binds ids cx' where
  own : ∀ id d, cx.store.descriptor? id = some d → (id ∈ ids ↔ id ∈ u.classTable.values)
  before : ∀ id ∈ u.classTable.values, id ∈ u'.classTable.values
  after : ∀ id ∈ u'.classTable.values, id ∈ ids

/-- What comes before and after may bind nothing. -/
theorem Context.BindsOwn.between {cx cx₀ cx₁ cx₂ : Context} {u' u'' : BuildUnit} {ids : List ClassId}
    (before : cx.Idles cx₀) (more : cx.store.Extends cx₀.store) (h : cx₀.BindsOwn u ids u' cx₁)
    (more' : cx₀.store.Extends cx₁.store) (after : cx₁.Idles cx₂)
    (classes : u''.classTable = u'.classTable) :
    cx.BindsOwn u ids u'' cx₂ where
  toBinds := Binds.after before more (h.toBinds.then more' after)
  own := fun id d there => h.own id d (more.descriptors id d there)
  before := classes ▸ h.before
  after := classes ▸ h.after

section

variable {u : BuildUnit} {cx cx' : Context} {source : String} {table : TypeTable}

/-- A unit that is taken over publishes its table. -/
theorem Context.Publishes.bindsOwn (h : cx.Publishes source table u.classTable.entries cx')
    (own : table = ⟨cx.registry.generation⟩) : cx.BindsOwn u u.classTable.values u cx' :=
  ⟨h.binds own, fun _ _ _ => Iff.rfl, fun _ => id, fun _ => id⟩

/-- A unit without classes publishes new ones. -/
theorem Context.PublishesNew.bindsOwn {descriptors : List ClassDescriptor}
    (h : cx.PublishesNew source table descriptors entries cx') (empty : u.classTable = .empty)
    (own : table = ⟨cx.registry.generation⟩) :
    cx.BindsOwn u (entries.map Prod.snd) { u with classTable := u.classTable.insertAll entries } cx' := by
  have none : u.classTable.values = [] := by rw [empty]; rfl
  refine ⟨h.binds own, fun id d there => ?_, fun id member => ?_, fun id member => ?_⟩
  · rw [none]
    refine ⟨fun member => ?_, fun member => (List.not_mem_nil member).elim⟩
    cases there.symm.trans (h.new id member)
  · rw [none] at member
    exact (List.not_mem_nil member).elim
  · rw [empty] at member
    exact Table.mem_of_mem_values_insertAll member

end

/-- The type table is the one of the generation. -/
theorem Registry.Current.typeTable {cx cx' : Context} (start : cx.registry.Current)
    (same : cx'.registry.generation = cx.registry.generation) : cx.typeTable.1 = ⟨cx'.registry.generation⟩ :=
  start.fst_currentTable.trans (congrArg TypeTable.mk same.symm)

theorem AbcFrontend.publish_binds {cx : Context} (proper : u.Proper .abc cx.store)
    (start : cx.registry.Current) (ok : cx.hasErrors = false) :
    ∃ ids, cx.BindsOwn u ids (publish [] u cx).1 (publish [] u cx).2 := by
  have table := cx.remarks_typeTable
  cases kept : u.hasTypeInfo with
  | true =>
    obtain ⟨cx₁, published, publishes⟩ :=
      publishTable_publishes cx.typeTable.1 proper.distinct (proper.toTidy.mono table.store).names
    obtain ⟨loader, store, heq, searched⟩ := publish_kept kept published
    rw [heq]
    exact ⟨_, (publishes.bindsOwn (start.typeTable table.generation)).between table.toIdles table.store
      publishes.store ((publishStyles_clashes u cx₁).2.1.trans searched.toIdles) rfl⟩
  | false =>
    obtain ⟨empty, format⟩ := proper.fresh kept
    obtain ⟨program, held⟩ := u.exists_program format
    obtain ⟨entries, cx₁, loader, store, publishes, searched, heq⟩ :=
      publishProgram_eq cx.typeTable.1 (table.log.hasErrors_eq.trans ok)
    have before := table.trans (describing_remarks u cx.typeTable.2 program)
    have after := searched.trans (reports_remarks _ program u.source.name u.scratch.unresolved)
    rw [publish_new kept held, heq]
    exact ⟨_, (publishes.bindsOwn empty (start.typeTable before.generation)).between before.toIdles
      before.store publishes.store ((publishStyles_clashes u cx₁).2.1.trans after.toIdles) rfl⟩

/-- A unit binds its class unless its bundle is refused. -/
theorem BundleFrontend.publish_binds {cx : Context} (proper : u.Proper .properties cx.store)
    (start : cx.registry.Current) (ok : cx.hasErrors = false) :
    ((publish [] u cx).2.hasErrors = false ∧
      ∃ ids, cx.BindsOwn u ids (publish [] u cx).1 (publish [] u cx).2) ∨
      (publish [] u cx).2.hasErrors = true ∧ cx.Idles (publish [] u cx).2 := by
  have noted := (registered_idles u cx).1
  cases answer : (registered u cx).2 with
  | some e =>
    rw [publish_refused answer]
    exact Or.inr ⟨Context.hasErrors_error _ _ _, noted.trans (Context.idles_report _ _ _ _)⟩
  | none =>
    left
    have table : Context.Remarks { cx with registry := (registered u cx).1 } (opened u cx).2 :=
      Context.remarks_typeTable _
    have clear : (opened u cx).2.hasErrors = false := table.log.hasErrors_eq.trans ok
    have before := noted.trans table.toIdles
    have own : (opened u cx).1 = ⟨(opened u cx).2.registry.generation⟩ :=
      (noted.current start).typeTable table.generation
    cases kept : u.hasTypeInfo with
    | true =>
      obtain ⟨cx₁, published, publishes⟩ :=
        publishTable_publishes (opened u cx).1 proper.distinct (proper.toTidy.mono table.store).names
      rw [publish_kept answer kept, published]
      exact ⟨publishes.hasErrors.trans clear, _,
        (publishes.bindsOwn own).between before table.store publishes.store (.refl _) rfl⟩
    | false =>
      obtain ⟨empty, format⟩ := proper.fresh kept
      obtain ⟨file, held⟩ := u.exists_properties format
      obtain ⟨entries, cx₁, publishes, heq⟩ := publish_new answer kept held
      rw [heq]
      exact ⟨publishes.hasErrors.trans clear, _,
        (publishes.bindsOwn empty own).between before table.store publishes.store (.refl _) rfl⟩

/-- In the phase that publishes, a unit binds its classes, or it is a bundle that is refused. -/
theorem Frontend.step_binds {f : Frontend} (plain : f.extensions = []) (cx : Context)
    (proper : u.Proper f.format cx.store) (start : cx.registry.Current) (ok : cx.hasErrors = false) :
    ((f.format = .abc ∨ (f.step .analyze4 u cx).2.hasErrors = false) ∧
        ∃ ids, cx.BindsOwn u ids (f.step .analyze4 u cx).1 (f.step .analyze4 u cx).2) ∨
      f.format ≠ .abc ∧ (f.step .analyze4 u cx).2.hasErrors = true ∧ cx.Idles (f.step .analyze4 u cx).2 := by
  rw [f.step_publishes u ok, plain]
  cases format : f.format with
  | abc => exact Or.inl ⟨Or.inl rfl, AbcFrontend.publish_binds (format ▸ proper) start ok⟩
  | properties =>
    rcases BundleFrontend.publish_binds (format ▸ proper) start ok with ⟨clear, binds⟩ | ⟨failed, idles⟩
    · exact Or.inl ⟨Or.inr clear, binds⟩
    · exact Or.inr ⟨InputFormat.noConfusion, failed, idles⟩

/-! ### Runs -/

namespace Scheduler

variable {s : Scheduler} {cx cx' start : Context} {order items : List Nat} {index : Nat} {f : Frontend}
  {u : BuildUnit}

theorem stepAt_binds (plain : s.Plain) (found : s.frontendAt? cx index = some f)
    (here : cx.unit? index = some u) (proper : u.Proper f.format cx.store) (current : cx.registry.Current)
    (ok : cx.hasErrors = false) :
    ((f.format = .abc ∨ (s.stepAt .analyze4 cx index).hasErrors = false) ∧
        ∃ ids u', (s.stepAt .analyze4 cx index).unit? index = some u' ∧
          cx.BindsOwn u ids u' (s.stepAt .analyze4 cx index)) ∨
      f.format ≠ .abc ∧ (s.stepAt .analyze4 cx index).hasErrors = true ∧
        cx.Idles (s.stepAt .analyze4 cx index) := by
  have there := stepAt_own_unit? plain found here .analyze4
  have heq := stepAt_own found here .analyze4
  rcases Frontend.step_binds (frontendAt?_plain plain found) (cx.putUnit index none) proper current ok with
    ⟨clear, ids, binds⟩ | ⟨other, failed, idles⟩
  · refine Or.inl ⟨?_, ids, _, there, ?_⟩
    · rw [heq]
      exact clear
    · rw [heq]
      exact { binds with }
  · rw [heq]
    exact Or.inr ⟨other, failed, { idles with }⟩

/-- Units publish one after the other.  Of the classes that are there they bind those of their tables, and in
    the end all classes of their tables are bound. -/
structure BindsAll (cx : Context) (items : List Nat) (ids : List ClassId) (cx' : Context) : Prop
    extends cx.Binds ids cx' where
  own : ∀ id d, cx.store.descriptor? id = some d →
    (id ∈ ids ↔ ∃ i ∈ items, ∃ u, cx.unit? i = some u ∧ id ∈ u.classTable.values)
  units : ∀ i ∈ items, ∀ u u', cx.unit? i = some u → cx'.unit? i = some u' →
    (∀ id ∈ u.classTable.values, id ∈ u'.classTable.values) ∧ ∀ id ∈ u'.classTable.values, id ∈ ids

theorem foldl_stepAt_binds (plain : s.Plain) (distinct : items.Nodup) (stored : cx.Stored)
    (current : cx.registry.Current) (ok : (items.foldl (s.stepAt .analyze4) cx).hasErrors = false)
    (ready : ∀ i ∈ items, s.Publishable cx i) :
    ∃ ids, BindsAll cx items ids (items.foldl (s.stepAt .analyze4) cx) := by
  induction items generalizing cx with
  | nil =>
    refine ⟨[], (Context.Idles.refl cx).binds, fun id d _ => ?_, fun i none => (List.not_mem_nil none).elim⟩
    simp
  | cons index rest ih =>
    obtain ⟨new, distinct'⟩ := List.nodup_cons.1 distinct
    obtain ⟨f, u, found, here, proper⟩ := ready index (.head _)
    obtain ⟨_, _, -, -, exported, later, ready'⟩ := foldl_stepAt_first plain distinct stored ok ready
    have first := stepAt_advances plain .analyze4 cx index
    have clear := (first.trans later).ok ok
    have same {j : Nat} (member : j ∈ rest) :=
      stepAt_unit?_of_ne plain (ne_of_mem_of_not_mem member new) .analyze4 cx
    rcases stepAt_binds plain found here proper current clear with ⟨-, ids, u', here', own⟩ | ⟨-, failed, -⟩
    · obtain ⟨ids', rest'⟩ := ih distinct' exported.stored (own.current current) ok ready'
      -- the units of the rest are as they were, so what these bind is told by the tables at the start
      refine ⟨ids ++ ids', own.toBinds.trans first.store rest'.toBinds, fun id d there => ?_,
        fun i member v v' before after => ?_⟩
      · rw [List.mem_append, own.own id d there, rest'.own id d (first.store.descriptors id d there)]
        constructor
        · rintro (mine | ⟨i, member, v, unit, listed⟩)
          · exact ⟨index, .head _, u, here, mine⟩
          · exact ⟨i, .tail _ member, v, (same member).symm.trans unit, listed⟩
        · rintro ⟨i, member, v, unit, listed⟩
          rcases List.mem_cons.1 member with rfl | member
          · cases here.symm.trans unit
            exact Or.inl listed
          · exact Or.inr ⟨i, member, v, (same member).trans unit, listed⟩
      · rcases List.mem_cons.1 member with rfl | member
        · cases here.symm.trans before
          cases here'.symm.trans ((foldl_stepAt_of_not_mem plain .analyze4 new _).symm.trans after)
          exact ⟨own.before, fun id listed => List.mem_append_left _ (own.after id listed)⟩
        · obtain ⟨kept, bound⟩ := rest'.units i member v v' ((same member).trans before) after
          exact ⟨kept, fun id listed => List.mem_append_right _ (bound id listed)⟩
    · cases failed.symm.trans (later.ok ok)

/-- After the phase that publishes, the class of a name is that of the last unit that has one. -/
theorem get?_classes_foldl_stepAt (plain : s.Plain) (distinct : items.Nodup) (stored : cx.Stored)
    (ok : (items.foldl (s.stepAt .analyze4) cx).hasErrors = false) (ready : ∀ i ∈ items, s.Publishable cx i)
    (name : String) :
    (items.foldl (s.stepAt .analyze4) cx).registry.classes.get? name
      = (items.reverse.findSome? ((items.foldl (s.stepAt .analyze4) cx).listed? name)).or
        (cx.registry.classes.get? name) := by
  induction items generalizing cx with
  | nil => rfl
  | cons index rest ih =>
    obtain ⟨_, u, -, here, exported, later, ready'⟩ := foldl_stepAt_first plain distinct stored ok ready
    have listed : (rest.foldl (s.stepAt .analyze4) (s.stepAt .analyze4 cx index)).listed? name index
        = u.classTable.get? name := by
      rw [Context.listed?, here, Option.bind_some]
    rw [List.foldl_cons, ih distinct.of_cons exported.stored ok ready', exported.classes (later.ok ok),
      Table.insertAll_entries_get? exported.tidy.distinct, List.reverse_cons, List.findSome?_append,
      List.findSome?_singleton, listed, Option.or_assoc]

namespace Succeeds

variable (h : s.Succeeds cx order start)
include h

/-- A unit keeps the table that it has published to the end. -/
theorem published (plain : s.Plain) (listed : index ∈ order) :
    ∃ u₀ u v, (s.through order analyses start).unit? index = some u₀ ∧
      (s.stepAll order .analyze4 (s.through order analyses start)).unit? index = some u ∧
      (s.run cx).2.unit? index = some v ∧ v.classTable = u.classTable := by
  obtain ⟨f, u, found, here, -⟩ := h.publishable listed
  have opens := through_stays plain order analyses start
  have publishes := stepAll_stays plain order .analyze4 (s.through order analyses start)
  obtain ⟨u₀, here₀, -⟩ := opens.units index f u found here
  have found₀ := (frontendAt?_congr opens.sources index).trans found
  obtain ⟨u₁, here₁, -⟩ := publishes.units index f u₀ found₀ here₀
  obtain ⟨w, there, rests⟩ := (through_rests plain quiet_closings order _).units index f u₁
    ((frontendAt?_congr publishes.sources index).trans found₀) here₁
  obtain ⟨w', v, there', last, -, -, exports, -⟩ := h.kept plain found here listed
  rw [through_later, there] at there'
  cases there'
  exact ⟨u₀, u₁, v, here₀, here₁, last, (congrArg Exports.classes exports).trans rests.classTable⟩

theorem listed_of_unit? (plain : s.Plain) {v : BuildUnit}
    (last : (s.run cx).2.unit? index = some v) : index ∈ order := by
  obtain ⟨slot, place, -⟩ := Option.bind_eq_some_iff.1 last
  obtain ⟨slot₀, held, -⟩ := Context.exists_slot (run_advances plain cx).sources place
  obtain ⟨-, -, -, -, -, listed, -⟩ := h.start_slot held
  exact listed

/-- In the end the class of a name is that of the last unit in the order that has one. -/
theorem get?_classes (plain : s.Plain) (stored : cx.Stored) (name : String) :
    (s.run cx).2.registry.classes.get? name
      = (order.reverse.findSome? ((s.run cx).2.listed? name)).or (cx.registry.classes.get? name) := by
  obtain ⟨sources, frame⟩ := h.frame
  have clear := h.clear
  rw [through_later] at clear frame
  have opens := through_looks plain quiet_analyses order start
  have published := get?_classes_foldl_stepAt plain h.distinct (opens.stored (h.toPrepares.stored stored))
    ((through_advances plain order closings _).ok clear)
    (fun i listed => (h.publishable listed).rests (through_rests plain quiet_analyses order start)) name
  have ended : (s.run cx).2.registry.classes
      = (s.stepAll order .analyze4 (s.through order analyses start)).registry.classes := by
    rw [frame]
    exact congrArg SharedTables.classes (through_looks plain quiet_closings order _).shared
  have begun : (s.through order analyses start).registry.classes = cx.registry.classes :=
    (congrArg SharedTables.classes opens.shared).trans (congrArg SharedTables.classes h.shared)
  have same : ∀ i ∈ order.reverse, (s.run cx).2.listed? name i
      = (s.stepAll order .analyze4 (s.through order analyses start)).listed? name i := by
    intro i member
    obtain ⟨-, u, v, -, here, last, kept⟩ := h.published plain (List.mem_reverse.1 member)
    rw [Context.listed?, Context.listed?, here, last, Option.bind_some, Option.bind_some, kept]
  rw [ended, ← begun, ← List.head?_filterMap, List.filterMap_congr same, List.head?_filterMap]
  exact published

/-- A run without errors binds the classes that its units have in the end, and no others that were there. -/
theorem binds (plain : s.Plain) (stored : cx.Stored) (current : cx.registry.Current) :
    ∃ ids, cx.Binds ids (s.run cx).2 ∧
      (∀ id ∈ ids, ∀ d, cx.store.descriptor? id = some d →
        ∃ index v, (s.run cx).2.unit? index = some v ∧ id ∈ v.classTable.values) ∧
      ∀ index v, (s.run cx).2.unit? index = some v → ∀ id ∈ v.classTable.values, id ∈ ids := by
  obtain ⟨sources, frame⟩ := h.frame
  have clear := h.clear
  rw [through_later] at clear frame
  have opens := through_rests plain quiet_analyses order start
  have publishes := stepAll_advances plain order .analyze4 (s.through order analyses start)
  have ending :=
    (through_looks plain quiet_closings order
      (s.stepAll order .analyze4 (s.through order analyses start))).idles
  have idles := h.idles.trans (through_looks plain quiet_analyses order start).idles
  have more : cx.store.Extends (s.through order analyses start).store := h.store ▸ opens.store
  obtain ⟨ids, all⟩ := foldl_stepAt_binds plain h.distinct
    ((through_looks plain quiet_analyses order start).stored (h.toPrepares.stored stored))
      (idles.current current)
    ((through_advances plain order closings _).ok clear) fun i listed => (h.publishable listed).rests opens
  refine ⟨ids, ?_, fun id member d there => ?_, fun i v last id listed => ?_⟩
  · rw [frame]
    exact { Context.Binds.after idles more (all.toBinds.then publishes.store ending) with }
  · obtain ⟨i, listed, u, here, own⟩ := (all.own id d (more.descriptors id d there)).1 member
    obtain ⟨u₀, u₁, v, here₀, here₁, last, same⟩ := h.published plain listed
    cases here.symm.trans here₀
    exact ⟨i, v, last, same ▸ (all.units i listed u u₁ here here₁).1 id own⟩
  · have member := h.listed_of_unit? plain last
    obtain ⟨u₀, u₁, v', here₀, here₁, last', same⟩ := h.published plain member
    cases last.symm.trans last'
    exact (all.units i member u₀ u₁ here₀ here₁).2 id (same ▸ listed)

end Succeeds

/-! ### Runs that fail -/

/-- A run that does not get to its order leaves all classes as they are. -/
theorem store_run_of_unprepared (plain : s.Plain) (early : s.prepared? cx = none) :
    (s.run cx).2.store = cx.store := by
  rcases s.run_cases cx with ⟨order, start, prepared, -⟩ | ⟨phase, cx', halted, -, -, leaves⟩
  · cases early.symm.trans prepared
  · rw [halted]
    exact (leaves plain).2

/-- In the phase that publishes, a unit starts with the classes that it brings. -/
theorem Prepares.brings (h : s.Prepares cx start) (ready : s.Ready cx order start) (plain : s.Plain)
    {phases : List Phase} (quiet : ∀ phase ∈ phases, phase ≠ .analyze4) (listed : index ∈ order) :
    ∃ f u, s.frontendAt? cx index = some f ∧ s.frontendAt? (s.through order phases start) index = some f ∧
      (s.through order phases start).unit? index = some u ∧
        u.Proper f.format (s.through order phases start).store ∧
      ∀ id, id ∈ u.classTable.values ↔ ∃ v, cx.unit? index = some v ∧ id ∈ v.classTable.values := by
  obtain ⟨slot, held⟩ := h.exists_slot ready listed
  obtain ⟨f, u, found, found₀, here, -, readies⟩ := h.start_slot ready held
  have passes := through_rests plain quiet order start
  obtain ⟨u', here', rests⟩ := passes.units index f u found here
  have unit := Context.unit?_eq held
  refine ⟨f, u', by rw [frontendAt?, held]; exact found₀,
    (frontendAt?_congr passes.sources index).trans found, here',
    rests.proper (h.store ▸ readies.proper) passes.store, fun id => ?_⟩
  rw [rests.classTable, unit]
  cases brought : slot.unit with
  | none => simp [readies.new brought, Table.values, Table.empty]
  | some v =>
    obtain ⟨bytes, rfl, -⟩ := readies.known v brought
    simp

/-- Once there are errors nothing is bound. -/
theorem foldl_stepAt_idles (plain : s.Plain) (supports : s.Supports cx) (failed : cx.hasErrors = true)
    (phase : Phase) (items : List Nat) : cx.Idles (items.foldl (s.stepAt phase) cx) := by
  induction items generalizing cx with
  | nil => exact .refl cx
  | cons i rest ih =>
    have more := stepAt_advances plain phase cx i
    have first : cx.Idles (s.stepAt phase cx i) := by
      rw [stepAt_passes supports failed]
      exact { Context.Idles.refl cx with }
    exact first.trans (ih (supports.advances more) (more.hasErrors failed))

/-- Units publish one after the other until one of them fails.  That one binds its classes too, unless its
    bundle is refused. -/
theorem foldl_stepAt_binds_failing (plain : s.Plain) (distinct : items.Nodup) (new : index ∉ items)
    (stored : cx.Stored) (current : cx.registry.Current)
    (clear : (items.foldl (s.stepAt .analyze4) cx).hasErrors = false)
    (fails : (s.stepAt .analyze4 (items.foldl (s.stepAt .analyze4) cx) index).hasErrors = true)
    (ready : ∀ i ∈ items, s.Publishable cx i) (last : s.Publishable cx index) :
    ∃ ids, cx.Binds ids (s.stepAt .analyze4 (items.foldl (s.stepAt .analyze4) cx) index) ∧
      ∀ id d, cx.store.descriptor? id = some d →
        (id ∈ ids ↔ ∃ j u, cx.unit? j = some u ∧ id ∈ u.classTable.values ∧
        (j ∈ items ∨ j = index ∧ ∃ f, s.frontendAt? cx j = some f ∧ f.format = .abc)) := by
  obtain ⟨ids, all⟩ := foldl_stepAt_binds plain distinct stored current clear ready
  obtain ⟨f, u, found, here, proper⟩ := last
  have begins := Context.Advances.foldl (stepAt_advances plain .analyze4) items cx
  have found' := (frontendAt?_congr begins.sources index).trans found
  have here' := (foldl_stepAt_of_not_mem plain .analyze4 new cx).trans here
  rcases stepAt_binds plain found' here' ⟨proper.toTidy.mono begins.store, proper.fresh⟩
    (all.current current) clear with ⟨kind, ids', _, -, own⟩ | ⟨other, -, idles⟩
  · have abc := kind.resolve_right (by rw [fails]; exact Bool.noConfusion)
    refine ⟨ids ++ ids', all.toBinds.trans begins.store own.toBinds, fun id d there => ?_⟩
    rw [List.mem_append, all.own id d there, own.own id d (begins.store.descriptors id d there)]
    constructor
    · rintro (⟨j, member, v, unit, listed⟩ | listed)
      · exact ⟨j, v, unit, listed, Or.inl member⟩
      · exact ⟨index, u, here, listed, Or.inr ⟨rfl, f, found, abc⟩⟩
    · rintro ⟨j, v, unit, listed, member | ⟨rfl, -⟩⟩
      · exact Or.inl ⟨j, member, v, unit, listed⟩
      · cases here.symm.trans unit
        exact Or.inr listed
  · refine ⟨ids, all.toBinds.then begins.store idles, fun id d there => ?_⟩
    rw [all.own id d there]
    constructor
    · rintro ⟨j, member, v, unit, listed⟩
      exact ⟨j, v, unit, listed, Or.inl member⟩
    · rintro ⟨j, v, unit, listed, member | ⟨rfl, f', found', abc⟩⟩
      · exact ⟨j, member, v, unit, listed⟩
      · cases found.symm.trans found'
        exact (other abc).elim

namespace FailsFirst

variable {before after : List Phase} {phase : Phase} {done rest : List Nat}

/-- Only the phase that publishes can fail after the first. -/
theorem publishing (h : s.FailsFirst order start before phase after done index rest) (plain : s.Plain) :
    phase = .analyze4 := by
  by_contra quiet
  have same :=
    (stepAt_looks plain quiet (done.foldl (s.stepAt phase) (s.through order before start)) index).ok
  rw [h.fails, h.clear] at same
  cases same

theorem quiet (h : s.FailsFirst order start before phase after done index rest) :
    ∀ other ∈ before, other ≠ phase := by
  have distinct : Phase.later.Nodup := by decide
  rw [h.phases] at distinct
  intro other member
  exact (List.nodup_append.1 distinct).2.2 other member phase (.head _)

/-- A run that fails binds the classes that were brought by the units before the one that fails, and by that
    one too unless its bundle is refused.  It binds no others that were there. -/
theorem binds (h : s.FailsFirst order start before .analyze4 after done index rest) (plain : s.Plain)
    (opened : ∀ slot ∈ cx.sources, slot.Opened cx.store) (stored : cx.Stored) (current : cx.registry.Current)
    (past : s.prepared? cx = some (order, start)) :
    ∃ ids, cx.Binds ids (s.run cx).2 ∧ ∀ id d, cx.store.descriptor? id = some d →
      (id ∈ ids ↔ ∃ j u, cx.unit? j = some u ∧ id ∈ u.classTable.values ∧
        (j ∈ done ∨ j = index ∧ ∃ f, s.frontendAt? cx j = some f ∧ f.format = .abc)) := by
  have ready := ready_of_prepared plain past
  have prepares := prepares_of_prepared plain opened past
  have idles := prepares.idles.trans (through_looks plain h.quiet order start).idles
  have opens := through_advances plain order before start
  have more : cx.store.Extends (s.through order before start).store := prepares.store ▸ opens.store
  have brings {j : Nat} (listed : j ∈ order) := prepares.brings ready plain h.quiet listed
  have publishable {j : Nat} (listed : j ∈ order) : s.Publishable (s.through order before start) j := by
    obtain ⟨f, u, -, found, here, proper, -⟩ := brings listed
    exact ⟨f, u, found, here, proper⟩
  have first {j : Nat} (member : j ∈ done) : j ∈ order := h.place ▸ List.mem_append_left _ member
  have last : index ∈ order := h.place ▸ List.mem_append_right _ (.head _)
  obtain ⟨distinct, -, apart⟩ := List.nodup_append.1 (h.place ▸ ready.distinct)
  have begins := Context.Advances.foldl (stepAt_advances plain .analyze4) done (s.through order before start)
  have breaks :=
    stepAt_advances plain .analyze4 (done.foldl (s.stepAt .analyze4) (s.through order before start)) index
  obtain ⟨ids, binds, own⟩ := foldl_stepAt_binds_failing plain distinct
    (fun member => apart index member index (.head _) rfl)
    ((through_looks plain h.quiet order start).stored (prepares.stored stored)) (idles.current current)
      h.clear h.fails
    (fun j member => publishable (first member)) (publishable last)
  have ending :=
    foldl_stepAt_idles plain (ready.supports.advances (opens.trans (begins.trans breaks))) h.fails
      .analyze4 rest
  refine ⟨ids, ?_, fun id d there => ?_⟩
  · rw [(haltsAt_of_failsFirst plain past h).run]
    exact Context.Binds.after idles more (binds.then (begins.trans breaks).store ending)
  · rw [own id d (more.descriptors id d there)]
    -- a unit has in this phase the classes that it was brought with
    constructor
    · rintro ⟨j, u, here, listed, reached⟩
      have member : j ∈ order := reached.elim first fun same => same.1 ▸ last
      obtain ⟨f, u', found, found', here', -, same⟩ := brings member
      cases here.symm.trans here'
      obtain ⟨v, unit, brought⟩ := (same id).1 listed
      exact ⟨j, v, unit, brought, reached.imp_right fun ⟨here, rest⟩ => ⟨here, by rwa [found, ← found']⟩⟩
    · rintro ⟨j, v, unit, brought, reached⟩
      have member : j ∈ order := reached.elim first fun same => same.1 ▸ last
      obtain ⟨f, u, found, found', here, -, same⟩ := brings member
      exact ⟨j, u, here, (same id).2 ⟨v, unit, brought⟩,
        reached.imp_right fun ⟨here, rest⟩ => ⟨here, by rwa [found', ← found]⟩⟩

end FailsFirst

end Scheduler

end AbcBuild
