/-
Module: AbcBuild.Proofs.Unbinding
Purpose: Which classes are bound to a type table when a build is over.  A build unbinds the classes that it
  reports.  What it keeps but does not report stays bound, and so does what a run has bound before it fails.
Main exports: Compilation.keptClasses, Compilation.Held, Compilation.Orderly.bound?_build,
  Compilation.held_unbound_iff_none_left
-/
import Mathlib.Data.List.Induction
import AbcBuild.Proofs.Bindings

namespace AbcBuild.Compilation

variable {config : Config} {c : Compilation} {id : ClassId}

/-- The classes of the units that are kept. -/
def keptClasses (c : Compilation) : List ClassId :=
  c.cache.values.flatMap fun entry => entry.info.classTable.values

/-- A class that is kept, or that is told by the report of a build in the history. -/
def Held (config : Config) (edits : List Edit) (id : ClassId) : Prop :=
  id ∈ (after config edits).keptClasses ∨
    ∃ before r, before ++ [.build] <+: edits ∧ (after config before).build.1 = .ok r ∧ id ∈ r.classes.values

/-- A build fails, but not before the unit of a source has published its classes.  A unit of bytecode has
    published them even if it is the one that fails. -/
def FailsAfter (c : Compilation) (s : Source) : Prop :=
  ∃ order start before later done index rest j, c.scheduler.prepared? c.context = some (order, start) ∧
    c.scheduler.FailsFirst order start before .analyze4 later done index rest ∧
    c.sources.values[j]? = some s ∧ (j ∈ done ∨ j = index ∧ s.mime = Mime.abc)

/-- A build leaves a class bound: it keeps the class but does not report it, or it takes the class over and
    fails later. -/
def Leaves (c : Compilation) (id : ClassId) : Prop :=
  (∃ r, c.build.1 = .ok r ∧ id ∈ c.build.2.keptClasses ∧ id ∉ r.classes.values) ∨
    ∃ s entry, c.FailsAfter s ∧ c.cached? s = some entry ∧ id ∈ entry.info.classTable.values

/-! ### The start of a build -/

theorem generation_context (c : Compilation) : c.context.registry.generation = c.store.nextGeneration := by
  obtain ⟨retained, heq⟩ := c.context_eq
  rw [heq]
  rfl

theorem current_context (c : Compilation) : c.context.registry.Current := by
  obtain ⟨retained, heq⟩ := c.context_eq
  rw [heq]
  intro table kept
  cases kept

theorem bound?_context (c : Compilation) (id : ClassId) : c.context.store.bound? id = c.store.bound? id := by
  obtain ⟨retained, heq⟩ := c.context_eq
  rw [heq]
  exact c.store.bound?_newRegistry id

theorem unit?_context (c : Compilation) (index : Nat) :
    c.context.unit? index = c.sources.values[index]?.bind c.restored? := by
  rw [Context.unit?, slot_context, Option.bind_map]
  rfl

theorem frontendAt?_context (c : Compilation) (index : Nat) :
    c.scheduler.frontendAt? c.context index = c.sources.values[index]?.bind fun s =>
      c.scheduler.frontend? s.mime := by
  rw [Scheduler.frontendAt?, slot_context, Option.bind_map]
  rfl

/-- A unit is brought with the classes that are kept of its source. -/
theorem brought_iff {index : Nat} :
    (∃ u, c.context.unit? index = some u ∧ id ∈ u.classTable.values) ↔
      ∃ s entry, c.sources.values[index]? = some s ∧ c.cached? s = some entry ∧
        id ∈ entry.info.classTable.values := by
  rw [unit?_context]
  constructor
  · rintro ⟨u, here, listed⟩
    obtain ⟨s, held, restored⟩ := Option.bind_eq_some_iff.1 here
    obtain ⟨entry, cached, -⟩ := Option.map_eq_some_iff.1 restored
    obtain ⟨u', restored', info, -⟩ := restored?_of_cached cached
    cases restored.symm.trans restored'
    exact ⟨s, entry, held, cached, info ▸ listed⟩
  · rintro ⟨s, entry, held, cached, listed⟩
    obtain ⟨u, restored, info, -⟩ := restored?_of_cached cached
    exact ⟨u, by rw [held, Option.bind_some, restored], info ▸ listed⟩

namespace Orderly

theorem mem_keptClasses (h : c.Orderly config) :
    id ∈ c.keptClasses ↔ ∃ name entry, c.cache.get? name = some entry ∧
      id ∈ entry.info.classTable.values := by
  simp only [keptClasses, List.mem_flatMap, Table.get?_eq_some_iff h.distinctCache]
  constructor
  · rintro ⟨entry, member, listed⟩
    obtain ⟨⟨name, entry⟩, held, rfl⟩ := List.mem_map.1 member
    exact ⟨name, entry, held, listed⟩
  · rintro ⟨name, entry, held, listed⟩
    exact ⟨entry, List.mem_map_of_mem held, listed⟩

theorem exists_descriptor (h : c.Orderly config) {name : String} {entry : CacheEntry}
    (found : c.cache.get? name = some entry) (listed : id ∈ entry.info.classTable.values) :
    ∃ d, c.store.descriptor? id = some d := by
  obtain ⟨e, member, rfl⟩ := List.mem_map.1 listed
  obtain ⟨d, held, -⟩ := (h.tidy name entry found).lists e member
  exact ⟨d, held⟩

theorem abc_iff (h : c.Orderly config) {index : Nat} {s : Source}
    (held : c.sources.values[index]? = some s) :
    (∃ f, c.scheduler.frontendAt? c.context index = some f ∧ f.format = .abc) ↔ s.mime = Mime.abc := by
  rw [frontendAt?_context, held, Option.bind_some, h.scheduler]
  constructor
  · rintro ⟨f, found, abc⟩
    rcases Scheduler.frontend?_standard found with ⟨mime, -⟩ | ⟨-, rfl⟩
    · exact mime
    · cases abc
  · intro mime
    rw [mime]
    exact ⟨{ format := .abc }, rfl, rfl⟩

/-! ### A build that succeeds -/

variable {r : BuildReport}

section

variable (h : c.Orderly config) (ok : c.build.1 = .ok r)
include h ok

/-- What a build without errors keeps is what a unit has in the end. -/
theorem exists_unit {name : String} {entry : CacheEntry} (found : c.build.2.cache.get? name = some entry) :
    ∃ index u, (c.scheduler.run c.context).2.unit? index = some u ∧ u.toUnitInfo = entry.info := by
  obtain ⟨cx, rfl, clear, heq, -⟩ := run_of_ok ok
  rw [heq] at found
  obtain ⟨s, member, rfl, -⟩ := h.exists_kept clear found
  obtain ⟨index, held⟩ := List.mem_iff_getElem?.1 member
  obtain ⟨u, entry', ended, -, found', -, info, -⟩ := h.kept clear held
  cases found.symm.trans found'
  exact ⟨index, u, Context.unit?_eq ended, info.symm⟩

theorem mem_keptClasses_build :
    id ∈ c.build.2.keptClasses ↔
      ∃ index v, (c.scheduler.run c.context).2.unit? index = some v ∧ id ∈ v.classTable.values := by
  rw [h.build.mem_keptClasses]
  constructor
  · rintro ⟨name, entry, found, listed⟩
    obtain ⟨index, u, here, info⟩ := h.exists_unit ok found
    exact ⟨index, u, here, info ▸ listed⟩
  · rintro ⟨index, v, here, listed⟩
    obtain ⟨cx, rfl, clear, heq, -⟩ := run_of_ok ok
    obtain ⟨⟨s, unit⟩, place, same⟩ := Option.bind_eq_some_iff.1 here
    have held : c.sources.values[index]? = some s := h.source_at place
    obtain ⟨u, entry, ended, -, found, -, info, -⟩ := h.kept clear held
    cases place.symm.trans ended
    cases same
    rw [heq]
    exact ⟨s.name, entry, found, info ▸ listed⟩

/-- What a build keeps but does not report is displaced: it reports another class of the name. -/
theorem displaced (kept : id ∈ c.build.2.keptClasses) (hidden : id ∉ r.classes.values) :
    ∃ d other, c.build.2.store.descriptor? id = some d ∧ r.classes.get? d.name = some other ∧
      other ≠ id := by
  obtain ⟨name, entry, found, listed⟩ := h.build.mem_keptClasses.1 kept
  have tidy := h.build.tidy name entry found
  obtain ⟨e, member, rfl⟩ := List.mem_map.1 listed
  obtain ⟨d, there, named, -⟩ := tidy.lists e member
  obtain ⟨index, u, here, info⟩ := h.exists_unit ok found
  obtain ⟨cx, rfl, clear, heq, rfl⟩ := run_of_ok ok
  obtain ⟨order, start, succeeds⟩ := Scheduler.exists_succeeds h.plain h.opened clear
  have own : (c.scheduler.run c.context).2.listed? d.name index = some e.2 := by
    have table : u.classTable = entry.info.classTable := congrArg UnitInfo.classTable info
    rw [Context.listed?, here, Option.bind_some, table, named]
    exact (Table.get?_eq_some_iff tidy.distinct).2 member
  obtain ⟨other, last⟩ := Option.isSome_iff_exists.1 (List.findSome?_isSome_iff.2
    ⟨index, List.mem_reverse.2 (succeeds.listed_of_unit? h.plain here), Option.isSome_of_eq_some own⟩)
  have reported : (c.scheduler.run c.context).2.registry.classes.get? d.name = some other := by
    rw [succeeds.get?_classes h.plain c.stored_context, last, Option.some_or]
  have told := List.mem_map_of_mem (f := Prod.snd) (Table.mem_of_get? reported)
  exact ⟨d, other, there, reported, fun same => hidden (same ▸ told)⟩

/-- A build without errors unbinds what it reports.  What it keeps besides is bound, and nothing else
    changes. -/
theorem bound?_of_ok :
    (∀ id ∈ r.classes.values, c.build.2.store.bound? id = none) ∧
      (∀ id ∈ c.build.2.keptClasses, id ∉ r.classes.values →
        c.build.2.store.bound? id = some ⟨c.store.nextGeneration⟩) ∧
      ∀ id d, c.store.descriptor? id = some d → id ∉ c.build.2.keptClasses → id ∉ r.classes.values →
        c.build.2.store.bound? id = c.store.bound? id := by
  have kept (id : ClassId) : id ∈ c.build.2.keptClasses ↔ _ := h.mem_keptClasses_build ok
  obtain ⟨cx, rfl, clear, heq, report⟩ := run_of_ok ok
  obtain ⟨order, start, succeeds⟩ := Scheduler.exists_succeeds h.plain h.opened clear
  obtain ⟨ids, binds, own, all⟩ := succeeds.binds h.plain c.stored_context c.current_context
  have unbound (id : ClassId) : c.build.2.store.bound? id
      = if id ∈ r.classes.values then none else (c.scheduler.run c.context).2.store.bound? id := by
    rw [heq, report]
    exact ClassStore.bound?_startGeneration _ _ id
  refine ⟨fun id member => ?_, fun id member hidden => ?_, fun id d there loose hidden => ?_⟩
  · rw [unbound, if_pos member]
  · obtain ⟨index, v, here, listed⟩ := (kept id).1 member
    rw [unbound, if_neg hidden, binds.bound id (all index v here id listed), c.generation_context]
  · have held := c.extends_context.descriptors id d there
    have free : id ∉ ids := fun member => loose ((kept id).2 (own id member d held))
    rw [unbound, if_neg hidden, binds.kept id d held free, c.bound?_context]

end

/-! ### A build that fails -/

section

variable (h : c.Orderly config)
include h

/-- A run that fails binds the classes that are kept of the sources before the one that fails, and of that
    one too if it is bytecode. -/
theorem binds_of_failsFirst {order done rest : List Nat} {start : Context}
    {before after : List Phase} {index : Nat} (past : c.scheduler.prepared? c.context = some (order, start))
    (first : c.scheduler.FailsFirst order start before .analyze4 after done index rest) :
    ∃ ids, c.context.Binds ids (c.scheduler.run c.context).2 ∧ ∀ id d, c.store.descriptor? id = some d →
      (id ∈ ids ↔ ∃ j s entry, c.sources.values[j]? = some s ∧ c.cached? s = some entry ∧
        id ∈ entry.info.classTable.values ∧ (j ∈ done ∨ j = index ∧ s.mime = Mime.abc)) := by
  obtain ⟨ids, binds, own⟩ := first.binds h.plain h.opened c.stored_context c.current_context past
  refine ⟨ids, binds, fun id d there => ?_⟩
  rw [own id d (c.extends_context.descriptors id d there)]
  constructor
  · rintro ⟨j, u, here, listed, reached⟩
    obtain ⟨s, entry, held, cached, kept⟩ := brought_iff.1 ⟨u, here, listed⟩
    exact ⟨j, s, entry, held, cached, kept, reached.imp_right fun ⟨last, abc⟩ =>
      ⟨last, (h.abc_iff held).1 abc⟩⟩
  · rintro ⟨j, s, entry, held, cached, kept, reached⟩
    obtain ⟨u, here, listed⟩ := brought_iff.2 ⟨s, entry, held, cached, kept⟩
    exact ⟨j, u, here, listed, reached.imp_right fun ⟨last, abc⟩ => ⟨last, (h.abc_iff held).2 abc⟩⟩

/-- What fails is an error of the run, so the build fails, and it leaves the classes as the run does. -/
theorem store_of_failed {s : Source} (fails : c.FailsAfter s) :
    (∀ r, c.build.1 ≠ .ok r) ∧ c.build.2.store = (c.scheduler.run c.context).2.store := by
  obtain ⟨order, start, before, after, done, index, rest, j, past, first, held, -⟩ := fails
  have failed : (c.scheduler.run c.context).2.hasErrors = true := by
    rw [Context.hasErrors, (Scheduler.haltsAt_of_failsFirst h.plain past first).log]
    exact first.fails
  rcases c.build_outcome with ⟨empty, -⟩ | ⟨-, cx, rfl, ⟨-, heq⟩ | ⟨clear, -⟩⟩
  · have none : c.sources.values = [] := List.map_eq_nil_iff.2 (List.isEmpty_iff.1 empty)
    rw [none] at held
    cases held
  · rw [heq]
    refine ⟨fun r ok => ?_, rfl⟩
    cases ok
  · cases failed.symm.trans clear

theorem bound?_of_failsAfter {s : Source} {entry : CacheEntry} (fails : c.FailsAfter s)
    (cached : c.cached? s = some entry) (listed : id ∈ entry.info.classTable.values) :
    c.build.2.store.bound? id = some ⟨c.store.nextGeneration⟩ := by
  rw [(h.store_of_failed fails).2]
  obtain ⟨order, start, before, after, done, index, rest, j, past, first, held, reached⟩ := fails
  obtain ⟨ids, binds, own⟩ := h.binds_of_failsFirst past first
  obtain ⟨d, there⟩ := h.exists_descriptor (cached?_eq_some_iff.1 cached).1 listed
  rw [binds.bound id ((own id d there).2 ⟨j, s, entry, held, cached, listed, reached⟩), c.generation_context]

/-- A build that fails binds no class that was there, apart from those that it takes over before it fails. -/
theorem bound?_of_failed (failed : ∀ r, c.build.1 ≠ .ok r) {d : ClassDescriptor}
    (there : c.store.descriptor? id = some d)
    (spared : ∀ s entry, c.FailsAfter s → c.cached? s = some entry → id ∉ entry.info.classTable.values) :
    c.build.2.store.bound? id = c.store.bound? id := by
  rcases c.build_outcome with ⟨-, heq⟩ | ⟨-, cx, rfl, ⟨errors, heq⟩ | ⟨-, heq⟩⟩
  · rw [heq]
  · rw [heq, ← c.bound?_context]
    -- the first phase touches no class, and after it only the phase that publishes can fail
    cases past : c.scheduler.prepared? c.context with
    | none => exact congrArg (ClassStore.bound? · id) (Scheduler.store_run_of_unprepared h.plain past)
    | some reached =>
      obtain ⟨order, start⟩ := reached
      obtain ⟨before, phase, after, done, index, rest, first⟩ := Scheduler.exists_failsFirst h.plain past
        (Bool.eq_true_of_not_eq_false fun clear => by
          cases errors.symm.trans (Scheduler.run_clear h.plain past clear).2)
      cases first.publishing h.plain
      obtain ⟨ids, binds, own⟩ := h.binds_of_failsFirst past first
      refine binds.kept id d (c.extends_context.descriptors id d there) fun member => ?_
      obtain ⟨j, s, entry, held, cached, listed, stage⟩ := (own id d there).1 member
      exact spared s entry ⟨order, start, before, after, done, index, rest, j, past, first, held,
        stage⟩ cached listed
  · exact (failed _ (congrArg Prod.fst heq)).elim

end

/-! ### Any build -/

/-- What a build leaves bound is kept. -/
theorem bound?_of_leaves (h : c.Orderly config) (leaves : c.Leaves id) :
    id ∈ c.build.2.keptClasses ∧ c.build.2.store.bound? id = some ⟨c.store.nextGeneration⟩ := by
  rcases leaves with ⟨r, ok, kept, hidden⟩ | ⟨s, entry, fails, cached, listed⟩
  · exact ⟨kept, (h.bound?_of_ok ok).2.1 id kept hidden⟩
  · refine ⟨h.build.mem_keptClasses.2 ⟨s.name, entry, ?_, listed⟩,
      h.bound?_of_failsAfter fails cached listed⟩
    rw [cache_of_failed (h.store_of_failed fails).1]
    exact (cached?_eq_some_iff.1 cached).1

/-- Of the classes that were there, a build binds those that it leaves. -/
theorem bound?_build (h : c.Orderly config) {d : ClassDescriptor} (there : c.store.descriptor? id = some d)
    (spared : ¬c.Leaves id) (free : c.store.bound? id = none) : c.build.2.store.bound? id = none := by
  by_cases succeeded : ∃ r, c.build.1 = .ok r
  · obtain ⟨r, ok⟩ := succeeded
    obtain ⟨reported, -, others⟩ := h.bound?_of_ok ok
    by_cases told : id ∈ r.classes.values
    · exact reported id told
    · exact (others id d there (fun kept => spared (Or.inl ⟨r, ok, kept, told⟩)) told).trans free
  · refine (h.bound?_of_failed (fun r ok => succeeded ⟨r, ok⟩) there fun s entry fails cached listed =>
      ?_).trans free
    exact spared (Or.inr ⟨s, entry, fails, cached, listed⟩)

end Orderly

/-! ### Histories -/

variable {edits : List Edit}

@[simp] theorem after_concat (config : Config) (edits : List Edit) (edit : Edit) :
    after config (edits ++ [edit]) = (after config edits).apply edit := List.foldl_append

/-- An edit makes no class kept, unless it is a build that succeeds. -/
theorem Orderly.mem_keptClasses_apply (h : c.Orderly config) {edit : Edit}
    (failed : edit = .build → ∀ r, c.build.1 ≠ .ok r) (kept : id ∈ (c.apply edit).keptClasses) :
    id ∈ c.keptClasses := by
  obtain ⟨name, entry, found, listed⟩ := (h.apply edit).mem_keptClasses.1 kept
  rw [get?_cache_apply h.distinctCache failed] at found
  split at found
  next => cases found
  next => exact h.mem_keptClasses.2 ⟨name, entry, found, listed⟩

/-- What is held was held before, or it comes from the build that has just succeeded. -/
theorem held_concat {edit : Edit} (held : Held config (edits ++ [edit]) id) :
    Held config edits id ∨ edit = .build ∧ ∃ r, (after config edits).build.1 = .ok r ∧
      (id ∈ r.classes.values ∨ id ∈ (after config edits).build.2.keptClasses) := by
  rcases held with kept | ⟨before, r, within, ok, told⟩
  · rw [after_concat] at kept
    by_cases succeeded : edit = .build ∧ ∃ r, (after config edits).build.1 = .ok r
    · obtain ⟨rfl, r, ok⟩ := succeeded
      exact Or.inr ⟨rfl, r, ok, Or.inr kept⟩
    · refine Or.inl (Or.inl ((orderly_after config edits).mem_keptClasses_apply (fun here r ok => ?_) kept))
      exact succeeded ⟨here, r, ok⟩
  · rcases List.prefix_concat_iff.1 within with same | within
    · obtain ⟨rfl, here⟩ := List.append_inj' same rfl
      cases here
      exact Or.inr ⟨rfl, r, ok, Or.inl told⟩
    · exact Or.inl (Or.inr ⟨before, r, within, ok, told⟩)

/-- A build that succeeds has the classes that it reports and those that it keeps. -/
theorem Orderly.exists_descriptor_of_ok (h : c.Orderly config) {r : BuildReport} (ok : c.build.1 = .ok r)
    (told : id ∈ r.classes.values ∨ id ∈ c.build.2.keptClasses) :
    ∃ d, c.build.2.store.descriptor? id = some d := by
  rcases told with told | kept
  · have more := extends_of_ok ok
    obtain ⟨cx, rfl, clear, -, rfl⟩ := run_of_ok ok
    obtain ⟨order, start, succeeds⟩ := Scheduler.exists_succeeds h.plain h.opened clear
    have stored := (succeeds.tidy h.plain c.stored_context).1
    obtain ⟨⟨name, id⟩, listed, rfl⟩ := List.mem_map.1 told
    obtain ⟨d, there⟩ := stored.held name id ((Table.get?_eq_some_iff stored.distinct).2 listed)
    exact ⟨d, more.descriptors id d there⟩
  · obtain ⟨name, entry, found, listed⟩ := h.build.mem_keptClasses.1 kept
    exact h.build.exists_descriptor found listed

/-- As long as no build leaves a class bound, the classes that are held are unbound. -/
theorem unbound_of_none_left
    (spared : ∀ before, before ++ [.build] <+: edits → ∀ id, ¬(after config before).Leaves id)
    (held : Held config edits id) :
    (∃ d, (after config edits).store.descriptor? id = some d) ∧
    (after config edits).store.bound? id = none := by
  -- along the history: an edit that is no build keeps the store, and a build binds only what it leaves
  induction edits using List.reverseRecOn generalizing id with
  | nil =>
    rcases held with kept | ⟨before, r, within, -⟩
    · cases kept
    · cases (List.append_eq_nil_iff.1 (List.prefix_nil.1 within)).2
  | append_singleton edits edit ih =>
    have orderly := orderly_after config edits
    have earlier (before : List Edit) (within : before ++ [.build] <+: edits) :=
      spared before (within.trans (List.prefix_append edits [edit]))
    rw [after_concat]
    rcases held_concat held with held | ⟨rfl, r, ok, told⟩
    · obtain ⟨⟨d, there⟩, free⟩ := ih earlier held
      cases edit with
      | build =>
        exact ⟨⟨d, orderly.extends_build.descriptors id d there⟩,
          orderly.bound?_build there (spared edits (List.prefix_refl _) id) free⟩
      | _ => exact ⟨⟨d, there⟩, free⟩
    · refine ⟨orderly.exists_descriptor_of_ok ok told, ?_⟩
      by_cases reported : id ∈ r.classes.values
      · exact (orderly.bound?_of_ok ok).1 id reported
      · exact (spared edits (List.prefix_refl _) id
          (Or.inl ⟨r, ok, told.resolve_left reported, reported⟩)).elim

/-- A build unbinds the classes that it reports.  What it keeps besides is displaced: it reports another
    class of the name.  Such classes stay bound though they are held, and so do those that a build takes over
    before it fails.  So in any history the classes that are held are unbound after each build exactly if no
    build leaves one. -/
theorem held_unbound_iff_none_left (config : Config) (edits : List Edit) :
    (∀ r, (after config edits).build.1 = .ok r →
      (∀ id ∈ r.classes.values, (after config (edits ++ [.build])).store.bound? id = none) ∧
      ∀ id ∈ (after config (edits ++ [.build])).keptClasses, id ∉ r.classes.values →
        ∃ d other, (after config (edits ++ [.build])).store.descriptor? id = some d ∧
          r.classes.get? d.name = some other ∧ other ≠ id) ∧
    (∀ id, (after config edits).Leaves id → Held config (edits ++ [.build]) id ∧
      (after config (edits ++ [.build])).store.bound? id
        = some ⟨(after config edits).store.nextGeneration⟩) ∧
    ((∀ before, before ++ [.build] <+: edits → ∀ id, Held config (before ++ [.build]) id →
        (after config (before ++ [.build])).store.bound? id = none) ↔
      ∀ before, before ++ [.build] <+: edits → ∀ id, ¬(after config before).Leaves id) := by
  have left (edits : List Edit) (id : ClassId) (leaves : (after config edits).Leaves id) :
      Held config (edits ++ [.build]) id ∧
        (after config (edits ++ [.build])).store.bound? id
          = some ⟨(after config edits).store.nextGeneration⟩ := by
    obtain ⟨kept, bound⟩ := (orderly_after config edits).bound?_of_leaves leaves
    rw [Held, after_concat]
    exact ⟨Or.inl kept, bound⟩
  refine ⟨fun r ok => ?_, left edits, fun free before within id leaves => ?_,
    fun spared before within id held => ?_⟩
  · have orderly := orderly_after config edits
    rw [after_concat]
    exact ⟨(orderly.bound?_of_ok ok).1, fun id kept hidden => orderly.displaced ok kept hidden⟩
  · obtain ⟨held, bound⟩ := left before id leaves
    cases (free before within id held).symm.trans bound
  · exact (unbound_of_none_left (fun first earlier => spared first (earlier.trans within)) held).2

/-- Two sources have a class of one name. -/
def redefined : List Edit := [.add library, .add (base "z"), .build]

/-- A source with a style is built, and then another with the same style of another type. -/
def restyled : List Edit :=
  [.add (Scheduler.styled "A" "Number").source, .build, .add (Scheduler.styled "B" "String").source, .build]

/-- The class that was registered first stays bound after a build that succeeds, and the class that was taken
    over stays bound after a build that fails. -/
theorem held_classes_stay_bound :
    (∃ id, Held {} redefined id ∧ (after {} redefined).store.bound? id ≠ none) ∧
      ∃ id, Held { styleSeverity := .error } restyled id ∧
        (after { styleSeverity := .error } restyled).store.bound? id ≠ none := by
  have first : ∃ id ∈ (after {} redefined).keptClasses, (after {} redefined).store.bound? id ≠ none := by
    decide +kernel
  have second : ∃ id ∈ (after { styleSeverity := .error } restyled).keptClasses,
      (after { styleSeverity := .error } restyled).store.bound? id ≠ none := by decide +kernel
  obtain ⟨id, kept, bound⟩ := first
  obtain ⟨id', kept', bound'⟩ := second
  exact ⟨⟨id, Or.inl kept, bound⟩, id', Or.inl kept', bound'⟩

end AbcBuild.Compilation
