/-
Module: AbcBuild.Proofs.Reuse
Purpose: What builds take over from each other in the course of a history.  A build takes over the units of
  the last successful build whose sources are unchanged and were not forgotten since.  A failed build changes
  nothing of that, and a build that repeats a successful one gives the same result.
Main exports: Edit.forgets, Compilation.Orderly, Compilation.Unchanged, Compilation.reuse_follows_history
-/
import AbcBuild.Proofs.Replay

namespace AbcBuild

variable {config : Config}

/-- The edit forgets the unit of a name. -/
def Edit.forgets (name : String) : Edit → Bool
  | .remove n => n = name
  | .invalidate n => n = name
  | _ => false

namespace Compilation

/-! ### The start of a build -/

variable {c : Compilation} {edits : List Edit} {entry : CacheEntry} {s : Source} {name : String}

@[simp] theorem sources_context (c : Compilation) :
    c.context.sources.map SourceSlot.source = c.sources.values := by
  obtain ⟨retained, heq⟩ := c.context_eq
  rw [heq, List.map_map]
  exact List.map_id _

@[simp] theorem slot_context (c : Compilation) (index : Nat) :
    c.context.sources[index]? = c.sources.values[index]?.map fun s => ⟨s, c.restored? s⟩ := by
  obtain ⟨retained, heq⟩ := c.context_eq
  rw [heq]
  exact List.getElem?_map

theorem stored_context (c : Compilation) : c.context.Stored := by
  obtain ⟨retained, heq⟩ := c.context_eq
  rw [heq]
  exact ⟨List.nodup_nil, fun name id found => by cases found⟩

/-- The unit that a source starts with has what was kept. -/
theorem restored?_of_cached (cached : c.cached? s = some entry) :
    ∃ u, c.restored? s = some u ∧ u.toUnitInfo = entry.info ∧ u.source = s ∧ u.hasTypeInfo = true ∧
      u.bytes = entry.bytecode := by
  unfold restored?
  rw [cached]
  refine ⟨_, rfl, ?_⟩
  dsimp only
  split
  next empty => exact ⟨rfl, rfl, rfl, (List.isEmpty_iff.1 empty).symm⟩
  next => exact ⟨rfl, rfl, rfl, rfl⟩

theorem names_cacheOf (slots : List SourceSlot) :
    ((slots.filterMap cacheEntry?).map Prod.fst).Sublist (slots.map fun slot => slot.source.name) := by
  induction slots with
  | nil => exact List.Sublist.slnil
  | cons slot rest ih =>
    cases made : cacheEntry? slot with
    | none =>
      rw [List.filterMap_cons_none made]
      exact ih.cons _
    | some entry =>
      have named : entry.1 = slot.source.name := by
        unfold cacheEntry? at made
        grind
      rw [List.filterMap_cons_some made, List.map_cons, named]
      exact ih.cons_cons _

theorem get?_cacheOf_eq_some_iff {slots : List SourceSlot}
    (distinct : (slots.map fun slot => slot.source.name).Nodup) :
    (cacheOf slots).get? name = some entry ↔ ∃ slot ∈ slots, cacheEntry? slot = some (name, entry) :=
  (Table.get?_ofList_eq_some_iff (distinct.sublist (names_cacheOf slots))).trans List.mem_filterMap

/-- What is kept stands under the names of the sources that it comes from. -/
structure Orderly (c : Compilation) (config : Config) : Prop extends c.Keyed config where
  distinctCache : c.cache.keys.Nodup
  tidy : ∀ name entry, c.cache.get? name = some entry → c.store.Tidy name entry.info.classTable

namespace Orderly

variable (h : c.Orderly config)
include h

theorem plain : c.scheduler.Plain := h.scheduler ▸ Scheduler.plain_standard

theorem opened : ∀ slot ∈ c.context.sources, slot.Opened c.context.store := by
  intro slot member u unit
  have more := c.extends_context
  obtain ⟨retained, heq⟩ := c.context_eq
  rw [heq] at member
  obtain ⟨s, -, rfl⟩ := List.mem_map.1 member
  obtain ⟨entry, cached, -⟩ := Option.map_eq_some_iff.1 unit
  obtain ⟨u', restored, info, source, kept, -⟩ := restored?_of_cached cached
  cases Option.some.inj (unit.symm.trans restored)
  refine ⟨source, kept, ?_⟩
  rw [BuildUnit.Tidy, info, source]
  exact (h.tidy _ _ (cached?_eq_some_iff.1 cached).1).mono more

/-- The slots of a build are those of the sources. -/
theorem source_at {index : Nat} {slot : SourceSlot}
    (ended : (c.scheduler.run c.context).2.sources[index]? = some slot) :
    c.sources.values[index]? = some slot.source := by
  rw [← c.sources_context, ← (Scheduler.run_advances h.plain c.context).sources, List.getElem?_map, ended,
    Option.map_some]

/-- Each source of a build without errors has a unit in the end that can be kept. -/
theorem slot (ok : (c.scheduler.run c.context).2.hasErrors = false) {index : Nat}
    (held : c.sources.values[index]? = some s) :
    ∃ u content, (c.scheduler.run c.context).2.sources[index]? = some ⟨s, some u⟩ ∧ u.source = s ∧
      u.Tidy (c.scheduler.run c.context).2.store ∧ s.content = .ok content ∧
      cacheEntry? ⟨s, some u⟩ = some (s.name, ⟨content, u.toUnitInfo, u.bytes⟩) := by
  obtain ⟨order, start, succeeds⟩ := Scheduler.exists_succeeds h.plain h.opened ok
  have started : c.context.sources[index]? = some ⟨s, c.restored? s⟩ := by
    rw [slot_context, held, Option.map_some]
  obtain ⟨u, ended, ends⟩ := succeeds.ends h.plain c.stored_context started
  -- a source without a unit is read in this build, and one with a unit was compared with what is kept
  have readable : ∃ content, s.content = .ok content := by
    cases restored : c.restored? s with
    | none => exact ends.readable restored
    | some _ =>
      obtain ⟨entry, cached, -⟩ := Option.map_eq_some_iff.1 restored
      exact ⟨_, (cached?_eq_some_iff.1 cached).2⟩
  obtain ⟨content, read⟩ := readable
  refine ⟨u, content, ended, ends.source, ends.tidy, read, ?_⟩
  simp only [Source.read, cacheEntry?, read, ends.done, if_true]

/-- The slots of a build have distinct names. -/
theorem names :
    ((c.scheduler.run c.context).2.sources.map fun slot => slot.source.name).Nodup := by
  have names := Table.map_values h.distinct h.named
  rw [← c.sources_context, ← (Scheduler.run_advances h.plain c.context).sources, List.map_map] at names
  exact names ▸ h.distinct

/-- A build without errors keeps the unit of every source. -/
theorem kept (ok : (c.scheduler.run c.context).2.hasErrors = false) {index : Nat}
    (held : c.sources.values[index]? = some s) :
    ∃ u entry, (c.scheduler.run c.context).2.sources[index]? = some ⟨s, some u⟩ ∧ u.source = s ∧
      (cacheOf (c.scheduler.run c.context).2.sources).get? s.name = some entry ∧
        s.content = .ok entry.content ∧
      entry.info = u.toUnitInfo ∧ entry.bytecode = u.bytes := by
  obtain ⟨u, content, ended, source, -, read, made⟩ := h.slot ok held
  refine ⟨u, ⟨content, u.toUnitInfo, u.bytes⟩, ended, source, ?_, read, rfl, rfl⟩
  exact (get?_cacheOf_eq_some_iff h.names).2 ⟨_, List.mem_of_getElem? ended, made⟩

/-- A build without errors keeps nothing else. -/
theorem exists_kept (ok : (c.scheduler.run c.context).2.hasErrors = false)
    (found : (cacheOf (c.scheduler.run c.context).2.sources).get? name = some entry) :
    ∃ s ∈ c.sources.values, s.name = name ∧ s.content = .ok entry.content ∧
      (c.scheduler.run c.context).2.store.Tidy name entry.info.classTable := by
  obtain ⟨⟨s, unit⟩, member, made⟩ := (get?_cacheOf_eq_some_iff h.names).1 found
  obtain ⟨index, ended⟩ := List.mem_iff_getElem?.1 member
  have held : c.sources.values[index]? = some s := h.source_at ended
  obtain ⟨u, content, ended', source, tidy, read, made'⟩ := h.slot ok held
  cases Option.some.inj (ended.symm.trans ended')
  cases Option.some.inj (made.symm.trans made')
  exact ⟨_, List.mem_of_getElem? held, rfl, read, source ▸ tidy⟩

theorem extends_build : c.store.Extends c.build.2.store := by
  have more := c.extends_context.trans (Scheduler.run_advances h.plain c.context).store
  rcases c.build_outcome with ⟨-, heq⟩ | ⟨-, cx, run, ⟨-, heq⟩ | ⟨-, heq⟩⟩ <;> rw [heq]
  · exact .refl _
  · exact run ▸ more
  · exact (run ▸ more).trans (extends_startGeneration cx)

/-- A build keeps no more than what its store holds. -/
theorem build : c.build.2.Orderly config := by
  have keyed : c.build.2.Keyed config := h.toKeyed.apply .build
  have more := h.extends_build
  rcases c.build_outcome with ⟨-, heq⟩ | ⟨-, cx, run, ⟨-, heq⟩ | ⟨ok, heq⟩⟩
  · rw [heq]
    exact h
  · rw [heq] at keyed more ⊢
    exact ⟨keyed, h.distinctCache, fun name entry found => (h.tidy name entry found).mono more⟩
  · refine ⟨keyed, ?_, ?_⟩ <;> rw [heq]
    · exact Table.nodup_keys_insertAll (t := .empty) List.nodup_nil _
    · intro name entry found
      subst run
      obtain ⟨-, -, -, -, tidy⟩ := h.exists_kept ok found
      exact tidy.mono (extends_startGeneration _)

theorem erase (name : String) {c' : Compilation} (keyed : c'.Keyed config)
    (cache : c'.cache = c.cache.erase name) (store : c'.store = c.store) : c'.Orderly config := by
  refine ⟨keyed, cache ▸ Table.nodup_keys_erase h.distinctCache name, fun name' entry found => ?_⟩
  rw [cache, Table.get?_erase h.distinctCache] at found
  split at found
  next => cases found
  next => exact store ▸ h.tidy name' entry found

theorem apply (edit : Edit) : (c.apply edit).Orderly config := by
  have keyed := h.toKeyed.apply edit
  cases edit with
  | add s => exact ⟨keyed, h.distinctCache, h.tidy⟩
  | remove name | invalidate name => exact h.erase name keyed rfl rfl
  | build => exact h.build

theorem foldl_apply (edits : List Edit) : (edits.foldl Compilation.apply c).Orderly config := by
  induction edits generalizing c with
  | nil => exact h
  | cons edit rest ih => exact ih (h.apply edit)

end Orderly

theorem orderly_after (config : Config) (edits : List Edit) : (after config edits).Orderly config := by
  have start : ({ config := config } : Compilation).Orderly config :=
    ⟨keyed_after config [], List.nodup_nil, fun _ _ found => by cases found⟩
  exact start.foldl_apply edits

/-! ### What is kept along a history -/

/-- No build among the edits succeeds. -/
def Unsuccessful (c : Compilation) (edits : List Edit) : Prop :=
  ∀ before rest, edits = before ++ .build :: rest → ∀ r, (before.foldl apply c).build.1 ≠ .ok r

theorem unsuccessful_nil (c : Compilation) : c.Unsuccessful [] := by
  intro before rest split
  cases before <;> cases split

theorem unsuccessful_cons {edit : Edit} :
    c.Unsuccessful (edit :: edits) ↔ (edit = .build → ∀ r, c.build.1 ≠ .ok r) ∧
      (c.apply edit).Unsuccessful edits := by
  constructor
  · intro h
    refine ⟨fun here => h [] edits (by rw [here]; rfl), fun before rest split => ?_⟩
    exact h (edit :: before) rest (by rw [split]; rfl)
  · rintro ⟨first, later⟩ before rest split
    cases before with
    | nil =>
      cases split
      exact first rfl
    | cons _ before =>
      cases split
      exact later before rest rfl

/-- A build that fails keeps what was kept before. -/
theorem cache_of_failed (failed : ∀ r, c.build.1 ≠ .ok r) : c.build.2.cache = c.cache := by
  rcases c.build_outcome with ⟨-, heq⟩ | ⟨-, cx, -, ⟨-, heq⟩ | ⟨-, heq⟩⟩
  · rw [heq]
  · rw [heq]
  · exact (failed _ (congrArg Prod.fst heq)).elim

/-- What is kept and the sources are all that edits other than builds work on. -/
theorem foldl_apply_congr {c c' : Compilation} (cache : c'.cache = c.cache)
    (sources : c'.sources = c.sources) (idle : .build ∉ edits) :
    (edits.foldl apply c').cache = (edits.foldl apply c).cache ∧
      (edits.foldl apply c').sources = (edits.foldl apply c).sources := by
  induction edits generalizing c c' with
  | nil => exact ⟨cache, sources⟩
  | cons edit rest ih =>
    have later : .build ∉ rest := fun member => idle (.tail _ member)
    cases edit with
    | add s => exact ih cache (congrArg (Table.insert · s.name s) sources) later
    | remove name =>
      exact ih (congrArg (Table.erase · name) cache) (congrArg (Table.erase · name) sources) later
    | invalidate name => exact ih (congrArg (Table.erase · name) cache) sources later
    | build => exact (idle (.head _)).elim

/-- What a build takes over depends on what is kept and on the sources. -/
theorem reuse_congr {c c' : Compilation} (cache : c'.cache = c.cache) (sources : c'.sources = c.sources) :
    c'.reusable = c.reusable ∧ ∀ s, c'.restored? s = c.restored? s := by
  have cached (s : Source) : c'.cached? s = c.cached? s := by rw [cached?, cached?, cache]
  refine ⟨?_, fun s => by rw [restored?, restored?, cached]⟩
  simp only [reusable, cached, sources]

/-- An edit that is no successful build forgets at most what it is to forget. -/
theorem get?_cache_apply (distinct : c.cache.keys.Nodup) {edit : Edit}
    (failed : edit = .build → ∀ r, c.build.1 ≠ .ok r) (name : String) :
    (c.apply edit).cache.get? name = if edit.forgets name then none else c.cache.get? name := by
  cases edit with
  | add s => rfl
  | remove n | invalidate n =>
    refine (Table.get?_erase distinct n name).trans ?_
    simp only [Edit.forgets, decide_eq_true_eq]
  | build => exact congrArg (Table.get? · name) (cache_of_failed (failed rfl))

/-- Edits without a successful build forget what one of them is to forget, and nothing else. -/
theorem Orderly.get?_cache_foldl (h : c.Orderly config) (failed : c.Unsuccessful edits)
    (name : String) : (edits.foldl Compilation.apply c).cache.get? name
      = if edits.any (Edit.forgets name) then none else c.cache.get? name := by
  induction edits generalizing c with
  | nil => rfl
  | cons edit rest ih =>
    obtain ⟨first, later⟩ := unsuccessful_cons.1 failed
    rw [List.foldl_cons, ih (h.apply edit) later, get?_cache_apply h.distinctCache first, List.any_cons]
    cases edit.forgets name <;> simp

/-- The history up to the last build that succeeds, and what follows it. -/
structure LastSuccess (config : Config) (edits earlier since : List Edit) : Prop where
  split : edits = earlier ++ .build :: since
  succeeded : ∃ r, (after config earlier).build.1 = .ok r
  failed : (after config earlier).build.2.Unsuccessful since

/-- There is a last build that succeeds unless all fail. -/
theorem lastSuccess_or_unsuccessful (c : Compilation) (edits : List Edit) :
    (∃ earlier since, edits = earlier ++ .build :: since ∧ (∃ r, (earlier.foldl apply c).build.1 = .ok r) ∧
      (earlier.foldl apply c).build.2.Unsuccessful since) ∨ c.Unsuccessful edits := by
  induction edits generalizing c with
  | nil => exact Or.inr c.unsuccessful_nil
  | cons edit rest ih =>
    rcases ih (c.apply edit) with ⟨earlier, since, rfl, succeeded, failed⟩ | failed
    · exact Or.inl ⟨edit :: earlier, since, rfl, succeeded, failed⟩
    · by_cases first : edit = .build ∧ ∃ r, c.build.1 = .ok r
      · obtain ⟨rfl, succeeded⟩ := first
        exact Or.inl ⟨[], rest, rfl, succeeded, failed⟩
      · refine Or.inr (unsuccessful_cons.2 ⟨fun here r ok => first ⟨here, r, ok⟩, failed⟩)

/-- The source was there in a build with the same content, and its unit was not forgotten since. -/
def Unchanged (built : Compilation) (since : List Edit) (s : Source) : Prop :=
  (∃ t ∈ built.sources.values, t.name = s.name ∧ t.content = s.content) ∧
    ∀ edit ∈ since, edit.forgets s.name = false

instance (built : Compilation) (since : List Edit) : DecidablePred (Unchanged built since) := fun s =>
  inferInstanceAs (Decidable ((∃ t ∈ built.sources.values, t.name = s.name ∧ t.content = s.content) ∧
    ∀ edit ∈ since, edit.forgets s.name = false))

variable {r : BuildReport}

/-- A successful build keeps what its sources have. -/
theorem Orderly.exists_get?_build_iff (h : c.Orderly config) (ok : c.build.1 = .ok r)
    {content : Except String (List UInt8)} :
    (∃ entry, c.build.2.cache.get? name = some entry ∧ content = .ok entry.content) ↔
      ∃ t ∈ c.sources.values, t.name = name ∧ t.content = content := by
  obtain ⟨cx, rfl, clear, heq, -⟩ := run_of_ok ok
  rw [heq]
  constructor
  · rintro ⟨entry, found, rfl⟩
    obtain ⟨t, member, named, read, -⟩ := h.exists_kept clear found
    exact ⟨t, member, named, read⟩
  · rintro ⟨t, member, rfl, rfl⟩
    obtain ⟨index, held⟩ := List.mem_iff_getElem?.1 member
    obtain ⟨-, entry, -, -, found, read, -, -⟩ := h.kept clear held
    exact ⟨entry, found, read⟩

theorem isSome_cached?_iff :
    (c.cached? s).isSome = true ↔ ∃ entry, c.cache.get? s.name = some entry ∧
    s.content = .ok entry.content := by
  rw [Option.isSome_iff_exists]
  exact exists_congr fun _ => cached?_eq_some_iff

/-- What a build takes over is what is unchanged since the last build that succeeded. -/
theorem LastSuccess.isSome_cached?_iff {earlier since : List Edit}
    (h : LastSuccess config edits earlier since) (s : Source) :
    ((after config edits).cached? s).isSome = true ↔ Unchanged (after config earlier) since s := by
  obtain ⟨r, ok⟩ := h.succeeded
  have before := orderly_after config earlier
  have led : after config edits = since.foldl apply (after config earlier).build.2 := by
    rw [h.split, after, List.foldl_append]
    rfl
  rw [Compilation.isSome_cached?_iff, led]
  simp only [before.build.get?_cache_foldl h.failed]
  unfold Unchanged
  cases forgotten : since.any (Edit.forgets s.name) with
  | true =>
    obtain ⟨edit, member, forgets⟩ := List.any_eq_true.1 forgotten
    simp only [if_true, reduceCtorEq, false_and, exists_false, false_iff]
    rintro ⟨-, spared⟩
    rw [spared edit member] at forgets
    cases forgets
  | false =>
    have spared : ∀ edit ∈ since, edit.forgets s.name = false := by simpa using forgotten
    simp only [Bool.false_eq_true, if_false, before.exists_get?_build_iff ok]
    exact (and_iff_left spared).symm

theorem reusable_of_unsuccessful
    (failed : ({ config := config } : Compilation).Unsuccessful edits) :
    (after config edits).reusable = 0 := by
  rw [reusable, List.length_eq_zero_iff, List.filter_eq_nil_iff]
  intro s _ cached
  obtain ⟨entry, found, -⟩ := Compilation.isSome_cached?_iff.1 cached
  have kept := (orderly_after config []).get?_cache_foldl failed s.name
  rw [show edits.foldl apply (after config []) = after config edits from rfl, found] at kept
  split at kept <;> cases kept

/-! ### A build that follows a successful one -/

theorem shared_context (c : Compilation) (store : ClassStore) :
    c.context.shared = (Context.start c.config store).shared := by
  obtain ⟨retained, heq⟩ := c.context_eq
  rw [heq]
  rfl

theorem multinames_context (c : Compilation) : c.context.registry.multinames = .empty := by
  obtain ⟨retained, heq⟩ := c.context_eq
  rw [heq]
  rfl

theorem extends_of_ok (ok : c.build.1 = .ok r) :
    (c.scheduler.run c.context).2.store.Extends c.build.2.store := by
  obtain ⟨cx, rfl, -, heq, -⟩ := run_of_ok ok
  rw [heq]
  exact extends_startGeneration _

theorem bytecodeOf_congr {slots slots' : List SourceSlot}
    (h : slots'.map (fun slot => (slot.source, slot.unit.map BuildUnit.bytes))
      = slots.map fun slot => (slot.source, slot.unit.map BuildUnit.bytes)) :
    bytecodeOf slots' = bytecodeOf slots := by
  have told (slots : List SourceSlot) : bytecodeOf slots
      = Table.ofList ((slots.map fun slot => (slot.source, slot.unit.map BuildUnit.bytes)).filterMap
        fun slot => slot.2.map fun bytes => (slot.1.name, bytes)) := by
    rw [bytecodeOf, List.filterMap_map]
    congr 2
    funext slot
    simp [Option.map_map, Function.comp_def]
  rw [told, told, h]

section

variable (h : c.Orderly config) (ok : c.build.1 = .ok r)
include h ok

/-- The next build takes over what the slots of a successful build have in the end. -/
theorem Orderly.summary_build :
    c.build.2.context.sources.map SourceSlot.summary
      = (c.scheduler.run c.context).2.sources.map SourceSlot.summary := by
  obtain ⟨cx, rfl, clear, heq, -⟩ := run_of_ok ok
  obtain ⟨retained, started⟩ := c.build.2.context_eq
  rw [started, c.build_frame.2.2, List.map_map]
  refine List.ext_getElem? fun index => ?_
  rw [List.getElem?_map, List.getElem?_map]
  cases held : c.sources.values[index]? with
  | none =>
    rw [← c.sources_context, ← (Scheduler.run_advances h.plain c.context).sources, List.getElem?_map,
      Option.map_eq_none_iff] at held
    rw [held]
    rfl
  | some s =>
    obtain ⟨u, entry, ended, source, found, read, info, bytes⟩ := h.kept clear held
    have cached : c.build.2.cached? s = some entry := cached?_eq_some_iff.2 ⟨by rw [heq]; exact found, read⟩
    obtain ⟨v, restored, info', source', -, bytes'⟩ := restored?_of_cached cached
    rw [ended]
    simp [SourceSlot.summary, BuildUnit.exports, restored, info', info, source', source, bytes', bytes]

/-- The next build starts from what a successful build has left. -/
theorem Orderly.resumes : c.scheduler.Resumes c.context c.build.2.context where
  shared := by rw [shared_context _ {}, shared_context _ {}, c.build_frame.1]
  multinames := by rw [multinames_context, multinames_context]
  stored₁ := c.stored_context
  stored₂ := c.build.2.stored_context
  opened₁ := h.opened
  opened₂ := h.build.opened
  store := (extends_of_ok ok).trans c.build.2.extends_context
  summary := h.summary_build ok

theorem Orderly.reusable_build : c.build.2.reusable = c.sources.size := by
  have all : ∀ s ∈ c.sources.values, (c.build.2.cached? s).isSome = true := fun s member =>
    Compilation.isSome_cached?_iff.2 ((h.exists_get?_build_iff ok).2 ⟨s, member, rfl, rfl⟩)
  rw [reusable, c.build_frame.2.2, List.filter_eq_self.2 all, Table.values, List.length_map, Table.size]

/-- The classes of a successful build are published by the next one, if it reports them. -/
theorem Orderly.published_again {r' : BuildReport} (ok' : c.build.2.build.1 = .ok r')
    (same : r'.classes = r.classes) (member : name ∈ r.classes.keys) :
    ∃ d, c.published? name = some d ∧ c.build.2.published? name = some d := by
  obtain ⟨cx, rfl, clear, -, rfl⟩ := run_of_ok ok
  obtain ⟨order, start, succeeds⟩ := Scheduler.exists_succeeds h.plain h.opened clear
  obtain ⟨id, found⟩ := Option.isSome_iff_exists.1 ((Table.isSome_get? _ _).2 member)
  obtain ⟨d, hd⟩ := (succeeds.tidy h.plain c.stored_context).1.held name id found
  have left := (extends_of_ok ok).descriptors id d hd
  refine ⟨d, ?_, ?_⟩
  · rw [published?_eq ok, found, Option.bind_some, left]
  · rw [published?_eq ok', same, found, Option.bind_some, h.build.extends_build.descriptors id d left]

/-- A build that follows a successful one takes over all units and gives the same result.  It reports the
    clashes again, and nothing else. -/
theorem Orderly.build_again :
    ∃ r', c.build.2.build.1 = .ok r' ∧ r'.reused = c.sources.size ∧ r'.classes = r.classes ∧
      r'.bytecode = r.bytecode ∧ r'.diagnostics = r.diagnostics.filter fun d => d.message.isClash := by
  obtain ⟨-, scheduler, sources⟩ := c.build_frame
  obtain ⟨filled, -⟩ := c.build_ok_iff_errors.1 ⟨r, ok⟩
  obtain ⟨cx₁, rfl, clear, -, report⟩ := run_of_ok ok
  obtain ⟨clear₂, shared, log, bytes⟩ := Scheduler.run_resumed (h.resumes ok) h.plain clear
  obtain ⟨r', ok'⟩ := c.build.2.build_ok_iff_errors.2
    ⟨sources ▸ filled, (Context.hasErrors_eq_false_iff _).1 (scheduler ▸ clear₂)⟩
  obtain ⟨cx₂, run₂, -, -, report'⟩ := run_of_ok ok'
  rw [scheduler] at run₂
  subst run₂
  have clashes : ∀ d ∈ (c.scheduler.run c.build.2.context).2.log.entries, d.message.isClash = true := by
    rw [log_context] at log
    exact fun d member => (log.entries member).resolve_left List.not_mem_nil
  refine ⟨r', ok', ?_, ?_, ?_, ?_⟩ <;> simp only [report, report', reportOf]
  · exact h.reusable_build ok
  · exact congrArg SharedTables.classes shared
  · exact bytecodeOf_congr bytes
  · exact (List.filter_eq_self.2 clashes).symm.trans (congrArg SharedTables.clashes shared)

end

/-- In any history, a build takes over the units that are unchanged since the last build that succeeded, and
    none if none did.  A build that fails changes neither what is kept nor what the next build takes over.  A
    build that follows a successful one succeeds, takes over all units and gives the same classes and the
    same bytecode, and of the reports it repeats those of what two sources declare. -/
theorem reuse_follows_history (config : Config) (edits : List Edit) :
    (∀ r, (after config edits).build.1 = .ok r →
      (∀ earlier since, LastSuccess config edits earlier since →
        r.reused
          = ((after config edits).sources.values.filter (Unchanged (after config earlier) since)).length) ∧
      ((∀ earlier since, ¬LastSuccess config edits earlier since) → r.reused = 0)) ∧
    (∀ e, (after config edits).build.1 = .error e →
      (after config edits).build.2.cache = (after config edits).cache ∧
      ∀ more, .build ∉ more →
        (after config (edits ++ .build :: more)).reusable = (after config (edits ++ more)).reusable ∧
        ∀ s, (after config (edits ++ .build :: more)).restored? s
          = (after config (edits ++ more)).restored? s) ∧
    ∀ r, (after config edits).build.1 = .ok r → ∃ r', (after config (edits ++ [.build])).build.1 = .ok r' ∧
      r'.reused = (after config edits).sources.size ∧ r'.classes = r.classes ∧
      (∀ name ∈ r.classes.keys, ∃ d, (after config edits).published? name = some d ∧
        (after config (edits ++ [.build])).published? name = some d) ∧
      r'.bytecode = r.bytecode ∧ r'.diagnostics = r.diagnostics.filter fun d => d.message.isClash := by
  have orderly := orderly_after config edits
  have next (more : List Edit) : after config (edits ++ .build :: more)
      = more.foldl apply (after config edits).build.2 := List.foldl_append
  have skipped (more : List Edit) : after config (edits ++ more) = more.foldl apply (after config edits) :=
    List.foldl_append
  refine ⟨fun r ok => ⟨fun earlier since last => ?_, fun never => ?_⟩, fun e failed => ?_, fun r ok => ?_⟩
  · obtain ⟨cx, -, -, -, rfl⟩ := run_of_ok ok
    refine congrArg List.length (List.filter_congr fun s _ => ?_)
    rw [Bool.eq_iff_iff, decide_eq_true_eq]
    exact last.isSome_cached?_iff s
  · obtain ⟨cx, -, -, -, rfl⟩ := run_of_ok ok
    rcases lastSuccess_or_unsuccessful { config := config } edits with ⟨earlier, since, split, succeeded,
      failed⟩ | failed
    · exact (never earlier since ⟨split, succeeded, failed⟩).elim
    · exact reusable_of_unsuccessful failed
  · have kept := cache_of_failed fun r ok => by cases failed.symm.trans ok
    refine ⟨kept, fun more idle => ?_⟩
    rw [next, skipped]
    obtain ⟨cache, sources⟩ := foldl_apply_congr kept (after config edits).build_frame.2.2 idle
    exact reuse_congr cache sources
  · obtain ⟨r', ok', reused, classes, bytecode, diagnostics⟩ := orderly.build_again ok
    rw [next]
    exact ⟨r', ok', reused, classes, fun name member => orderly.published_again ok ok' classes member,
      bytecode, diagnostics⟩

/-- Two sources have a class of one name, and the supertype of a third class is not there. -/
def overlapping : List Edit := [.add library, .add (base "z"), .add view]

/-- One unit is forgotten, and a source that cannot be decoded is added. -/
def spoiled : List Edit := [.invalidate "view.abc", .add ⟨"broken.abc", "", Mime.abc, .ok [16, 0]⟩]

/-- A build fails, and the source that cannot be decoded is removed. -/
def repaired : List Edit := spoiled ++ [.build, .remove "broken.abc"]

theorem reuse_follows_history_repaired :
    LastSuccess {} (overlapping ++ .build :: repaired) overlapping repaired ∧
      (∃ e, (after {} (overlapping ++ .build :: spoiled)).build.1 = .error e) ∧
      (after {} (overlapping ++ .build :: spoiled)).build.2.cache
        = (after {} (overlapping ++ .build :: spoiled)).cache ∧
      ∃ r r', (after {} (overlapping ++ .build :: repaired)).build.1 = .ok r ∧ r.reused = 2 ∧
        (after {} (overlapping ++ .build :: repaired ++ [.build])).build.1 = .ok r' ∧ r'.reused = 3 ∧
        r'.classes = r.classes ∧ r'.bytecode = r.bytecode ∧
        r'.diagnostics = r.diagnostics.filter fun d => d.message.isClash := by
  obtain ⟨first, second, third, counted, size⟩ : (after {} overlapping).build.1.isOk = true ∧
      (after {} (overlapping ++ .build :: spoiled)).build.1.isOk = false ∧
      (after {} (overlapping ++ .build :: repaired)).build.1.isOk = true ∧
      ((after {} (overlapping ++ .build :: repaired)).sources.values.filter
        (Unchanged (after {} overlapping) repaired)).length = 2 ∧
      (after {} (overlapping ++ .build :: repaired)).sources.size = 3 := by
    decide +kernel
  have result {c : Compilation} : (c.build.1.isOk = true → ∃ r, c.build.1 = .ok r) ∧
      (c.build.1.isOk = false → ∃ e, c.build.1 = .error e) := by
    cases c.build.1 with
    | ok r => exact ⟨fun _ => ⟨r, rfl⟩, nofun⟩
    | error e => exact ⟨nofun, fun _ => ⟨e, rfl⟩⟩
  obtain ⟨e, failed⟩ := result.2 second
  obtain ⟨r, ok⟩ := result.1 third
  have last : LastSuccess {} (overlapping ++ .build :: repaired) overlapping repaired := by
    refine ⟨rfl, result.1 first, ?_⟩
    refine unsuccessful_cons.2 ⟨nofun,
      unsuccessful_cons.2 ⟨nofun, unsuccessful_cons.2 ⟨fun _ r ok => ?_, ?_⟩⟩⟩
    · have ok : (after {} (overlapping ++ .build :: spoiled)).build.1 = .ok r := ok
      rw [failed] at ok
      cases ok
    · exact unsuccessful_cons.2 ⟨nofun, unsuccessful_nil _⟩
  obtain ⟨-, unharmed, -⟩ := reuse_follows_history {} (overlapping ++ .build :: spoiled)
  obtain ⟨accounted, -, again⟩ := reuse_follows_history {} (overlapping ++ .build :: repaired)
  obtain ⟨r', ok', reused, classes, -, bytecode, diagnostics⟩ := again r ok
  exact ⟨last, ⟨e, failed⟩, (unharmed e failed).1, r, r', ok,
    ((accounted r ok).1 _ _ last).trans counted, ok', reused.trans size, classes, bytecode, diagnostics⟩

end Compilation

end AbcBuild
