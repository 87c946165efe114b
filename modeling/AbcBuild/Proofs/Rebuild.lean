/-
Module: AbcBuild.Proofs.Rebuild
Purpose: One build of a changing set of sources.  What is kept of earlier builds is what the sources tell, so
  a build succeeds, and publishes, as the current sources tell.
Main exports: Source.ReadAlike, Edit.Steady, CacheEntry.Keeps, Compilation.Sound, Compilation.Sound.build
-/
import AbcBuild.Compilation
import AbcBuild.Proofs.Run

namespace AbcBuild

variable {config : Config} {entry : CacheEntry} {s : Source}

/-! ### Sources of one name -/

/-- If both sources have the same content, they are parsed in the same way. -/
def Source.ReadAlike (config : Config) (s t : Source) : Prop :=
  ∀ bytes, s.content = .ok bytes → t.content = .ok bytes →
    s.mime = t.mime ∧
      (s.mime = Mime.properties → BundleFrontend.localeOf s config.locale = BundleFrontend.localeOf t
        config.locale)

theorem Source.ReadAlike.refl (s : Source) : s.ReadAlike config s := fun _ _ _ => ⟨rfl, fun _ => rfl⟩

/-- Sources that are read alike and have the same content are parsed to the same tree. -/
theorem Source.ReadAlike.tree? {t : Source} {bytes : List UInt8} (h : s.ReadAlike config t)
    (name : t.name = s.name) (content : s.content = .ok bytes) (content' : t.content = .ok bytes) :
    t.tree? config = s.tree? config := by
  obtain ⟨mime, locale⟩ := h bytes content content'
  have read : t.read = s.read := by rw [Source.read, Source.read, content, content']
  have bytecode : AbcFrontend.bytecode t = AbcFrontend.bytecode s := by
    rw [AbcFrontend.bytecode, AbcFrontend.bytecode, read]
  have entries : BundleFrontend.readEntries t = BundleFrontend.readEntries s := by
    rw [BundleFrontend.readEntries, BundleFrontend.readEntries, read]
  have shortName : t.shortName = s.shortName := by rw [Source.shortName, Source.shortName, name]
  unfold Source.tree?
  rw [← mime, bytecode, entries, shortName]
  by_cases properties : s.mime = Mime.properties
  · rw [locale properties]
  · rw [if_neg properties, if_neg properties]

/-! ### Histories -/

/-- What is done with a compilation. -/
inductive Edit where
  | add (source : Source)
  | remove (name : String)
  | invalidate (name : String)
  | build

namespace Edit

/-- The sources that a unit kept under a name may be taken over for: those that are added before the name is
    removed or its unit is forgotten. -/
def added (name : String) : List Edit → List Source
  | [] => []
  | .add s :: rest => if s.name = name then s :: added name rest else added name rest
  | .remove n :: rest | .invalidate n :: rest => if n = name then [] else added name rest
  | .build :: rest => added name rest

/-- The sources that units of the current source of a name may be taken over for: while it is the current
    one, each build may keep a unit of it. -/
def served (name : String) : List Edit → List Source
  | [] => []
  | .add s :: rest => if s.name = name then [] else served name rest
  | .remove n :: rest => if n = name then [] else served name rest
  | .invalidate _ :: rest => served name rest
  | .build :: rest => added name rest ++ served name rest

/-- Each source is parsed like any other that a unit of it may be taken over for, if they have the same
    content. -/
def Steady (config : Config) : List Edit → Prop
  | [] => True
  | .add s :: rest => (∀ t ∈ served s.name rest, s.ReadAlike config t) ∧ Steady config rest
  | _ :: rest => Steady config rest

end Edit

/-! ### What is kept -/

/-- The entry keeps what a part had in the end, in the last of several builds that its unit went through. -/
structure CacheEntry.Keeps (entry : CacheEntry) (builds : List (List (Part config))) (part : Part config)
    (store : ClassStore) : Prop where
  content : part.source.content = .ok entry.content
  topLevel : entry.info.topLevel = part.tree.topLevel
  dependencies : entry.info.dependencies = part.tree.dependencies
  styles : entry.info.styles = part.tree.styles
  bytecode : entry.bytecode = part.bytecode
  classes : ∃ s, part.SeenIn builds s ∧ part.Published s store entry.info.classTable
  frame : ∃ f, entry.info.typeInfo = some f ∧ part.Frames (Part.knownIn builds) f

/-- What is kept of a source stays right as the store grows. -/
theorem CacheEntry.Keeps.mono {builds : List (List (Part config))} {part : Part config}
    {store store' : ClassStore} (h : entry.Keeps builds part store) (more : store.Extends store') :
    entry.Keeps builds part store' :=
  { h with classes := h.classes.imp fun _ shows => ⟨shows.1, shows.2.mono more⟩ }

namespace Compilation

/-- A source that is read like the one an entry comes from starts with a finished unit. -/
theorem finished_of_keeps {past : List (List (Part config))} {part : Part config} {store : ClassStore}
    (h : entry.Keeps past part store) (name : s.name = part.source.name)
    (content : s.content = .ok entry.content)
    (alike : part.source.ReadAlike config s) {u : BuildUnit}
    (restored : u = if entry.bytecode.isEmpty then BuildUnit.ofInfo s entry.info
      else (BuildUnit.ofInfo s entry.info).setBytecode entry.bytecode) (parts : List (Part config))
      (reuses : Prop) :
    ∃ part' : Part config, part'.source = s ∧ part'.Finished (.following parts past reuses) store u ∧
      u.hasTypeInfo = true := by
  obtain ⟨scope, seen, published⟩ := h.classes
  obtain ⟨f, frame, frames⟩ := h.frame
  have more : past ⊆ parts :: past := List.subset_cons_self ..
  have parsed : s.tree? config = some part.tree := (alike.tree? name h.content content).trans part.parsed
  have bytecode : (⟨s, part.tree, parsed⟩ : Part config).bytecode = part.bytecode := by
    unfold Part.bytecode
    rw [content, h.content]
  have classes : (⟨s, part.tree, parsed⟩ : Part config).Published scope store entry.info.classTable := by
    refine ⟨published.keys, fun name' id found => ?_⟩
    obtain ⟨d, hd, named, shows⟩ := published.shows name' id found
    rw [← name] at shows
    exact ⟨d, hd, named, shows⟩
  have seen : (⟨s, part.tree, parsed⟩ : Part config).SeenIn (parts :: past) scope :=
    (seen.mono more).of_tree rfl
  have frames : (⟨s, part.tree, parsed⟩ : Part config).Frames (Part.knownIn (parts :: past)) f :=
    ⟨⟨frames.named, frames.lasts⟩, fun q knows => Part.knownIn_mono more q (frames.within q knows)⟩
  have fits {u : BuildUnit} (source : u.source = s) (info : u.toUnitInfo = entry.info) :
      (⟨s, part.tree, parsed⟩ : Part config).Fits u :=
    ⟨source, info ▸ h.topLevel, info ▸ h.dependencies, info ▸ h.styles⟩
  refine ⟨⟨s, part.tree, parsed⟩, rfl, ?_⟩
  rw [restored]
  split
  next empty =>
    have none : part.bytecode = [] := h.bytecode ▸ List.isEmpty_iff.1 empty
    exact ⟨⟨fits rfl rfl, (bytecode.trans none).symm, ⟨scope, seen, classes⟩, f, frame, frames⟩, rfl⟩
  next =>
    exact ⟨⟨fits rfl rfl, h.bytecode.trans bytecode.symm, ⟨scope, seen, classes⟩, f, frame, frames⟩, rfl⟩

/-- The settings are given, the front ends are the standard ones, and each source stands under its name. -/
structure Keyed (c : Compilation) (config : Config) : Prop where
  settings : c.config = config
  scheduler : c.scheduler = Scheduler.standard
  distinct : c.sources.keys.Nodup
  named : ∀ name s, c.sources.get? name = some s → s.name = name

/-- What is kept comes from parts of earlier builds, and it serves the current sources and those that are
    added in the rest of the history. -/
structure Sound (c : Compilation) (config : Config) (past : List (List Source)) (rest : List Edit) : Prop
    extends c.Keyed config where
  distinctCache : c.cache.keys.Nodup
  sources : ∀ name s, c.sources.get? name = some s → ∀ t ∈ Edit.served name rest, s.ReadAlike config t
  cache : ∀ name entry, c.cache.get? name = some entry → ∃ part : Part config, part.source.name = name ∧
    entry.Keeps (past.map (Part.ofSources config)) part c.store ∧
    ∀ t, c.sources.get? name = some t ∨ t ∈ Edit.added name rest → part.source.ReadAlike config t

/-- The sources of the next build, and of the earlier ones that what it takes over comes from. -/
def origins (c : Compilation) (past : List (List Source)) : List (List Source) :=
  c.sources.values :: if c.reusable = 0 then [] else past

/-- What the next build rests on. -/
def basis (c : Compilation) (config : Config) (past : List (List Source)) : Basis config :=
  .following (Part.ofSources config c.sources.values)
    ((if c.reusable = 0 then [] else past).map (Part.ofSources config)) (c.reusable ≠ 0)

variable {c : Compilation} {past : List (List Source)} {rest : List Edit}

/-- A build starts with a slot for each source, which holds the unit that is restored for it. -/
theorem context_eq (c : Compilation) :
    ∃ retained, c.context = { Context.start c.config c.store with
      retained := retained, sources := c.sources.values.map fun s => ⟨s, c.restored? s⟩ } := by
  have added (sources : List Source) (cx : Context) :
      sources.foldl (fun cx s => cx.addSource s (c.restored? s)) cx
        = { cx with sources := cx.sources ++ sources.map fun s => ⟨s, c.restored? s⟩ } := by
    induction sources generalizing cx with
    | nil => simp
    | cons s rest ih =>
      rw [List.foldl_cons, ih, List.map_cons, List.append_cons]
      rfl
  exact ⟨_, added c.sources.values _⟩

theorem extends_start (config : Config) (store : ClassStore) :
    store.Extends (Context.start config store).store :=
  store.extends_newRegistry

theorem extends_context (c : Compilation) : c.store.Extends c.context.store := by
  obtain ⟨retained, heq⟩ := c.context_eq
  rw [heq]
  exact extends_start c.config c.store

theorem Keyed.get?_name (h : c.Keyed config) (member : s ∈ c.sources.values) :
    c.sources.get? s.name = some s := by
  obtain ⟨⟨name, s⟩, held, rfl⟩ := List.mem_map.1 member
  have current := (Table.get?_eq_some_iff h.distinct).2 held
  rw [h.named name s current]
  exact current

theorem Keyed.names (h : c.Keyed config) : c.sources.values.map Source.name = c.sources.keys :=
  Table.map_values h.distinct h.named

/-- What is kept serves a source of the same name and content. -/
theorem cached?_eq_some_iff :
    c.cached? s = some entry ↔ c.cache.get? s.name = some entry ∧ s.content = .ok entry.content := by
  unfold cached? Source.read
  cases s.content with
  | error cause => simp
  | ok bytes => simp [Option.filter_eq_some_iff, @eq_comm _ bytes]

theorem reusable_ne_zero (member : s ∈ c.sources.values) (cached : c.cached? s = some entry) :
    c.reusable ≠ 0 := by
  have counted : s ∈ c.sources.values.filter fun s => (c.cached? s).isSome :=
    List.mem_filter.2 ⟨member, by rw [cached, Option.isSome_some]⟩
  exact (List.length_pos_of_mem counted).ne'

theorem reusable_eq_zero (fresh : c.cache.isEmpty = true) : c.reusable = 0 := by
  have none : c.cache = .empty := congrArg Table.mk (List.isEmpty_iff.1 fresh)
  rw [reusable, List.length_eq_zero_iff, List.filter_eq_nil_iff]
  intro s _ cached
  obtain ⟨entry, held⟩ := Option.isSome_iff_exists.1 cached
  have found := (cached?_eq_some_iff.1 held).1
  rw [none] at found
  cases found

theorem alone_basis (config : Config) (past : List (List Source)) (fresh : c.reusable = 0) :
    (c.basis config past).Alone where
  isOpen := Basis.following_open _ _ _
  known := by
    intro q ever
    rw [basis, if_pos fresh] at ever
    exact Part.knownIn_singleton _ ▸ ever
  new := fun reuses => reuses fresh

/-- A unit that is restored is one that the basis of the build lets its part keep. -/
theorem Sound.restored (h : c.Sound config past rest) (member : s ∈ c.sources.values) {u : BuildUnit}
    (restored : c.restored? s = some u) :
    ∃ part : Part config, part.source = s ∧ part.Kept (c.basis config past) c.store u := by
  obtain ⟨entry, cached, rfl⟩ := Option.map_eq_some_iff.1 restored
  obtain ⟨found, content⟩ := cached?_eq_some_iff.1 cached
  obtain ⟨part, name, keeps, alike⟩ := h.cache _ entry found
  have reuses := reusable_ne_zero member cached
  rw [basis, if_neg reuses]
  obtain ⟨part', source, finished, kept⟩ := finished_of_keeps keeps name.symm content
    (alike s (Or.inl (h.get?_name member))) rfl (Part.ofSources config c.sources.values) (c.reusable ≠ 0)
  exact ⟨part', source, finished, kept, reuses⟩

/-- A build starts with the current sources and with units that are as good as new. -/
theorem Sound.opens (h : c.Sound config past rest) :
    c.context.Opens (c.basis config past) c.sources.values := by
  obtain ⟨retained, heq⟩ := c.context_eq
  have more := extends_start c.config c.store
  rw [heq]
  refine ⟨h.settings, rfl, rfl, rfl, rfl, rfl, rfl, ?_, ?_, ?_, Basis.following_open _ _ _, ?_⟩
  · rw [h.names]
    exact h.distinct
  · rintro parts same
    rw [← Part.ofSources_map_source parts, same]
    rfl
  · rw [List.map_map]
    exact List.map_id _
  · intro slot member u hu
    obtain ⟨s, hs, rfl⟩ := List.mem_map.1 member
    obtain ⟨part, source, kept⟩ := h.restored hs hu
    exact ⟨part, source, { kept with toFinished := kept.toFinished.mono more }⟩

/-! ### A build -/

/-- The report of a build that came to its end. -/
def reportOf (c : Compilation) (cx : Context) : BuildReport where
  classes := cx.registry.classes
  diagnostics := cx.log.entries
  bytecode := bytecodeOf cx.sources
  reused := c.reusable

/-- What a build comes to. -/
theorem build_outcome (c : Compilation) :
    (c.sources.isEmpty = true ∧ c.build = (.error .noSources, c)) ∨
      c.sources.isEmpty = false ∧ ∃ cx, (c.scheduler.run c.context).2 = cx ∧
        ((cx.hasErrors = true ∧ c.build = (.error (.failed cx.log.errors cx.log.entries),
            { c with store := cx.store, events := c.events ++ cx.events })) ∨
          (cx.hasErrors = false ∧ c.build = (.ok (c.reportOf cx), { c with
            store := cx.startGeneration.store, events := c.events ++ cx.events, cache :=
            cacheOf cx.sources }))) := by
  unfold build
  cases filled : c.sources.isEmpty with
  | true => exact Or.inl ⟨rfl, rfl⟩
  | false =>
    have completed := c.scheduler.run_completed c.context
    refine Or.inr ⟨rfl, _, rfl, ?_⟩
    cases ran : c.scheduler.run c.context with
    | mk outcome cx =>
      rw [ran] at completed
      have completed : outcome.completed = !cx.hasErrors := completed
      cases failed : cx.hasErrors with
      | true => exact Or.inl ⟨rfl, by simp [completed, failed]⟩
      | false => exact Or.inr ⟨rfl, by simp [completed, failed, reportOf]⟩

/-- A build succeeds if the current sources make one. -/
theorem build_cases (h : c.Sound config past rest) (filled : c.sources.isEmpty = false) :
    ∃ cx, (c.scheduler.run c.context).2 = cx ∧ c.store.Extends cx.store ∧
      ((∃ l, (c.basis config past).parts.map Part.source = c.sources.values ∧
          Part.Builds (c.basis config past).parts l ∧ cx.Completed (c.basis config past) l ∧
          c.build = (.ok (c.reportOf cx), { c with
            store := cx.startGeneration.store, events := c.events ++ cx.events, cache :=
            cacheOf cx.sources })) ∨
        ((∀ (parts : List (Part config)) l, parts.map Part.source = c.sources.values →
        ¬Part.Builds parts l) ∧
          ∃ error, c.build = (.error error,
          { c with store := cx.store, events := c.events ++ cx.events }))) := by
  have ends := Scheduler.run_eq h.opens
  have more := (Scheduler.run_advances Scheduler.plain_standard c.context).store
  rcases c.build_outcome with ⟨empty, -⟩ | ⟨-, cx, run, outcome⟩
  · cases filled.symm.trans empty
  · rw [← h.scheduler, run] at ends more
    refine ⟨cx, run, c.extends_context.trans more, ?_⟩
    rcases ends with ⟨l, sources, builds, finished⟩ | ⟨failed, never⟩
    · rcases outcome with ⟨failed, -⟩ | ⟨-, heq⟩
      · cases failed.symm.trans finished.follows.ok
      · exact Or.inl ⟨l, sources, builds, finished, heq⟩
    · rcases outcome with ⟨-, heq⟩ | ⟨ok, -⟩
      · exact Or.inr ⟨never, _, heq⟩
      · cases failed.symm.trans ok

theorem build_frame (c : Compilation) :
    c.build.2.config = c.config ∧ c.build.2.scheduler = c.scheduler ∧ c.build.2.sources = c.sources := by
  unfold build
  split
  · exact ⟨rfl, rfl, rfl⟩
  · dsimp only
    split <;> exact ⟨rfl, rfl, rfl⟩

theorem extends_startGeneration (cx : Context) : cx.store.Extends cx.startGeneration.store :=
  cx.store.extends_startGeneration cx.registry

variable {cx : Context} {b : Basis config} {l : Ledger config}

theorem slot_of_completed (h : cx.Completed b l) {slot : SourceSlot} (member : slot ∈ cx.sources) :
    ∃ part ∈ b.parts, ∃ u, slot = ⟨part.source, some u⟩ ∧ part.Ended b cx.store u := by
  obtain ⟨index, found⟩ := List.mem_iff_getElem?.1 member
  have bound : index < b.parts.length := h.units.1 ▸ (List.getElem?_eq_some_iff.1 found).1
  obtain ⟨-, here, u, rfl, ended⟩ := h.units.2 index _ (List.getElem?_eq_getElem bound)
  rw [found] at here
  cases here
  exact ⟨_, List.getElem_mem bound, u, rfl, ended⟩

/-- What is kept of a build that came to its end is what its parts had. -/
theorem cacheOf_keeps {parts : List (Part config)} {past : List (List (Part config))} {reuses : Prop}
    (h : cx.Completed (.following parts past reuses) l) {name : String}
    (found : (cacheOf cx.sources).get? name = some entry) :
    ∃ part ∈ parts, part.source.name = name ∧ entry.Keeps (parts :: past) part cx.store := by
  obtain ⟨slot, member, made⟩ := List.mem_filterMap.1 (Table.mem_of_get?_insertAll found)
  obtain ⟨part, hpart, u, rfl, finished⟩ := slot_of_completed h member
  refine ⟨part, hpart, ?_⟩
  unfold cacheEntry? Source.read at made
  cases content : part.source.content with
  | error cause => simp [content] at made
  | ok bytes =>
    simp only [content, finished.done, if_true, Option.some.injEq, Prod.mk.injEq] at made
    obtain ⟨rfl, rfl⟩ := made
    exact ⟨rfl, content, finished.fits.topLevel, finished.fits.dependencies, finished.fits.styles,
      finished.bytes, finished.classes, finished.frame⟩

/-- A build keeps what serves the current sources and those that are added later.  If it succeeds, all of it
    has been through this build. -/
theorem Sound.build (h : c.Sound config past (.build :: rest)) :
    c.build.2.Sound config (if c.build.1.isOk then c.origins past else past) rest := by
  obtain ⟨settings, scheduler, held⟩ := c.build_frame
  have keyed : c.build.2.Keyed config :=
    ⟨settings.trans h.settings, scheduler.trans h.scheduler, held ▸ h.distinct, held ▸ h.named⟩
  have serves : ∀ name s, c.build.2.sources.get? name = some s →
      ∀ t ∈ Edit.served name rest, s.ReadAlike config t := by
    intro name s found t later
    rw [held] at found
    exact h.sources name s found t (List.mem_append_right _ later)
  cases filled : c.sources.isEmpty with
  | true =>
    have idle : c.build = (.error .noSources, c) := by
      unfold Compilation.build
      rw [if_pos filled]
    rw [idle] at keyed serves ⊢
    exact ⟨keyed, h.distinctCache, serves, h.cache⟩
  | false =>
    obtain ⟨cx, -, more, ⟨l, sources, -, finished, build⟩ | ⟨-, error, build⟩⟩ := build_cases h filled
    · rw [build] at keyed serves ⊢
      refine ⟨keyed, Table.nodup_keys_insertAll (t := .empty) List.nodup_nil _, serves,
        fun name entry found => ?_⟩
      obtain ⟨part, hpart, rfl, keeps⟩ := cacheOf_keeps finished found
      refine ⟨part, rfl, keeps.mono (extends_startGeneration cx), fun t ht => ?_⟩
      have current := h.get?_name (sources ▸ List.mem_map_of_mem hpart)
      rcases ht with same | later
      · cases Option.some.inj (current.symm.trans same)
        exact .refl _
      · exact h.sources _ _ current t (List.mem_append_left _ later)
    · rw [build] at keyed serves ⊢
      refine ⟨keyed, h.distinctCache, serves, fun name entry found => ?_⟩
      obtain ⟨part, named, keeps, alike⟩ := h.cache name entry found
      exact ⟨part, named, keeps.mono more, alike⟩

/-- A build succeeds exactly if there are sources and they make one. -/
theorem Sound.build_ok_iff (h : c.Sound config past rest) :
    (∃ r, c.build.1 = .ok r) ↔ c.sources.isEmpty = false ∧
    ∃ (parts : List (Part config)) (l : Ledger config),
      parts.map Part.source = c.sources.values ∧ Part.Builds parts l := by
  cases filled : c.sources.isEmpty with
  | true =>
    have refused : c.build.1 = .error .noSources := by
      unfold Compilation.build
      rw [if_pos filled]
    simp [refused]
  | false =>
    obtain ⟨cx, -, -, ⟨l, sources, builds, -, build⟩ | ⟨never, error, build⟩⟩ := build_cases h filled
    · exact ⟨fun _ => ⟨rfl, _, l, sources, builds⟩, fun _ => ⟨c.reportOf cx, by rw [build]⟩⟩
    · constructor
      · rintro ⟨r, ok⟩
        rw [build] at ok
        cases ok
      · rintro ⟨-, parts, l, sources, builds⟩
        exact (never parts l sources builds).elim

/-- The bytecode of a completed build is that of its parts, each under the name of its source. -/
theorem bytecodeOf_eq (h : cx.Completed b l) :
    bytecodeOf cx.sources = Table.ofList (b.parts.map fun part => (part.source.name, part.bytecode)) := by
  have slots := h.units.forall₂
  unfold bytecodeOf
  congr 1
  generalize cx.sources = sources, b.parts = parts at slots
  clear h
  induction slots with
  | nil => rfl
  | cons here _ ih =>
    obtain ⟨-, -, rfl, u, rfl, finished⟩ := here
    rw [List.filterMap_cons, ih]
    simp [finished.bytes]

/-- A build that succeeds has come to its end, and the report tells what it has published then. -/
theorem Sound.build_completed (h : c.Sound config past rest) {r : BuildReport} (ok : c.build.1 = .ok r) :
    ∃ (l : Ledger config) (cx : Context), (c.basis config past).parts.map Part.source = c.sources.values ∧
      Part.Builds (c.basis config past).parts l ∧ (c.scheduler.run c.context).2 = cx ∧
      cx.Completed (c.basis config past) l ∧ r = c.reportOf cx ∧
        c.build.2.store = cx.startGeneration.store := by
  obtain ⟨filled, -⟩ := h.build_ok_iff.1 ⟨r, ok⟩
  obtain ⟨cx, run, -, ⟨l, sources, builds, finished, build⟩ | ⟨-, error, build⟩⟩ := build_cases h filled
  · rw [build] at ok
    cases ok
    exact ⟨l, cx, sources, builds, run, finished, rfl, by rw [build]⟩
  · rw [build] at ok
    cases ok

/-- The report of a build is told by its parts. -/
theorem Sound.build_report (h : c.Sound config past rest) {r : BuildReport} (ok : c.build.1 = .ok r) :
    ∃ l, (c.basis config past).parts.map Part.source = c.sources.values ∧
      Part.Builds (c.basis config past).parts l ∧
      r.bytecode = Table.ofList ((c.basis config past).parts.map fun part =>
        (part.source.name, part.bytecode)) ∧
      Ledger.Lists (c.basis config past) l.classes c.build.2.store r.classes := by
  obtain ⟨l, cx, sources, builds, -, finished, rfl, store⟩ := h.build_completed ok
  refine ⟨l, sources, builds, bytecodeOf_eq finished, ?_⟩
  rw [store]
  exact finished.follows.classes.mono (extends_startGeneration cx)

end Compilation

end AbcBuild
