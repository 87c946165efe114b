/-
Module: AbcBuild.Proofs.Exports
Purpose: What a unit adds to the tables that the units of a build share.  It is told by what the unit exports
  (its classes, styles and definitions) and by what is there already, reports of what two sources declare
  included.
Main exports: publishStyles_shared, Exports, Context.Exported, Frontend.step_exported
-/
import AbcBuild.Proofs.Steps
import AbcBuild.Proofs.Registration

namespace AbcBuild

/-! ### Styles -/

/-- With the styles of a source.  The first conflict is reported. -/
def SharedTables.mergeStyles (b : SharedTables) (source : String) (styles : StyleTable) : SharedTables :=
  (StyleTable.addAll b.styles styles).2.elim { b with styles := (StyleTable.addAll b.styles styles).1 }
    fun conflict =>
    { b with
      styles := (StyleTable.addAll b.styles styles).1
      failed := b.failed || decide (b.config.styleSeverity = .error)
      clashes := b.clashes ++ if b.config.styleSeverity = .warning ∧ b.showWarnings = false then []
        else [⟨b.config.styleSeverity, conflict.message, some source, 0, 0⟩] }

/-- Publishing the styles of a unit adds them to the shared tables, and does nothing else to these. -/
theorem publishStyles_shared (u : BuildUnit) (cx : Context) :
    (publishStyles u cx).shared = cx.shared.mergeStyles u.source.name u.styles := by
  have same : (cx.registry.registerStyles u.styles).2 = (StyleTable.addAll cx.shared.styles u.styles).2 :=
    rfl
  simp only [publishStyles, SharedTables.mergeStyles, same]
  cases (StyleTable.addAll cx.shared.styles u.styles).2 with
  | none => rfl
  | some conflict => exact Context.shared_report _ _ _ rfl

/-! ### Bundles -/

namespace Registry

/-- Registering a bundle depends only on the definitions and on the sources of bundles, and `bundleNames` is
    all else that it changes. -/
theorem registerBundle_congr (r r' : Registry) (definitions : r'.definitions = r.definitions)
    (bundles : r'.bundleSources = r.bundleSources) (key : String) (names : List QName) (source : String) :
    ∃ bundleNames, r'.registerBundle key names source = ({ r' with
      definitions := (r.registerBundle key names source).1.definitions
      bundleSources := (r.registerBundle key names source).1.bundleSources
      bundleNames := bundleNames }, (r.registerBundle key names source).2) := by
  have defined : r'.definedIn? = r.definedIn? := congrArg Table.get? definitions
  have refused : r'.bundleRefusal? source key names = r.bundleRefusal? source key names := by
    unfold bundleRefusal? refusal? free
    rw [bundles, defined]
  have noted : r'.admitted source key names = r.admitted source key names := by
    unfold admitted free
    rw [bundles, defined]
  rw [registerBundle_eq, registerBundle_eq, refused, noted]
  cases r.bundleRefusal? source key names with
  | some e => exact ⟨r'.bundleNames, by simp only [noting, definitions, bundles]⟩
  | none => exact ⟨r'.bundleNames.insert key names, by simp only [noting, definitions, bundles]⟩

end Registry

namespace SharedTables

/-- A registry with the definitions and the bundles of the shared tables. -/
def registry (b : SharedTables) : Registry where
  untyped := default
  definitions := b.definitions
  bundleSources := b.bundles
  generation := default

/-- With a bundle of a source, unless it is refused; the answer tells whether it is. -/
def registerBundle (b : SharedTables) (key : String) (names : List QName) (source : String) :
    Bool × SharedTables :=
  ((b.registry.registerBundle key names source).2.isSome,
    { b with
      definitions := (b.registry.registerBundle key names source).1.definitions
      bundles := (b.registry.registerBundle key names source).1.bundleSources
      failed := b.failed || (b.registry.registerBundle key names source).2.isSome })

end SharedTables

namespace Context

/-- An error that is not about a clash makes the build fail and leaves the shared tables alone. -/
theorem shared_error (cx : Context) (source : Option String) {message : Message}
    (h : message.isClash = false) :
    (cx.report .error source message).shared = { cx.shared with failed := true } := by
  unfold Context.shared
  rw [hasErrors_error]
  simp only [report, Log.report, Log.showWarnings_add, Log.entries_add, List.filter_append]
  simp [h]

end Context

/-! ### What a unit publishes -/

/-- What a unit exports: all that publishing reads of it. -/
structure Exports where
  source : Source
  topLevel : List QName
  styles : StyleTable
  classes : Table String ClassId

/-- The shared tables after a unit has published. -/
def SharedTables.addExports (b : SharedTables) (store : ClassStore) (format : InputFormat) (d : Exports) :
    SharedTables :=
  match format with
  | .abc => (b.announce store d.source.name d.classes.entries).mergeStyles d.source.name d.styles
  | .properties =>
    let (refused, b) :=
      b.registerBundle (BundleFrontend.bundleKey d.source b.config.locale) d.topLevel d.source.name
    if refused then b else b.announce store d.source.name d.classes.entries

/-- If the exports are accepted, their classes are added to those that are shared. -/
theorem SharedTables.classes_addExports (b : SharedTables) {store : ClassStore} {format : InputFormat}
    {d : Exports} (ok : (b.addExports store format d).failed = false) :
    (b.addExports store format d).classes = b.classes.insertAll d.classes.entries := by
  cases format with
  | abc =>
    unfold SharedTables.addExports SharedTables.mergeStyles
    cases (StyleTable.addAll (b.announce store d.source.name d.classes.entries).styles d.styles).2 <;> rfl
  | properties =>
    unfold SharedTables.addExports at ok ⊢
    generalize BundleFrontend.bundleKey d.source b.config.locale = key at ok ⊢
    have failed : (b.registerBundle key d.topLevel d.source.name).2.failed
        = (b.failed || (b.registerBundle key d.topLevel d.source.name).1) := rfl
    cases refused : (b.registerBundle key d.topLevel d.source.name).1 with
    | true =>
      rw [refused, Bool.or_true] at failed
      simp only [refused, if_true] at ok
      cases ok.symm.trans failed
    | false =>
      simp only [refused, Bool.false_eq_true, if_false]
      rfl

namespace BuildUnit

def exports (u : BuildUnit) : Exports := ⟨u.source, u.topLevel, u.styles, u.classTable⟩

/-- The table of the unit lists classes of its source. -/
abbrev Tidy (u : BuildUnit) (store : ClassStore) : Prop := store.Tidy u.source.name u.classTable

/-- The unit is ready to publish: it is taken over, or it comes from the front end and has published
    nothing. -/
structure Proper (u : BuildUnit) (format : InputFormat) (store : ClassStore) :
    Prop extends u.Tidy store where
  fresh : u.hasTypeInfo = false → u.classTable = .empty ∧ u.tree.map ParseTree.format = some format

variable {u u' : BuildUnit} {format : InputFormat} {store store' : ClassStore}

/-- The phases that do not publish leave the exports of a unit as they are. -/
theorem Rests.exports (h : u.Rests format u') : u'.exports = u.exports := by
  unfold BuildUnit.exports
  rw [h.source, h.topLevel, h.styles, h.classTable]

theorem Tidy.of_exports (h : u.Tidy store) (exports : u'.exports = u.exports) : u'.Tidy store := by
  have classes : u'.classTable = u.classTable := congrArg Exports.classes exports
  have source : u'.source = u.source := congrArg Exports.source exports
  rw [Tidy, classes, source]
  exact h

theorem Rests.tidy (h : u.Rests format u') (tidy : u.Tidy store) (more : store.Extends store') :
    u'.Tidy store' :=
  Tidy.of_exports (tidy.mono more) h.exports

theorem Rests.proper (h : u.Rests format u') (proper : u.Proper format store) (more : store.Extends store') :
    u'.Proper format store' where
  toTidy := h.tidy proper.toTidy more
  fresh := fun new => by
    rw [h.classTable, h.tree]
    exact proper.fresh (h.kept ▸ new)

end BuildUnit

/-- A unit has published: its table is in order, and the shared tables are as its exports tell. -/
structure Context.Exported (cx : Context) (format : InputFormat) (u : BuildUnit) (cx' : Context) : Prop where
  tidy : u.Tidy cx'.store
  stored : cx'.Stored
  shared : ∀ store, cx'.store.Extends store → cx'.shared = cx.shared.addExports store format u.exports

/-- A unit that has not failed has registered its table. -/
theorem Context.Exported.classes {cx cx' : Context} {format : InputFormat} {u : BuildUnit}
    (h : cx.Exported format u cx') (ok : cx'.hasErrors = false) :
    cx'.registry.classes = cx.registry.classes.insertAll u.classTable.entries := by
  have shared := h.shared cx'.store (.refl _)
  have clear : (cx.shared.addExports cx'.store format u.exports).failed = false := shared ▸ ok
  exact (congrArg SharedTables.classes shared).trans (cx.shared.classes_addExports clear)

/-- A unit that is taken over publishes the same again, and reports only clashes unless it fails. -/
structure Context.Repeats (cx : Context) (u u' : BuildUnit) (cx' : Context) : Prop where
  exports : u'.exports = u.exports
  evolves : cx'.hasErrors = false → cx.Evolves Diagnostic.IsClash cx'

theorem Context.evolves_typeTable (kind : Diagnostic → Prop) (cx : Context) :
    cx.Evolves kind cx.typeTable.2 := by
  cases made : cx.registry.typeTable <;> simp only [typeTable, Registry.currentTable, made] <;>
    exact ⟨rfl, rfl, .refl _, .refl _ _⟩

namespace AbcFrontend

variable {u : BuildUnit} {cx : Context}

/-- Classes are published and styles merged; besides, there are only remarks. -/
theorem exported_of_publishes {cx₀ cx₁ cx₂ : Context} {table : TypeTable} {entries : List (String × ClassId)}
    (before : cx.Remarks cx₀) (publishes : cx₀.Publishes u.source.name table entries cx₁)
    (lists : cx₁.store.Lists u.source.name entries) (after : (publishStyles u cx₁).Remarks cx₂)
    (stored : cx.Stored) :
    cx₂.store.Lists u.source.name entries ∧ cx₂.Stored ∧ ∀ store, cx₂.store.Extends store →
      cx₂.shared = (cx.shared.announce store u.source.name entries).mergeStyles u.source.name u.styles := by
  obtain ⟨styles, -, classes⟩ := publishStyles_clashes u cx₁
  have more := styles.store.trans after.store
  have merged := (publishes.stored (before.stored stored)).congr classes styles.store
  refine ⟨lists.mono more, after.stored merged, fun store final => ?_⟩
  rw [after.shared, publishStyles_shared, before.shared.symm,
    publishes.shared (before.stored stored) store (more.trans final) (lists.mono (more.trans final))]

/-- A unit that is taken over exports what it did, and publishing it again repeats it. -/
theorem publish_again (tidy : u.Tidy cx.store) (stored : cx.Stored) (kept : u.hasTypeInfo = true) :
    cx.Exported .abc (publish [] u cx).1 (publish [] u cx).2 ∧
      cx.Repeats u (publish [] u cx).1 (publish [] u cx).2 := by
  have table := cx.remarks_typeTable
  obtain ⟨cx₁, published, publishes⟩ :=
    publishTable_publishes cx.typeTable.1 tidy.distinct (tidy.mono table.store).names
  obtain ⟨loader, store, heq, searched⟩ := publish_kept kept published
  obtain ⟨lists, held, shared⟩ := exported_of_publishes table publishes
    (tidy.lists.mono (table.store.trans publishes.store)) searched stored
  rw [heq]
  refine ⟨⟨⟨tidy.distinct, lists⟩, held, shared⟩, rfl, fun _ => ?_⟩
  exact ((cx.evolves_typeTable _).trans publishes.clashes).trans
    ((publishStyles_clashes u cx₁).1.trans ⟨rfl, rfl, searched.store, .refl _ _⟩)

/-- A new unit exports what it publishes, as long as no error has been reported. -/
theorem publish_first (stored : cx.Stored) (new : u.hasTypeInfo = false) (ok : cx.hasErrors = false)
    (empty : u.classTable = .empty) (format : u.tree.map ParseTree.format = some .abc) :
    cx.Exported .abc (publish [] u cx).1 (publish [] u cx).2 := by
  have table := cx.remarks_typeTable
  obtain ⟨program, held⟩ := u.exists_program format
  obtain ⟨entries, cx₁, loader, store, publishes, searched, heq⟩ :=
    publishProgram_eq cx.typeTable.1 (table.log.hasErrors_eq.trans ok)
  obtain ⟨lists, stored', shared⟩ := exported_of_publishes (table.trans (describing_remarks u _ program))
    publishes.toPublishes (publishes.lists (described_origins u _ program))
    (searched.trans (reports_remarks _ program u.source.name u.scratch.unresolved)) stored
  rw [publish_new new held, heq, empty]
  refine ⟨ClassStore.tidy_of_lists lists, stored', fun store final => ?_⟩
  rw [shared store final, ← SharedTables.announce_insertAll stored.distinct]
  rfl

end AbcFrontend

namespace BundleFrontend

variable {u : BuildUnit} {cx : Context}

/-- The shared tables with the bundle of a unit. -/
def withBundle (u : BuildUnit) (cx : Context) : Bool × SharedTables :=
  cx.shared.registerBundle (bundleKey u.source cx.config.locale) u.topLevel u.source.name

/-- A bundle is registered as the shared tables tell. -/
theorem registered_eq (u : BuildUnit) (cx : Context) :
    ∃ bundleNames, (registered u cx).1 = { cx.registry with
        definitions := (withBundle u cx).2.definitions
        bundleSources := (withBundle u cx).2.bundles
        bundleNames := bundleNames } ∧
      (withBundle u cx).1 = (registered u cx).2.isSome := by
  obtain ⟨bundleNames, heq⟩ := Registry.registerBundle_congr cx.shared.registry cx.registry rfl rfl
    (bundleKey u.source cx.config.locale) u.topLevel u.source.name
  exact ⟨bundleNames, congrArg Prod.fst heq, (congrArg (fun made => made.2.isSome) heq).symm⟩

theorem registered_idles (u : BuildUnit) (cx : Context) :
    cx.Idles { cx with registry := (registered u cx).1 } ∧
      (cx.Stored → Context.Stored { cx with registry := (registered u cx).1 }) := by
  obtain ⟨bundleNames, heq, -⟩ := registered_eq u cx
  rw [heq]
  exact ⟨{ Context.Idles.refl cx with }, fun stored => { stored with }⟩

/-- A bundle that the registry refuses is refused by the shared tables, with the same outcome. -/
theorem addExports_refused {e : RegistryError} (refused : (registered u cx).2 = some e)
    (store : ClassStore) :
    cx.shared.addExports store .properties u.exports
      = (Context.report { cx with registry := (registered u cx).1 } .error (some u.source.name)
        e.message).shared := by
  have other : e.message.isClash = false := by cases e <;> rfl
  obtain ⟨bundleNames, heq, told⟩ := registered_eq u cx
  rw [refused, Option.isSome_some] at told
  rw [Context.shared_error _ _ other, heq]
  refine (if_pos told).trans ?_
  have failed : (cx.shared.failed || (withBundle u cx).1) = true := by rw [told, Bool.or_true]
  exact congrArg (fun failed => ({ (withBundle u cx).2 with failed := failed } : SharedTables)) failed

/-- A bundle that the registry accepts is accepted by the shared tables. -/
theorem addExports_accepted (accepted : (registered u cx).2 = none) (store : ClassStore)
    (classes : Table String ClassId) :
    cx.shared.addExports store .properties { u.exports with classes := classes }
      = (opened u cx).2.shared.announce store u.source.name classes.entries := by
  obtain ⟨bundleNames, heq, told⟩ := registered_eq u cx
  rw [accepted, Option.isSome_none] at told
  rw [opened, (Context.remarks_typeTable _).shared, heq]
  refine (if_neg (ne_true_of_eq_false told)).trans ?_
  have failed : (cx.shared.failed || (withBundle u cx).1) = cx.shared.failed := by rw [told, Bool.or_false]
  exact congrArg (fun failed => SharedTables.announce { (withBundle u cx).2 with failed := failed }
    store u.source.name classes.entries) failed

/-- A bundle exports what it publishes, whether it is new or taken over. -/
theorem publish_exported (proper : u.Proper .properties cx.store) (stored : cx.Stored) :
    cx.Exported .properties (publish [] u cx).1 (publish [] u cx).2 ∧
      (u.hasTypeInfo = true → cx.Repeats u (publish [] u cx).1 (publish [] u cx).2) := by
  have noted := (registered_idles u cx).2 stored
  cases answer : (registered u cx).2 with
  | some e =>
    rw [publish_refused answer]
    refine ⟨⟨proper.toTidy, { noted with }, fun later _ => (addExports_refused answer later).symm⟩,
      fun _ => ⟨rfl, fun ok => ?_⟩⟩
    cases ok.symm.trans (Context.hasErrors_error _ _ _)
  | none =>
    have table : Context.Remarks { cx with registry := (registered u cx).1 } (opened u cx).2 :=
      Context.remarks_typeTable _
    have start := table.stored noted
    cases kept : u.hasTypeInfo with
    | true =>
      obtain ⟨cx₁, published, publishes⟩ :=
        publishTable_publishes (opened u cx).1 proper.distinct (proper.toTidy.mono table.store).names
      have evolves : cx.Evolves Diagnostic.IsClash (opened u cx).2 :=
        { Context.evolves_typeTable Diagnostic.IsClash { cx with registry := (registered u cx).1 } with }
      have lists := proper.lists.mono (table.store.trans publishes.store)
      rw [publish_kept answer kept, published]
      refine ⟨⟨⟨proper.distinct, lists⟩, publishes.stored start, fun store final => ?_⟩,
        fun _ => ⟨rfl, fun _ => evolves.trans publishes.clashes⟩⟩
      exact (publishes.shared start store final (lists.mono final)).trans
        (addExports_accepted answer store _).symm
    | false =>
      obtain ⟨empty, format⟩ := proper.fresh kept
      obtain ⟨file, held⟩ := u.exists_properties format
      obtain ⟨entries, cx₁, publishes, heq⟩ := publish_new answer kept held
      have lists := publishes.lists fun d member => List.mem_singleton.1 member ▸ rfl
      rw [heq, empty]
      refine ⟨⟨ClassStore.tidy_of_lists lists, publishes.stored start, fun store final => ?_⟩,
        fun other => by cases other⟩
      rw [publishes.shared start store final (lists.mono final),
        ← SharedTables.announce_insertAll start.distinct]
      exact (addExports_accepted answer store _).symm

end BundleFrontend

/-- In the phase that publishes, the shared tables are told by what the unit has in the end. -/
theorem Frontend.step_exported {f : Frontend} (plain : f.extensions = []) {u : BuildUnit} (cx : Context)
    (proper : u.Proper f.format cx.store) (stored : cx.Stored) (ok : cx.hasErrors = false) :
    cx.Exported f.format (f.step .analyze4 u cx).1 (f.step .analyze4 u cx).2 ∧
      (u.hasTypeInfo = true → cx.Repeats u (f.step .analyze4 u cx).1 (f.step .analyze4 u cx).2) := by
  rw [f.step_publishes u ok, plain]
  cases format : f.format with
  | abc =>
    rw [format] at proper
    cases kept : u.hasTypeInfo with
    | true =>
      obtain ⟨exported, again⟩ := AbcFrontend.publish_again proper.toTidy stored kept
      exact ⟨exported, fun _ => again⟩
    | false =>
      obtain ⟨empty, format⟩ := proper.fresh kept
      exact ⟨AbcFrontend.publish_first stored kept ok empty format, fun other => by cases other⟩
  | properties => exact BundleFrontend.publish_exported (format ▸ proper) stored

end AbcBuild
