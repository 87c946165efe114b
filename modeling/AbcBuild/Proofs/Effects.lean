/-
Module: AbcBuild.Proofs.Effects
Purpose: What the steps of a build do to what its units share.  Whatever a step does, descriptors stay as
  they are, frozen ones stay frozen, and the answers that the registry keeps stay coherent.
Main exports: ClassStore.Extends, Facts, publishStyles_becomes, findLoaderBase_remarks
-/
import AbcBuild.Frontend.Abc
import AbcBuild.Proofs.Publication
import AbcBuild.Proofs.Records

namespace AbcBuild

/-! ### Descriptors stay -/

namespace ClassStore

/-- Every descriptor stays at its place, and frozen if it was. -/
structure Extends (s s' : ClassStore) : Prop where
  descriptors : ∀ id d, s.descriptor? id = some d → s'.descriptor? id = some d
  frozen : ∀ id, s.isFrozen id = true → s'.isFrozen id = true

variable {s s' s'' : ClassStore}

theorem Extends.refl (s : ClassStore) : s.Extends s := ⟨fun _ _ h => h, fun _ h => h⟩

theorem Extends.trans (h : s.Extends s') (h' : s'.Extends s'') : s.Extends s'' where
  descriptors := fun id d hd => h'.descriptors id d (h.descriptors id d hd)
  frozen := fun id hid => h'.frozen id (h.frozen id hid)

/-- What classes remember of their supertypes is neither a descriptor nor a freeze. -/
theorem Extends.of_unlinked (h : s'.unlinked = s.unlinked) : s.Extends s' where
  descriptors := fun id _ held => (descriptor?_of_unlinked h id).trans held
  frozen := fun id frozen => (isFrozen_of_unlinked h id).trans frozen

theorem descriptor?_modify (s : ClassStore) (id : ClassId) {change : ClassRecord → ClassRecord}
    (same : ∀ r, (change r).descriptor = r.descriptor) (id' : ClassId) :
    (s.modify id change).descriptor? id' = s.descriptor? id' := by
  simp only [descriptor?, get?, modify, List.getElem?_modify]
  cases s.records[id']? with
  | none => rfl
  | some r => by_cases here : id = id' <;> simp [here, same]

/-- A change to a record that keeps its descriptor and undoes no freeze. -/
theorem extends_modify (s : ClassStore) (id : ClassId) {change : ClassRecord → ClassRecord}
    (same : ∀ r, (change r).descriptor = r.descriptor) (stays : ∀ r, r.frozen = true →
      (change r).frozen = true) :
    s.Extends (s.modify id change) where
  descriptors := by
    intro id' d hd
    rw [descriptor?_modify s id same]
    exact hd
  frozen := by
    intro id' frozen
    obtain ⟨r, held, hr⟩ := (Option.any_eq_true _ _).1 frozen
    have held : s.records[id']? = some r := held
    rw [isFrozen, get?, modify, List.getElem?_modify, held]
    by_cases here : id = id'
    · simpa [here] using stays r hr
    · simpa [here] using hr

theorem extends_freeze (s : ClassStore) (id : ClassId) : s.Extends (s.freeze id) :=
  extends_modify s id (fun _ => rfl) fun _ _ => rfl

theorem extends_bind (s : ClassStore) (id : ClassId) (table : TypeTable) : s.Extends (s.bind id table) :=
  extends_modify s id (fun _ => rfl) fun _ h => h

theorem extends_unbind (s : ClassStore) (id : ClassId) : s.Extends (s.unbind id) :=
  extends_modify s id (fun _ => rfl) fun _ h => h

theorem extends_tick (s : ClassStore) : s.Extends s.tick.2 := ⟨fun _ _ h => h, fun _ h => h⟩

theorem isFrozen_freeze {id : ClassId} {d : ClassDescriptor} (h : s.descriptor? id = some d) :
    (s.freeze id).isFrozen id = true := by
  obtain ⟨r, held, -⟩ := Option.map_eq_some_iff.1 h
  have held : s.records[id]? = some r := held
  simp [isFrozen, get?, freeze, modify, held]

/-- A new class gets an identity that no other had. -/
theorem extends_add (s : ClassStore) (d : ClassDescriptor) : s.Extends (s.add d).2 := by
  have kept (id : ClassId) (r : ClassRecord) (held : s.get? id = some r) : (s.add d).2.get? id = some r := by
    have within : id < s.records.length := (List.getElem?_eq_some_iff.1 held).1
    simp only [get?, add, List.getElem?_append_left within]
    exact held
  constructor
  · intro id d' hd
    obtain ⟨r, held, rfl⟩ := Option.map_eq_some_iff.1 hd
    rw [descriptor?, kept id r held]
    rfl
  · intro id frozen
    obtain ⟨r, held, hr⟩ := (Option.any_eq_true _ _).1 frozen
    rw [isFrozen, kept id r held]
    exact hr

theorem extends_newRegistry (s : ClassStore) : s.Extends s.newRegistry.2 :=
  (s.extends_add _).trans ((extends_freeze _ _).trans (extends_tick _))

theorem extends_startGeneration (s : ClassStore) (r : Registry) : s.Extends (s.startGeneration r).2 := by
  have unbound (ids : List ClassId) (s : ClassStore) : s.Extends (ids.foldl unbind s) := by
    induction ids generalizing s with
    | nil => exact .refl _
    | cons id rest ih => exact (s.extends_unbind id).trans (ih _)
  exact (unbound r.classes.values s).trans (extends_tick _)

@[simp] theorem descriptor?_add (s : ClassStore) (d : ClassDescriptor) :
    (s.add d).2.descriptor? (s.add d).1 = some d := by
  simp [descriptor?, get?, add]

/-- The class at this place is published for good with this descriptor. -/
structure Publishes (s : ClassStore) (id : ClassId) (d : ClassDescriptor) : Prop where
  descriptor : s.descriptor? id = some d
  frozen : s.isFrozen id = true

/-- A class that is published stays so as the store grows. -/
theorem Publishes.mono {id : ClassId} {d : ClassDescriptor} (h : s.Publishes id d) (more : s.Extends s') :
    s'.Publishes id d :=
  ⟨more.descriptors id d h.descriptor, more.frozen id h.frozen⟩

end ClassStore

/-- The search for a factory only makes classes remember their supertypes. -/
theorem unlinked_firstFactory (view : Hierarchy.View) (ids : List ClassId) (store : ClassStore) :
    (firstFactory view ids store).2.unlinked = store.unlinked := by
  induction ids generalizing store with
  | nil => rfl
  | cons id rest ih =>
    have first : (inheritedFactory view store id).2.unlinked = store.unlinked := by
      have up := Hierarchy.unlinked_superType view store id
      unfold inheritedFactory
      split
      next none => rw [none] at up; exact up
      next base store' found =>
        rw [found] at up
        exact (Hierarchy.unlinked_inheritedTags view store' base _ _).trans up
    rw [firstFactory]
    split
    next factory store' found => rw [found] at first; exact first
    next store' none => rw [none] at first; exact (ih store').trans first

theorem extends_firstFactory (view : Hierarchy.View) (ids : List ClassId) (store : ClassStore) :
    store.Extends (firstFactory view ids store).2 := .of_unlinked (unlinked_firstFactory view ids store)

/-! ### What the units of a build share -/

/-- What later phases and the result of a build rely on, besides the descriptors. -/
structure Facts where
  config : Config
  sources : List SourceSlot
  definitions : Table QName String
  bundles : Table String String
  styles : StyleTable
  classes : Table String ClassId
  failed : Bool

namespace Context

def facts (cx : Context) : Facts where
  config := cx.config
  sources := cx.sources
  definitions := cx.registry.definitions
  bundles := cx.registry.bundleSources
  styles := cx.registry.styles
  classes := cx.registry.classes
  failed := cx.hasErrors

/-- A step leads to these facts. -/
structure Becomes (cx : Context) (facts : Facts) (cx' : Context) : Prop where
  facts : cx'.facts = facts
  store : cx.store.Extends cx'.store
  coherent : cx'.registry.Coherent

variable {cx cx' cx'' : Context} {facts facts' : Facts}

theorem Becomes.refl (h : cx.registry.Coherent) : cx.Becomes cx.facts cx :=
  ⟨rfl, ClassStore.Extends.refl _, h⟩

theorem Becomes.trans (h : cx.Becomes facts cx') (h' : cx'.Becomes facts' cx'') : cx.Becomes facts' cx'' :=
  ⟨h'.facts, h.store.trans h'.store, h'.coherent⟩

/-- A step that changes no facts may follow. -/
theorem Becomes.keep (h : cx.Becomes facts cx') (h' : cx'.Becomes cx'.facts cx'') : cx.Becomes facts cx'' :=
  ⟨h'.facts.trans h.facts, h.store.trans h'.store, h'.coherent⟩

/-- A report makes a build fail just if it is an error. -/
@[simp] theorem hasErrors_report (cx : Context) (severity : Severity) (source : Option String)
    (message : Message) :
    (cx.report severity source message).hasErrors = (cx.hasErrors || decide (severity = .error)) := by
  unfold hasErrors report Log.report Log.add Log.hasErrors
  cases severity with
  | error | info => simp
  | warning => dsimp only; split <;> simp

@[simp] theorem hasErrors_error (cx : Context) (source : Option String) (message : Message) :
    (cx.report .error source message).hasErrors = true :=
  (cx.hasErrors_report .error source message).trans (Bool.or_true _)

/-- A report changes no facts but whether the build has failed. -/
theorem becomes_report (h : cx.registry.Coherent) (severity : Severity) (source : Option String)
    (message : Message) :
    cx.Becomes { cx.facts with failed := cx.hasErrors || decide (severity = .error) }
      (cx.report severity source message) := by
  refine ⟨?_, ClassStore.Extends.refl _, h⟩
  unfold facts
  rw [hasErrors_report]
  rfl

theorem becomes_error (h : cx.registry.Coherent) (source : Option String) (message : Message) :
    cx.Becomes { cx.facts with failed := true } (cx.report .error source message) := by
  have reported := becomes_report h .error source message
  rw [show (cx.hasErrors || decide (Severity.error = Severity.error)) = true from Bool.or_true _] at reported
  exact reported

/-- What every step leaves alone: the settings, the slots of the sources, and the descriptors that are there.
    Diagnostics of a kind may be added to the log. -/
structure Evolves (cx : Context) (kind : Diagnostic → Prop) (cx' : Context) : Prop where
  config : cx'.config = cx.config
  sources : cx'.sources = cx.sources
  store : cx.store.Extends cx'.store
  log : cx.log.GrowsBy kind cx'.log

/-- A step that binds no class and stays in the generation. -/
structure Idles (cx cx' : Context) : Prop where
  generation : cx'.registry.generation = cx.registry.generation
  current : cx.registry.Current → cx'.registry.Current
  bound : ∀ id, cx'.store.bound? id = cx.store.bound? id

/-- A step that resolves names, looks for supertypes or warns about one source.  It publishes nothing. -/
structure Remarks (cx cx' : Context) : Prop extends cx.Evolves Diagnostic.IsAside cx', cx.Idles cx' where
  definitions : cx'.registry.definitions = cx.registry.definitions
  bundles : cx'.registry.bundleSources = cx.registry.bundleSources
  styles : cx'.registry.styles = cx.registry.styles
  classes : cx'.registry.classes = cx.registry.classes
  coherent : cx.registry.Coherent → cx'.registry.Coherent

variable {kind kind' : Diagnostic → Prop}

theorem Evolves.refl (kind : Diagnostic → Prop) (cx : Context) : cx.Evolves kind cx :=
  ⟨rfl, rfl, .refl _, .refl _ _⟩

theorem Evolves.trans (h : cx.Evolves kind cx') (h' : cx'.Evolves kind cx'') : cx.Evolves kind cx'' :=
  ⟨h'.config.trans h.config, h'.sources.trans h.sources, h.store.trans h'.store, h.log.trans h'.log⟩

theorem Evolves.imp (h : cx.Evolves kind cx') (weaker : ∀ d, kind d → kind' d) : cx.Evolves kind' cx' :=
  { h with log := h.log.imp weaker }

/-- A report of the given kind is the only change. -/
theorem evolves_report (cx : Context) {severity : Severity} {source : Option String} {message : Message}
    (h : kind ⟨severity, message, source, 0, 0⟩) : cx.Evolves kind (cx.report severity source message) :=
  ⟨rfl, rfl, .refl _, Log.growsBy_add h cx.log⟩

theorem Idles.refl (cx : Context) : cx.Idles cx := ⟨rfl, id, fun _ => rfl⟩

theorem Idles.trans (h : cx.Idles cx') (h' : cx'.Idles cx'') : cx.Idles cx'' :=
  ⟨h'.generation.trans h.generation, fun start => h'.current (h.current start),
    fun id => (h'.bound id).trans (h.bound id)⟩

theorem Remarks.refl (cx : Context) : cx.Remarks cx := ⟨.refl _ cx, .refl cx, rfl, rfl, rfl, rfl, id⟩

theorem Remarks.trans (h : cx.Remarks cx') (h' : cx'.Remarks cx'') : cx.Remarks cx'' :=
  ⟨h.toEvolves.trans h'.toEvolves, h.toIdles.trans h'.toIdles, h'.definitions.trans h.definitions,
    h'.bundles.trans h.bundles, h'.styles.trans h.styles, h'.classes.trans h.classes,
    fun start => h'.coherent (h.coherent start)⟩

/-- Remarks leave the facts of a build as they are. -/
theorem Remarks.becomes (h : cx.Remarks cx') (start : cx.registry.Coherent) : cx.Becomes cx.facts cx' := by
  refine ⟨?_, h.store, h.coherent start⟩
  unfold facts hasErrors
  rw [h.config, h.sources, h.definitions, h.bundles, h.styles, h.classes, h.log.hasErrors_eq]

/-- A warning about anything but a clash is a remark. -/
theorem remarks_warning (cx : Context) (source : Option String) {message : Message}
    (h : message.isClash = false) :
    cx.Remarks (cx.report .warning source message) :=
  ⟨cx.evolves_report ⟨rfl, h⟩, { Idles.refl cx with }, rfl, rfl, rfl, rfl, id⟩

/-- Asking the registry is less than a remark. -/
theorem Asks.remarks (h : cx.Asks cx') : cx.Remarks cx' := by
  have coherent := h.coherent
  obtain ⟨r, rfl, answers, rfl, -⟩ := h
  exact ⟨⟨rfl, rfl, .refl _, .refl _ _⟩, { Idles.refl cx with }, rfl, rfl, rfl, rfl, coherent⟩

/-- Asking for the table of types registers nothing and fails no build. -/
theorem remarks_typeTable (cx : Context) : cx.Remarks cx.typeTable.2 := by
  have idles : cx.Idles cx.typeTable.2 :=
    ⟨cx.registry.generation_currentTable, Registry.Current.currentTable, fun _ => rfl⟩
  revert idles
  cases made : cx.registry.typeTable <;> simp only [typeTable, Registry.currentTable, made] <;>
    exact fun idles => ⟨⟨rfl, rfl, .refl _, .refl _ _⟩, idles, rfl, rfl, rfl, rfl, id⟩

end Context

/-- With these classes, the later of a name in the place of the earlier. -/
def Facts.enter (facts : Facts) (entries : List (String × ClassId)) : Facts :=
  { facts with classes := facts.classes.insertAll entries }

/-- Entries name the descriptors at their places. -/
def Names (store : ClassStore) (entries : List (String × ClassId)) : Prop :=
  ∀ entry ∈ entries, ∃ d, store.descriptor? entry.2 = some d ∧ d.name = entry.1

theorem Names.mono {store store' : ClassStore} {entries : List (String × ClassId)} (h : Names store entries)
    (more : store.Extends store') : Names store' entries := by
  intro entry hentry
  obtain ⟨d, hd, hname⟩ := h entry hentry
  exact ⟨d, more.descriptors _ d hd, hname⟩

/-! ### Styles, loaders and warnings -/

variable (u : BuildUnit) {cx : Context}

/-- Styles are merged, and the build fails on a conflict if the settings call it an error. -/
theorem publishStyles_becomes (h : cx.registry.Coherent) :
    cx.Becomes
      { cx.facts with
        styles := (StyleTable.addAll cx.facts.styles u.styles).1
        failed := cx.facts.failed ||
          ((StyleTable.addAll cx.facts.styles u.styles).2.isSome && decide
          (cx.facts.config.styleSeverity = .error)) }
      (publishStyles u cx) := by
  have merged : cx.Becomes { cx.facts with styles := (StyleTable.addAll cx.facts.styles u.styles).1 }
      { cx with registry := (cx.registry.registerStyles u.styles).1 } := ⟨rfl, ClassStore.Extends.refl _, h⟩
  have same : (cx.registry.registerStyles u.styles).2 = (StyleTable.addAll cx.facts.styles u.styles).2 := rfl
  simp only [publishStyles, same]
  cases (StyleTable.addAll cx.facts.styles u.styles).2 with
  | none =>
    rw [Option.isSome_none, Bool.false_and, Bool.or_false]
    exact merged
  | some conflict =>
    rw [Option.isSome_some, Bool.true_and]
    exact merged.trans (Context.becomes_report merged.coherent _ _ _)

/-- Looking for a loader only changes what classes remember of their supertypes. -/
theorem findLoaderBase_remarks (cx : Context) :
    ∃ store loader, findLoaderBase u cx = ({ u with loaderBase := loader }, { cx with store := store }) ∧
      cx.Remarks { cx with store := store } := by
  have remarks : cx.Remarks
      { cx with store := (firstFactory (cx.viewWith u) u.classTable.values cx.store).2 } :=
    ⟨⟨rfl, rfl, extends_firstFactory _ _ _, .refl _ _⟩,
      ⟨rfl, id, ClassStore.bound?_of_unlinked (unlinked_firstFactory _ _ _)⟩, rfl, rfl, rfl, rfl, id⟩
  unfold findLoaderBase
  simp only
  split
  · exact ⟨_, u.loaderBase, rfl, remarks⟩
  · exact ⟨_, _, rfl, remarks⟩

namespace AbcFrontend

/-- Each vector is warned of, which is a remark. -/
theorem reportVectors_remarks (program : Program) (source : String) (cx : Context) :
    cx.Remarks (reportVectors program source cx) := by
  unfold reportVectors
  split
  next old =>
    clear old
    generalize program.vectorTypes = names
    induction names generalizing cx with
    | nil => exact .refl cx
    | cons name rest ih =>
      have first : cx.Remarks (cx.report .warning (some source)
          (.unsupportedByPlayer name.text vectorPlayer cx.config.targetPlayer)) := cx.remarks_warning _ rfl
      exact first.trans (ih _)
  next => exact .refl cx

theorem isKnown_remarks (name : Name) (cx : Context) : cx.Remarks (isKnown name cx).2 := by
  unfold isKnown
  cases name with
  | qualified q => exact .refl cx
  | multi m =>
    simp only
    split
    · exact .refl cx
    · exact (cx.asks_resolveName (.multi m)).2.remarks

/-- Each name that nothing defines is asked for and warned of, which is a remark. -/
theorem reportUnresolved_remarks (source : String) (seen names : List Name) (cx : Context) :
    cx.Remarks (reportUnresolved source seen names cx) := by
  induction names generalizing seen cx with
  | nil => exact .refl cx
  | cons name rest ih =>
    rw [reportUnresolved]
    split
    · exact ih seen cx
    · have told : cx.Remarks (if (isKnown name cx).1 then (isKnown name cx).2
          else (isKnown name cx).2.report .warning (some source) (.unresolvedType name.text)) := by
        split
        · exact isKnown_remarks name cx
        · exact (isKnown_remarks name cx).trans (Context.remarks_warning _ _ rfl)
      exact told.trans (ih _ _)

end AbcFrontend

end AbcBuild
