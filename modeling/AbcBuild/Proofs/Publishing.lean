/-
Module: AbcBuild.Proofs.Publishing
Purpose: What publishing classes does to what the units of a build share.  Each class is frozen, bound to the
  type table and registered by its name, and the shared tables tell of the classes that it displaces.  What a
  front end publishes is told by that.
Main exports: ClassStore.Lists, SharedTables, BundleFrontend.publish_new, Frontend.step_publishes
-/
import AbcBuild.Proofs.Members
import AbcBuild.Proofs.Part

namespace AbcBuild

variable {entry : String × ClassId} {id : ClassId}

/-! ### Where classes come from -/

namespace ClassStore

variable {store store' : ClassStore} {source : String} {entries : List (String × ClassId)}
  {classes : Table String ClassId}

/-- The source that a class comes from. -/
def origin? (store : ClassStore) (id : ClassId) : Option String :=
  (store.descriptor? id).bind ClassDescriptor.source

theorem Extends.origin? (h : store.Extends store') {d : ClassDescriptor}
    (hd : store.descriptor? id = some d) : store'.origin? id = d.source := by
  rw [ClassStore.origin?, h.descriptors id d hd]
  rfl

/-- The classes have these names, and they come from the source. -/
def Lists (store : ClassStore) (source : String) (entries : List (String × ClassId)) : Prop :=
  ∀ entry ∈ entries, ∃ d, store.descriptor? entry.2 = some d ∧ d.name = entry.1 ∧ d.source = some source

theorem Lists.mono (h : store.Lists source entries) (more : store.Extends store') :
    store'.Lists source entries := by
  intro entry member
  obtain ⟨d, hd, named, own⟩ := h entry member
  exact ⟨d, more.descriptors _ d hd, named, own⟩

theorem Lists.origin? (h : store.Lists source entries) (member : entry ∈ entries) :
    store.origin? entry.2 = some source := by
  obtain ⟨d, hd, -, own⟩ := h entry member
  rw [ClassStore.origin?, hd]
  exact own

/-- The table lists classes of a source by their names. -/
structure Tidy (store : ClassStore) (source : String) (classes : Table String ClassId) : Prop where
  distinct : classes.keys.Nodup
  lists : store.Lists source classes.entries

theorem Tidy.mono (h : store.Tidy source classes) (more : store.Extends store') :
    store'.Tidy source classes :=
  { h with lists := h.lists.mono more }

theorem Tidy.names (h : store.Tidy source classes) : Names store classes.entries := by
  intro entry member
  obtain ⟨d, held, named, -⟩ := h.lists entry member
  exact ⟨d, held, named⟩

theorem tidy_of_lists (lists : store.Lists source entries) :
    store.Tidy source (Table.insertAll .empty entries) := by
  have distinct := Table.nodup_keys_insertAll (t := (.empty : Table String ClassId)) List.nodup_nil entries
  refine ⟨distinct, fun entry member => ?_⟩
  exact lists entry (Table.mem_of_get?_insertAll ((Table.get?_eq_some_iff distinct).2 member))

end ClassStore

/-! ### The shared tables -/

/-- The message tells of what two sources declare. -/
def Diagnostic.IsClash (d : Diagnostic) : Prop := d.message.isClash = true

/-- What the units of a build have published together, and the reports of what two sources declare. -/
structure SharedTables where
  config : Config
  showWarnings : Bool
  definitions : Table QName String
  bundles : Table String String
  styles : StyleTable
  classes : Table String ClassId
  failed : Bool
  clashes : List Diagnostic

namespace SharedTables

/-- The report that a source has another class of a name. -/
def redefinition? (store : ClassStore) (source : String) (classes : Table String ClassId) (name : String) :
    Option Diagnostic :=
  ((classes.get? name).filter fun previous => store.origin? previous ≠ some source).map fun previous =>
    ⟨.warning, .classRedefined name source ((store.origin? previous).getD ""), some source, 0, 0⟩

/-- With the classes of a source.  A name is reported once, if the class that has it comes from another
    source. -/
def announce (b : SharedTables) (store : ClassStore) (source : String) (entries : List (String × ClassId)) :
    SharedTables :=
  { b with
    classes := b.classes.insertAll entries
    clashes := b.clashes ++
      if b.showWarnings then
        (Table.enter [] (entries.map Prod.fst)).filterMap (redefinition? store source b.classes)
      else [] }

variable {store : ClassStore} {source : String}

theorem redefinition?_insert {name : String} (own : store.origin? id = some source)
    (classes : Table String ClassId) (asked : String) :
    redefinition? store source (classes.insert name id) asked
      = if asked ∉ [name] then redefinition? store source classes asked else none := by
  unfold redefinition?
  rw [Table.get?_insert]
  by_cases here : name = asked
  · simp [here, own]
  · rw [if_neg here, if_pos fun member => here (List.mem_singleton.1 member).symm]

/-- Classes of a source are announced one by one. -/
theorem announce_cons (b : SharedTables) (own : store.origin? entry.2 = some source)
    (rest : List (String × ClassId)) :
    b.announce store source (entry :: rest) = (b.announce store source [entry]).announce store
      source rest := by
  have reports : (Table.enter [] ((entry :: rest).map Prod.fst)).filterMap
      (redefinition? store source b.classes) = [entry.1].filterMap (redefinition? store source b.classes) ++
        (Table.enter [] (rest.map Prod.fst)).filterMap
          (redefinition? store source (b.classes.insert entry.1 entry.2)) := by
    have names : Table.enter [] ((entry :: rest).map Prod.fst) = Table.enter [entry.1]
      (rest.map Prod.fst) := rfl
    rw [names, Table.enter_eq, List.filterMap_append, List.filterMap_filter]
    simp only [redefinition?_insert own, decide_eq_true_eq]
  unfold announce
  rw [reports]
  cases b.showWarnings with
  | true => simp only [if_true, List.append_assoc]; rfl
  | false => simp only [Bool.false_eq_true, if_false, List.append_nil]; rfl

/-- To announce classes is to announce the table that they make. -/
theorem announce_insertAll {b : SharedTables} (distinct : b.classes.keys.Nodup) (store : ClassStore)
    (source : String) (entries : List (String × ClassId)) :
    b.announce store source (Table.insertAll .empty entries).entries = b.announce store source entries := by
  have names : Table.enter [] ((Table.insertAll .empty entries).entries.map Prod.fst)
      = Table.enter [] (entries.map Prod.fst) := by
    have keys := Table.keys_insertAll Table.empty entries
    rw [Table.keys] at keys
    rw [keys, Table.enter_enter]
    rfl
  unfold announce
  rw [names, Table.insertAll_insertAll distinct]

end SharedTables

namespace Context

/-- What is published so far. -/
def shared (cx : Context) : SharedTables where
  config := cx.config
  showWarnings := cx.log.showWarnings
  definitions := cx.registry.definitions
  bundles := cx.registry.bundleSources
  styles := cx.registry.styles
  classes := cx.registry.classes
  failed := cx.hasErrors
  clashes := cx.log.entries.filter fun d => d.message.isClash

/-- The registered classes are there. -/
structure Stored (cx : Context) : Prop where
  distinct : cx.registry.classes.keys.Nodup
  held : ∀ name id, cx.registry.classes.get? name = some id → ∃ d, cx.store.descriptor? id = some d

variable {cx cx' cx'' : Context} {source : String} {entries : List (String × ClassId)}

theorem Stored.congr (h : cx.Stored) (classes : cx'.registry.classes = cx.registry.classes)
    (more : cx.store.Extends cx'.store) : cx'.Stored where
  distinct := classes ▸ h.distinct
  held := fun name id known => by
    obtain ⟨d, hd⟩ := h.held name id (classes ▸ known)
    exact ⟨d, more.descriptors id d hd⟩

theorem Remarks.stored (h : cx.Remarks cx') (stored : cx.Stored) : cx'.Stored :=
  stored.congr h.classes h.store

theorem Remarks.shared (h : cx.Remarks cx') : cx'.shared = cx.shared := by
  have clashes : cx'.log.entries.filter (fun d => d.message.isClash)
      = cx.log.entries.filter fun d => d.message.isClash :=
    h.log.keeps (P := fun log => log.entries.filter (fun d => d.message.isClash)
      = cx.log.entries.filter fun d => d.message.isClash) rfl fun log d aside same => by
        rw [Log.entries_add, List.filter_append, same]
        split <;> simp [aside.message]
  unfold Context.shared hasErrors
  rw [h.config, h.log.showWarnings, h.definitions, h.bundles, h.styles, h.classes,
    h.log.hasErrors_eq, clashes]

/-- A clash is on record unless it is a warning that is hidden. -/
theorem shared_report (cx : Context) (severity : Severity) (source : String) {message : Message}
    (h : message.isClash = true) :
    (cx.report severity (some source) message).shared = { cx.shared with
      failed := cx.hasErrors || decide (severity = .error)
      clashes := cx.shared.clashes ++ if severity = .warning ∧ cx.log.showWarnings = false then []
        else [⟨severity, message, some source, 0, 0⟩] } := by
  unfold Context.shared
  rw [hasErrors_report]
  simp only [report, Log.report, Log.showWarnings_add, Log.entries_add, List.filter_append]
  split <;> simp [h]

theorem shared_warning (cx : Context) (source : String) {message : Message} (h : message.isClash = true) :
    (cx.report .warning (some source) message).shared = { cx.shared with
      clashes := cx.shared.clashes ++ if cx.log.showWarnings then [⟨.warning, message, some source, 0, 0⟩]
      else [] } := by
  rw [shared_report cx .warning source h]
  cases cx.log.showWarnings <;> simp [Context.shared]

end Context

/-! ### Publishing classes -/

/-- A warning of a class that two sources declare. -/
structure Diagnostic.IsRedefinition (d : Diagnostic) : Prop where
  severity : d.severity = .warning
  message : d.IsClash

namespace Context

/-- A step publishes classes of a source: they are frozen and bound to the type table, and each is registered
    by the name of its descriptor. -/
structure Publishes (cx : Context) (source : String) (table : TypeTable) (entries : List (String × ClassId))
    (cx' : Context) : Prop extends cx.Evolves Diagnostic.IsRedefinition cx' where
  registry : cx'.registry = { cx.registry with classes := cx.registry.classes.insertAll entries }
  published : ∀ entry ∈ entries, ∃ d, cx'.store.Publishes entry.2 d ∧ d.name = entry.1
  bound : ∀ id, cx'.store.bound? id = if id ∈ entries.map Prod.snd then some table else cx.store.bound? id
  shared : cx.Stored → ∀ store, cx'.store.Extends store → store.Lists source entries →
    cx'.shared = cx.shared.announce store source entries

variable {cx cx' cx'' : Context} {source : String} {table : TypeTable} {entries : List (String × ClassId)}
variable {store : ClassStore}

theorem Publishes.nil (cx : Context) (source : String) (table : TypeTable) :
    cx.Publishes source table [] cx where
  toEvolves := .refl _ cx
  registry := rfl
  published := fun _ none => (List.not_mem_nil none).elim
  bound := fun _ => (if_neg List.not_mem_nil).symm
  shared := fun _ store _ _ => by
    unfold SharedTables.announce
    simp [Table.insertAll, Table.enter]

/-- The registered classes are there after as before. -/
theorem Publishes.stored (h : cx.Publishes source table entries cx') (stored : cx.Stored) : cx'.Stored := by
  refine ⟨by rw [h.registry]; exact Table.nodup_keys_insertAll stored.distinct entries,
    fun name id known => ?_⟩
  rw [h.registry, Table.get?_insertAll] at known
  rcases Option.or_eq_some_iff.1 known with new | ⟨-, old⟩
  · obtain ⟨d, published, -⟩ := h.published (name, id) (List.mem_reverse.1 (Table.mem_of_lookup new))
    exact ⟨d, published.descriptor⟩
  · obtain ⟨d, held⟩ := stored.held name id old
    exact ⟨d, h.store.descriptors id d held⟩

theorem Publishes.cons (h : cx.Publishes source table [entry] cx')
    (h' : cx'.Publishes source table entries cx'') : cx.Publishes source table (entry :: entries) cx'' where
  toEvolves := h.toEvolves.trans h'.toEvolves
  registry := by rw [h'.registry, h.registry]; rfl
  published := fun e member => by
    rcases List.mem_cons.1 member with rfl | later
    · obtain ⟨d, published, named⟩ := h.published e (.head _)
      exact ⟨d, published.mono h'.store, named⟩
    · exact h'.published e later
  bound := fun id => by
    rw [h'.bound, h.bound, List.map_cons, List.map_cons, List.map_nil]
    by_cases later : id ∈ entries.map Prod.snd
    · rw [if_pos later, if_pos (.tail _ later)]
    · simp [later]
  shared := fun stored store final lists => by
    have first : store.Lists source [entry] := fun e member =>
      lists e (List.mem_singleton.1 member ▸ .head _)
    rw [h'.shared (h.stored stored) store final fun e member => lists e (.tail _ member),
      h.shared stored store (h'.store.trans final) first]
    exact (SharedTables.announce_cons _ (lists.origin? (.head _)) entries).symm

/-- Classes may be added to the store before. -/
theorem Publishes.after (more : cx.store.Extends store) (same : ∀ id, store.bound? id = cx.store.bound? id)
    (h : Publishes { cx with store := store } source table entries cx') :
    cx.Publishes source table entries cx' where
  toEvolves := ⟨h.config, h.sources, more.trans h.store, h.log⟩
  registry := h.registry
  published := h.published
  bound := fun id => by rw [h.bound id, same id]
  shared := fun stored => h.shared (stored.congr rfl more)

section

variable (h : cx.Publishes source table entries cx')
include h

/-- Nothing that is published is an error. -/
theorem Publishes.hasErrors : cx'.hasErrors = cx.hasErrors := by
  have same := h.log.errors_eq fun d redefined error => by
    rw [redefined.severity] at error
    cases error
  rw [Context.hasErrors, Context.hasErrors, Log.hasErrors, Log.hasErrors, same]

theorem Publishes.clashes : cx.Evolves Diagnostic.IsClash cx' :=
  h.toEvolves.imp fun _ redefined => redefined.message

theorem Publishes.becomes (coherent : cx.registry.Coherent) :
    cx.Becomes (cx.facts.enter entries) cx' := by
  refine ⟨?_, h.store, ?_⟩
  · unfold Context.facts Facts.enter
    rw [h.config, h.sources, h.hasErrors, h.registry]
  · rw [h.registry]
    exact coherent

end

variable {id : ClassId} {d : ClassDescriptor}

/-- A class is displaced if it comes from another source, as every later store tells. -/
theorem Stored.displaced (h : cx.Stored) (hd : cx.store.descriptor? id = some d)
    (own : d.source = some source) (final : cx.store.Extends store) :
    (cx.registry.registerClass cx.store d.name id).2
      = (cx.registry.classes.get? d.name).filter fun previous => store.origin? previous ≠ some source := by
  unfold Registry.registerClass
  dsimp only
  cases known : cx.registry.classes.get? d.name with
  | none => rfl
  | some previous =>
    obtain ⟨d', hd'⟩ := h.held d.name previous known
    simp only [Option.filter_some, hd', hd, Option.bind_some, own, final.origin? hd']
    by_cases same : previous = id
    · have equal : d' = d := Option.some.inj (hd'.symm.trans (same ▸ hd))
      simp [same, equal, own]
    · simp [same]

/-- The context with a registered class, and with a report of the class that it displaces. -/
def register (cx : Context) (source name : String) (id : ClassId) : Context :=
  (cx.registry.registerClass cx.store name id).2.elim
    { cx with registry := (cx.registry.registerClass cx.store name id).1 }
    fun previous =>
      Context.report { cx with registry := (cx.registry.registerClass cx.store name id).1 } .warning
        (some source) (.classRedefined name source ((cx.store.origin? previous).getD ""))

theorem register_eq (cx : Context) (source name : String) (id : ClassId) :
    ∃ log, cx.register source name id
        = { cx with registry := (cx.registry.registerClass cx.store name id).1, log := log } ∧
      cx.log.GrowsBy Diagnostic.IsRedefinition log := by
  unfold register
  cases (cx.registry.registerClass cx.store name id).2 with
  | none => exact ⟨cx.log, rfl, .refl _ _⟩
  | some previous => exact ⟨_, rfl, Log.growsBy_add ⟨rfl, rfl⟩ cx.log⟩

/-- The shared tables tell of the class that is displaced. -/
theorem Stored.shared_register (stored : cx.Stored) (hd : cx.store.descriptor? id = some d)
    (own : d.source = some source) (final : cx.store.Extends store) :
    (cx.register source d.name id).shared = cx.shared.announce store source [(d.name, id)] := by
  have names : Table.enter [] ([(d.name, id)].map Prod.fst) = [d.name] := rfl
  have displaced := stored.displaced hd own final
  unfold register SharedTables.announce
  rw [names]
  cases found : (cx.registry.registerClass cx.store d.name id).2 with
  | none =>
    have quiet : SharedTables.redefinition? store source cx.shared.classes d.name = none :=
      Option.map_eq_none_iff.2 (displaced.symm.trans found)
    rw [List.filterMap_cons_none quiet, List.filterMap_nil, ite_self, List.append_nil]
    rfl
  | some previous =>
    -- the report names the origin that the store tells now, and a later store tells the same
    have displaced := displaced.symm.trans found
    obtain ⟨d', hd'⟩ := stored.held d.name previous (Option.filter_eq_some_iff.1 displaced).1
    have told : SharedTables.redefinition? store source cx.shared.classes d.name
        = some ⟨.warning, .classRedefined d.name source ((cx.store.origin? previous).getD ""),
          some source, 0, 0⟩ := by
      rw [(ClassStore.Extends.refl cx.store).origin? hd', ← final.origin? hd']
      exact Option.map_eq_some_iff.2 ⟨previous, displaced, rfl⟩
    rw [List.filterMap_cons_some told, List.filterMap_nil]
    exact shared_warning _ source rfl

end Context

variable (table : TypeTable) (u : BuildUnit) (cx : Context)

theorem publishClass_publishes {d : ClassDescriptor} (hd : cx.store.descriptor? id = some d) :
    ∃ cx', publishClass table id u cx
      = ({ u with classTable := u.classTable.insertAll [(d.name, id)] }, cx') ∧
        cx.Publishes u.source.name table [(d.name, id)] cx' := by
  have more : cx.store.Extends ((cx.store.freeze id).bind id table) :=
    (cx.store.extends_freeze id).trans (ClassStore.extends_bind _ id table)
  have here := more.descriptors id d hd
  have frozen : ((cx.store.freeze id).bind id table).isFrozen id = true :=
    (ClassStore.extends_bind _ id table).frozen id (ClassStore.isFrozen_freeze hd)
  have within : id < (cx.store.freeze id).records.length := by
    obtain ⟨record, held, -⟩ := Option.map_eq_some_iff.1 ((cx.store.extends_freeze id).descriptors id d hd)
    exact (List.getElem?_eq_some_iff.1 held).1
  obtain ⟨log, registered, grows⟩ :=
    Context.register_eq { cx with store := (cx.store.freeze id).bind id table } u.source.name d.name id
  refine ⟨{ cx with
      store := (cx.store.freeze id).bind id table
      registry := (cx.registry.registerClass ((cx.store.freeze id).bind id table) d.name id).1
      log := log }, ?_, ⟨rfl, rfl, more, grows⟩, rfl, fun entry member => ?_, fun other => ?_,
    fun stored store final lists => ?_⟩
  · simp only [publishClass, here, ← registered, Context.register]
    split
    next none => rw [none]; rfl
    next some => rw [some]; rfl
  · cases List.mem_singleton.1 member
    exact ⟨d, ⟨here, frozen⟩, rfl⟩
  · rw [ClassStore.bound?_bind within, ClassStore.bound?_freeze]
    simp [eq_comm]
  · obtain ⟨d', held, -, own⟩ := lists (d.name, id) (.head _)
    cases held.symm.trans (final.descriptors id d here)
    have stored : Context.Stored { cx with store := (cx.store.freeze id).bind id table } :=
      stored.congr rfl more
    rw [← registered]
    exact stored.shared_register here own final

/-- The classes that are there are published, whatever places are asked for. -/
theorem publishAll_publishes (ids : List ClassId) :
    ∃ entries cx', publishAll table ids u cx
      = ({ u with classTable := u.classTable.insertAll entries }, cx') ∧
        cx.Publishes u.source.name table entries cx' ∧
      ∀ listed, Names cx.store listed → listed.map Prod.snd = ids → entries = listed := by
  induction ids generalizing u cx with
  | nil => exact ⟨[], cx, rfl, .nil cx _ table, fun listed _ none => (List.map_eq_nil_iff.1 none).symm⟩
  | cons id rest ih =>
    cases held : cx.store.descriptor? id with
    | none =>
      have absent : ((cx.store.freeze id).bind id table).descriptor? id = none := by
        unfold ClassStore.bind ClassStore.freeze
        rw [ClassStore.descriptor?_modify, ClassStore.descriptor?_modify, held] <;> exact fun _ => rfl
      have skipped : publishClass table id u cx = (u, cx) := by simp only [publishClass, absent]
      obtain ⟨entries, cx', published, publishes, -⟩ := ih u cx
      refine ⟨entries, cx', by rw [publishAll, skipped]; exact published, publishes,
        fun listed names places => ?_⟩
      obtain ⟨entry, later, rfl, rfl, -⟩ := List.map_eq_cons_iff.1 places
      obtain ⟨d, there, -⟩ := names entry (.head _)
      cases held.symm.trans there
    | some d =>
      obtain ⟨cx₁, first, publishes⟩ := publishClass_publishes table u cx held
      obtain ⟨entries, cx₂, later, publishes', only⟩ :=
        ih { u with classTable := u.classTable.insertAll [(d.name, id)] } cx₁
      refine ⟨(d.name, id) :: entries, cx₂, by rw [publishAll, first]; exact later,
        publishes.cons publishes', fun listed names places => ?_⟩
      obtain ⟨⟨name, _⟩, others, rfl, rfl, beyond⟩ := List.map_eq_cons_iff.1 places
      obtain ⟨d', there, rfl⟩ := names (name, _) (.head _)
      cases held.symm.trans there
      rw [only others (fun e member => names.mono publishes.store e (.tail _ member)) beyond]

/-- A table whose entries name its classes is published as it is. -/
theorem publishTable_publishes {u : BuildUnit} {cx : Context} (distinct : u.classTable.keys.Nodup)
    (names : Names cx.store u.classTable.entries) :
    ∃ cx', publishTable table u cx = (u, cx') ∧
      cx.Publishes u.source.name table u.classTable.entries cx' := by
  obtain ⟨entries, cx', published, publishes, only⟩ := publishAll_publishes table u cx u.classTable.values
  cases only _ names rfl
  rw [Table.insertAll_self distinct] at published
  exact ⟨cx', published, publishes⟩

/-- A step publishes descriptors at new places. -/
structure Context.PublishesNew (cx : Context) (source : String) (table : TypeTable)
    (descriptors : List ClassDescriptor) (entries : List (String × ClassId)) (cx' : Context) :
    Prop extends cx.Publishes source table entries cx' where
  stores : List.Forall₂ (fun d entry => entry.1 = d.name ∧ cx'.store.Publishes entry.2 d) descriptors entries
  new : ∀ id ∈ entries.map Prod.snd, cx.store.descriptor? id = none

theorem publishNew_publishes (descriptors : List ClassDescriptor) :
    ∃ entries cx', publishNew table descriptors u cx
      = ({ u with classTable := u.classTable.insertAll entries }, cx') ∧
        cx.PublishesNew u.source.name table descriptors entries cx' := by
  induction descriptors generalizing u cx with
  | nil => exact ⟨[], cx, rfl, .nil cx _ table, .nil, fun _ none => (List.not_mem_nil none).elim⟩
  | cons d rest ih =>
    have absent : cx.store.descriptor? (cx.store.add d).1 = none := by
      simp [ClassStore.descriptor?, ClassStore.get?, ClassStore.add]
    obtain ⟨cx₁, first, publishes⟩ :=
      publishClass_publishes table u { cx with store := (cx.store.add d).2 } (cx.store.descriptor?_add d)
    obtain ⟨d', placed, -⟩ := publishes.published _ (.head _)
    cases placed.descriptor.symm.trans (publishes.store.descriptors _ d (cx.store.descriptor?_add d))
    have publishes := publishes.after (cx.store.extends_add d) (cx.store.bound?_add d)
    obtain ⟨entries, cx₂, later, publishes'⟩ :=
      ih { u with classTable := u.classTable.insertAll [(d.name, (cx.store.add d).1)] } cx₁
    refine ⟨(d.name, (cx.store.add d).1) :: entries, cx₂, by simp only [publishNew, first]; exact later,
      publishes.cons publishes'.toPublishes, .cons ⟨rfl, placed.mono publishes'.store⟩ publishes'.stores,
      fun id member => ?_⟩
    rcases List.mem_cons.1 member with rfl | member
    · exact absent
    · cases held : cx.store.descriptor? id with
      | none => rfl
      | some other => cases (publishes'.new id member).symm.trans (publishes.store.descriptors id other held)

/-- Classes whose descriptors tell the source come from it. -/
theorem Context.PublishesNew.lists {cx cx' : Context} {source : String} {table : TypeTable}
    {descriptors : List ClassDescriptor} {entries : List (String × ClassId)}
    (h : cx.PublishesNew source table descriptors entries cx') (own : ∀ d ∈ descriptors,
      d.source = some source) :
    cx'.store.Lists source entries := by
  intro entry member
  obtain ⟨d, listed, named, published⟩ := Abc.exists_of_forall₂ h.stores member
  exact ⟨d, published.descriptor, named.symm, own d listed⟩

/-! ### What the front ends publish -/

theorem publishStyles_clashes :
    cx.Evolves Diagnostic.IsClash (publishStyles u cx) ∧ cx.Idles (publishStyles u cx) ∧
      (publishStyles u cx).registry.classes = cx.registry.classes := by
  have merged : cx.Evolves Diagnostic.IsClash
      { cx with registry := (cx.registry.registerStyles u.styles).1 } :=
    ⟨rfl, rfl, .refl _, .refl _ _⟩
  unfold publishStyles
  dsimp only
  split
  next => exact ⟨merged, { Context.Idles.refl cx with }, rfl⟩
  next => exact ⟨merged.trans (Context.evolves_report _ rfl), { Context.Idles.refl cx with }, rfl⟩

namespace AbcFrontend

variable (program : Program)

/-- The values of the slots of a program, with the log that has the warnings about them. -/
def valued : Table TraitRef ConstantValue × Log :=
  program.constants (u.scratch.constants.getD .empty) cx.config.strict u.source.name cx.log

/-- The descriptors of the classes of a program, with the registry that was asked for names. -/
def described : List ClassDescriptor × Registry :=
  (Publication.descriptors program (u.typeInfo.getD {}) (valued u cx program).1 u.source.name).run
    cx.registry

/-- The context in which a program publishes its classes. -/
def describing : Context :=
  { cx with log := (valued u cx program).2, registry := (described u cx program).2 }

theorem describing_remarks : cx.Remarks (describing u cx program) := by
  have grows :=
    (program.constants_eq (u.scratch.constants.getD .empty) cx.config.strict u.source.name cx.log).2
  have given := Publication.gives_origins program (u.typeInfo.getD {}) (valued u cx program).1 u.source.name
    cx.registry fun _ none => (Option.not_mem_none _ none).elim
  have logged : cx.Remarks { cx with log := (valued u cx program).2 } :=
    ⟨⟨rfl, rfl, .refl _, grows⟩, { Context.Idles.refl cx with }, rfl, rfl, rfl, rfl, id⟩
  have asked : Context.Asks { cx with log := (valued u cx program).2 } (describing u cx program) :=
    ⟨_, rfl, given.2⟩
  exact logged.trans asked.remarks

/-- Each descriptor tells the source that it comes from. -/
theorem described_origins : ∀ d ∈ (described u cx program).1, d.source = some u.source.name :=
  (Publication.gives_origins program (u.typeInfo.getD {}) (valued u cx program).1 u.source.name cx.registry
    fun _ none => (Option.not_mem_none _ none).elim).1

/-- The reports about a program are remarks. -/
theorem reports_remarks (source : String) (names : List Name) :
    cx.Remarks (reportUnresolved source [] names (reportVectors program source cx)) :=
  (reportVectors_remarks program source cx).trans (reportUnresolved_remarks source [] names _)

variable {program u cx}

/-- New classes are published with the styles of their unit; besides, there are only remarks. -/
theorem publishProgram_eq (ok : cx.hasErrors = false) :
    ∃ entries cx₁ loader store,
      (describing u cx program).PublishesNew u.source.name table (described u cx program).1 entries cx₁ ∧
      (publishStyles u cx₁).Remarks { publishStyles u cx₁ with store := store } ∧
      publishProgram [] program table u cx =
        ({ u with
            classTable := u.classTable.insertAll entries
            scratch := { u.scratch with constants := none, unresolved := [] }
            loaderBase := loader },
          reportUnresolved u.source.name [] u.scratch.unresolved
            (reportVectors program u.source.name { publishStyles u cx₁ with store := store })) := by
  have remarks := describing_remarks u cx program
  have clear : Context.hasErrors { cx with log := (valued u cx program).2 } = false :=
    remarks.log.hasErrors_eq.trans ok
  obtain ⟨entries, cx₁, published, publishes⟩ := publishNew_publishes table
    { u with scratch := { u.scratch with constants := none } } (describing u cx program)
      (described u cx program).1
  obtain ⟨store, loader, found, searched⟩ := findLoaderBase_remarks
    { u with classTable := u.classTable.insertAll entries, scratch := { u.scratch with constants := none } }
    (publishStyles
      { u with
        classTable := u.classTable.insertAll entries, scratch := { u.scratch with constants := none } } cx₁)
  refine ⟨entries, cx₁, loader, store, publishes, searched, ?_⟩
  have values : program.constants (u.scratch.constants.getD .empty) cx.config.strict u.source.name cx.log
      = valued u cx program := rfl
  have classes : (Publication.descriptors program (u.typeInfo.getD {}) (valued u cx program).1
      u.source.name).run cx.registry = described u cx program := rfl
  have published : publishNew table (described u cx program).1
      { u with scratch := { u.scratch with constants := none } }
      { cx with log := (valued u cx program).2, registry := (described u cx program).2 } = _ := published
  simp only [publishProgram, values, clear, Bool.false_eq_true, if_false, classes, published]
  dsimp only at found
  simp only [found, Part.finish_nil, ite_self]
  rfl

/-- A unit that is taken over publishes its table and its styles. -/
theorem publish_kept (kept : u.hasTypeInfo = true) {u' : BuildUnit} {cx₁ : Context}
    (published : publishTable cx.typeTable.1 u cx.typeTable.2 = (u', cx₁)) :
    ∃ loader store, publish [] u cx = ({ u' with loaderBase := loader },
      { publishStyles u' cx₁ with store := store }) ∧
      (publishStyles u' cx₁).Remarks { publishStyles u' cx₁ with store := store } := by
  obtain ⟨store, loader, found, searched⟩ := findLoaderBase_remarks u' (publishStyles u' cx₁)
  exact ⟨loader, store, by simp only [publish, kept, if_true, published, found], searched⟩

/-- A new unit publishes its program. -/
theorem publish_new (new : u.hasTypeInfo = false) (held : u.program? = some program) :
    publish [] u cx = publishProgram [] program cx.typeTable.1 u cx.typeTable.2 := by
  simp only [publish, new, Bool.false_eq_true, if_false, held]

end AbcFrontend

namespace BundleFrontend

/-- The registry with the bundle of a unit, or the reason why that is refused. -/
def registered : Registry × Option RegistryError :=
  cx.registry.registerBundle (bundleKey u.source cx.config.locale) u.topLevel u.source.name

/-- The type table with the context in which a bundle publishes its class. -/
def opened : TypeTable × Context := Context.typeTable { cx with registry := (registered u cx).1 }

variable {u cx}

theorem publish_refused {e : RegistryError} (refused : (registered u cx).2 = some e) :
    publish [] u cx =
      (u, Context.report { cx with registry := (registered u cx).1 } .error (some u.source.name)
        e.message) := by
  unfold registered at refused
  simp only [publish, refused]
  rfl

theorem publish_kept (accepted : (registered u cx).2 = none) (kept : u.hasTypeInfo = true) :
    publish [] u cx = publishTable (opened u cx).1 u (opened u cx).2 := by
  unfold registered at accepted
  simp only [publish, accepted, kept, if_true]
  rfl

theorem publish_new (accepted : (registered u cx).2 = none) (new : u.hasTypeInfo = false)
    {file : PropertiesFile} (held : u.properties? = some file) :
    ∃ entries cx₁, (opened u cx).2.PublishesNew u.source.name (opened u cx).1
        [descriptorOf file u.source.name] entries cx₁ ∧
          publish [] u cx = ({ u with classTable := u.classTable.insertAll entries }, cx₁) := by
  obtain ⟨entries, cx₁, published, publishes⟩ :=
    publishNew_publishes (opened u cx).1 u (opened u cx).2 [descriptorOf file u.source.name]
  refine ⟨entries, cx₁, publishes, published.symm ▸ ?_⟩
  unfold registered at accepted
  simp only [publish, accepted, new, Bool.false_eq_true, if_false, held, Part.finish_nil]
  rfl

end BundleFrontend

/-- In the phase that publishes, the front end of the format does so. -/
theorem Frontend.step_publishes (f : Frontend) (u : BuildUnit) {cx : Context} (ok : cx.hasErrors = false) :
    f.step .analyze4 u cx = match f.format with
      | .abc => AbcFrontend.publish f.extensions u cx
      | .properties => BundleFrontend.publish f.extensions u cx := by
  unfold step
  cases f.format with
  | abc => simp [AbcFrontend.step, ok]
  | properties => simp [BundleFrontend.step, ok]

end AbcBuild
