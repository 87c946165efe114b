/-
Module: AbcBuild.Proofs.StoredIndices
Purpose: The indices that the parts of a block store, and that a builder only stores indices that are in
  range.  A step is told by what it asks of the block and by what it promises of its result, in this block
  and in all later ones.
Main exports: Abc.File.stored, Abc.File.Covers, Abc.Drafting.keeps_literal, Abc.Drafting.keeps_metadataTag
-/
import AbcBuild.Proofs.Following
import AbcBuild.Proofs.Interning

namespace AbcBuild.Abc

variable {index : Nat}

/-! ### Stored indices -/

/-- A reference where 0 stands for none. -/
def optional (table : TableKind) (index : Nat) : List (TableKind × Nat) :=
  if index = 0 then [] else [(table, index)]

/-- The table of a constant; those that are told by their kind alone have none. -/
def ConstantKind.table? : ConstantKind → Option TableKind
  | .string => some .string
  | .int => some .int
  | .uint => some .uint
  | .double => some .double
  | .space _ => some .space
  | .undefined | .false | .true | .null => none

def OptionalValue.stored (value : OptionalValue) : List (TableKind × Nat) :=
  value.kind.table?.toList.map fun table => (table, value.index)

def NamespaceInfo.stored (info : NamespaceInfo) : List (TableKind × Nat) := [(.string, info.name)]

def MultinameInfo.stored : MultinameInfo → List (TableKind × Nat)
  | .qname _ space name => [(.space, space), (.string, name)]
  | .runtimeSpace _ name => [(.string, name)]
  | .runtimeBoth _ => []
  | .multiname _ name spaceSet => [(.string, name), (.spaceSet, spaceSet)]
  | .runtimeName _ spaceSet => [(.spaceSet, spaceSet)]
  | .typeName base parameters => (.multiname, base) :: parameters.flatMap (optional .multiname)

def MethodInfo.stored (info : MethodInfo) : List (TableKind × Nat) :=
  info.paramTypes.flatMap (optional .multiname) ++ optional .multiname info.returnType ++
    [(.string, info.name)] ++ info.options.flatMap OptionalValue.stored ++ info.paramNames.map fun name =>
      (.string, name)

def MetadataInfo.stored (info : MetadataInfo) : List (TableKind × Nat) :=
  (.string, info.name) :: info.items.flatMap fun item => [(.string, item.1), (.string, item.2)]

def TraitData.stored : TraitData → List (TableKind × Nat)
  | .slot _ _ typeName value => optional .multiname typeName ++ value.toList.flatMap OptionalValue.stored
  | .method _ _ target => [(.method, target)]
  | .classRef _ index => [(.instances, index)]
  | .function _ target => [(.method, target)]

def TraitInfo.stored (info : TraitInfo) : List (TableKind × Nat) :=
  (.multiname, info.name) :: info.data.stored ++ info.metadata.map fun tag => (.metadata, tag)

def ScopeInfo.stored (info : ScopeInfo) : List (TableKind × Nat) :=
  (.method, info.init) :: info.traits.flatMap TraitInfo.stored

def InstanceInfo.stored (info : InstanceInfo) : List (TableKind × Nat) :=
  (.multiname, info.name) :: optional .multiname info.superName ++
    (info.protectedSpace.toList.map fun space => (.space, space)) ++
    (info.interfaces.map fun name => (.multiname, name)) ++ (.method, info.init) :: info.traits.flatMap
      TraitInfo.stored

def BodyInfo.stored (info : BodyInfo) : List (TableKind × Nat) :=
  (.method, info.method) ::
    (info.exceptions.flatMap fun handler =>
      optional .multiname handler.type ++ optional .multiname handler.varName) ++
    info.traits.flatMap TraitInfo.stored

/-- The table that the index of an entry points into. -/
def PoolTable.kind : PoolTable → TableKind
  | .string => .string
  | .space => .space
  | .spaceSet => .spaceSet
  | .multiname => .multiname
  | .int => .int
  | .uint => .uint

/-- The indices that the entry of a table stores. -/
def PoolTable.stored : (table : PoolTable) → table.Entry → List (TableKind × Nat)
  | .string, _ | .int, _ | .uint, _ => []
  | .space, info => info.stored
  | .spaceSet, set => set.map fun space => (.space, space)
  | .multiname, info => info.stored

/-- Every index that stands in a block, with the table that it points into.  Left out is 0 where it means
    none. -/
def File.stored (file : File) : List (TableKind × Nat) :=
  file.pool.spaces.flatMap (PoolTable.stored .space) ++ file.pool.spaceSets.flatMap
    (PoolTable.stored .spaceSet) ++ file.pool.multinames.flatMap (PoolTable.stored .multiname) ++
      file.methods.flatMap MethodInfo.stored ++
    file.metadata.flatMap MetadataInfo.stored ++ file.instances.flatMap InstanceInfo.stored ++
    file.classes.flatMap ScopeInfo.stored ++ file.scripts.flatMap ScopeInfo.stored ++
    file.bodies.flatMap BodyInfo.stored

/-- The indices are in range. -/
def File.Covers (file : File) (stored : List (TableKind × Nat)) : Prop :=
  ∀ entry ∈ stored, file.Has entry.1 entry.2

namespace File

variable {α : Type} {file : File}

@[simp]
theorem covers_nil : file.Covers [] := List.forall_mem_nil _

@[simp]
theorem covers_cons {entry : TableKind × Nat} {rest : List (TableKind × Nat)} :
    file.Covers (entry :: rest) ↔ file.Has entry.1 entry.2 ∧ file.Covers rest := List.forall_mem_cons

@[simp]
theorem covers_append {first second : List (TableKind × Nat)} :
    file.Covers (first ++ second) ↔ file.Covers first ∧ file.Covers second := List.forall_mem_append

@[simp]
theorem covers_flatMap {items : List α} {stored : α → List (TableKind × Nat)} :
    file.Covers (items.flatMap stored) ↔ ∀ item ∈ items, file.Covers (stored item) := by
  simp only [Covers, List.mem_flatMap]
  exact ⟨fun h item listed entry held => h entry ⟨item, listed, held⟩,
    fun h entry ⟨item, listed, held⟩ => h item listed entry held⟩

@[simp]
theorem covers_map {items : List α} {make : α → TableKind × Nat} :
    file.Covers (items.map make) ↔ ∀ item ∈ items, file.Has (make item).1 (make item).2 :=
      List.forall_mem_map

@[simp]
theorem covers_optional {table : TableKind} :
    file.Covers (optional table index) ↔ (index ≠ 0 → file.Has table index) := by
  unfold optional
  split
  next none => simp [none]
  next some => simp [some]

end File

/-! ### Blocks as a builder makes them -/

/-- The flag stands for the names of the parameters, which are distinct, and there are no defaults. -/
structure MethodInfo.Plain (info : MethodInfo) : Prop where
  flags : info.flags = if info.paramNames.isEmpty then 0 else MethodFlag.hasParamNames
  options : info.options = []
  named : info.paramNames.length = info.paramTypes.length
  distinct : info.paramNames.Nodup
  filled : 0 ∉ info.paramNames

/-- The value of a slot has an index, which is that of its kind if it has no table. -/
structure OptionalValue.Plain (value : OptionalValue) : Prop where
  some : value.index ≠ 0
  low : value.kind.table? = none → value.index < 256

def TraitData.Plain : TraitData → Prop
  | .slot _ number _ value => number = 0 ∧ ∀ constant ∈ value, constant.Plain
  | .method _ dispatch _ => dispatch = 0
  | .classRef number _ => number = 1
  | .function .. => False

structure TraitInfo.Plain (info : TraitInfo) : Prop where
  attributes : info.attributes = Builder.tagFlag info.metadata
  data : info.data.Plain

/-- The parts of a block are as a builder makes them, and their indices are in range of a block that may have
    grown since. -/
structure File.Laid (grown file : File) : Prop where
  entries : ∀ table : PoolTable, ∀ item ∈ table.items file.pool, grown.Covers (table.stored item)
  methods : ∀ info ∈ file.methods, grown.Covers info.stored ∧ info.Plain
  metadata : ∀ info ∈ file.metadata, grown.Covers info.stored
  instances : ∀ info ∈ file.instances, grown.Covers info.stored ∧
    info.protectedSpace.isSome = info.flags.has InstanceFlag.protectedSpace ∧ ∀ t ∈ info.traits, t.Plain
  classes : ∀ info ∈ file.classes, grown.Covers info.stored ∧ ∀ t ∈ info.traits, t.Plain
  scripts : ∀ info ∈ file.scripts, grown.Covers info.stored ∧ ∀ t ∈ info.traits, t.Plain
  bodies : ∀ body ∈ file.bodies, ∃ method, grown.methods[body.method]? = some method ∧
    body = Builder.bodyOf body.method method.paramTypes.length
  sides : file.classes.length = file.instances.length
  major : 46 ≤ file.major.toNat

/-- The block is as a builder makes it. -/
def File.Sound (file : File) : Prop := file.Laid file

theorem File.sound_empty : File.Sound {} := by
  constructor
  · intro table item listed
    cases table <;> cases listed
  all_goals simp

/-- A block that is as a builder makes it stores no index that is out of range. -/
theorem File.Sound.covers {file : File} (sound : file.Sound) : file.Covers file.stored := by
  have bodies : ∀ body ∈ file.bodies, file.Covers body.stored := by
    intro body listed
    obtain ⟨method, held, same⟩ := sound.bodies body listed
    have inside : file.Has .method body.method := ⟨Nat.zero_le _, (List.getElem?_eq_some_iff.1 held).1⟩
    rw [same]
    simpa [BodyInfo.stored, Builder.bodyOf] using inside
  simp only [File.stored, File.covers_append, File.covers_flatMap]
  exact ⟨⟨⟨⟨⟨⟨⟨⟨sound.entries .space, sound.entries .spaceSet⟩, sound.entries .multiname⟩,
    fun info listed => (sound.methods info listed).1⟩, sound.metadata⟩, fun info listed =>
    (sound.instances info listed).1⟩, fun info listed => (sound.classes info listed).1⟩, fun info listed =>
    (sound.scripts info listed).1⟩, bodies⟩

/-! ### Blocks that grow -/

namespace File

variable {f g h : File} {text : String}

/-- The tables of a block only grow. -/
theorem Extends.size_le (grows : f.Extends g) (table : TableKind) : f.size table ≤ g.size table := by
  cases table with
  | int => exact Nat.succ_le_succ (grows.pool.tables .int).length_le
  | uint => exact Nat.succ_le_succ (grows.pool.tables .uint).length_le
  | double => exact Nat.succ_le_succ grows.pool.doubles.length_le
  | string => exact Nat.succ_le_succ (grows.pool.tables .string).length_le
  | space => exact Nat.succ_le_succ (grows.pool.tables .space).length_le
  | spaceSet => exact Nat.succ_le_succ (grows.pool.tables .spaceSet).length_le
  | multiname => exact Nat.succ_le_succ (grows.pool.tables .multiname).length_le
  | method => exact grows.methods.length_le
  | metadata => exact grows.metadata.length_le
  | instances => exact grows.instances.length_le

/-- An index that is valid stays so. -/
theorem Extends.has (grows : f.Extends g) {table : TableKind} (held : f.Has table index) :
    g.Has table index :=
  ⟨held.1, held.2.trans_le (grows.size_le table)⟩

theorem Extends.covers (grows : f.Extends g) {stored : List (TableKind × Nat)} (h : f.Covers stored) :
    g.Covers stored :=
  fun entry listed => grows.has (h entry listed)

/-- What has been laid into a block stays as the block grows. -/
theorem Laid.mono (laid : g.Laid f) (grows : g.Extends h) : h.Laid f where
  entries := fun table item listed => grows.covers (laid.entries table item listed)
  methods := fun info listed => (laid.methods info listed).imp_left grows.covers
  metadata := fun info listed => grows.covers (laid.metadata info listed)
  instances := fun info listed => (laid.instances info listed).imp_left grows.covers
  classes := fun info listed => (laid.classes info listed).imp_left grows.covers
  scripts := fun info listed => (laid.scripts info listed).imp_left grows.covers
  bodies := by
    intro body listed
    obtain ⟨method, held, same⟩ := laid.bodies body listed
    exact ⟨method, getElem?_of_isPrefix grows.methods held, same⟩
  sides := laid.sides
  major := laid.major

/-- The block with another list of entries in one of the tables. -/
def withItems (file : File) (table : PoolTable) (items : List table.Entry) : File :=
  { file with pool := table.withItems file.pool items }

theorem gains_withItems {table : PoolTable} {items : List table.Entry}
    (more : table.items f.pool <+: items) :
    f.Gains (f.withItems table items) :=
  ⟨{ File.Extends.refl f with pool := PoolTable.extends_withItems more }, rfl, rfl, rfl⟩

/-- New entries whose indices are in range leave the block as a builder makes it. -/
theorem Sound.withItems (sound : f.Sound) {table : PoolTable} {items : List table.Entry}
    (more : table.items f.pool <+: items)
    (new : ∀ item ∈ items, item ∈ table.items f.pool ∨
      (f.withItems table items).Covers (table.stored item)) :
    (f.withItems table items).Sound := by
  have laid : (f.withItems table items).Laid f := Laid.mono sound (gains_withItems more).grows
  refine { laid with entries := fun other item listed => ?_ }
  by_cases same : other = table
  · subst same
    rw [File.withItems, PoolTable.items_withItems] at listed
    rcases new item listed with old | covered
    · exact laid.entries other item old
    · exact covered
  · rw [File.withItems, PoolTable.items_withItems_of_ne same] at listed
    exact laid.entries other item listed

/-- So do the two sides of a class whose indices are in range then. -/
theorem Sound.appendSides (sound : f.Sound) {object : InstanceInfo} {scope : ScopeInfo}
    (objectAt : ∀ g, f.Extends g → g.Covers object.stored ∧
      object.protectedSpace.isSome = object.flags.has InstanceFlag.protectedSpace ∧
      ∀ t ∈ object.traits, t.Plain)
    (scopeAt : ∀ g, f.Extends g → g.Covers scope.stored ∧ ∀ t ∈ scope.traits, t.Plain) :
    f.Extends ((Builder.appendSides object scope).run f).2 ∧
      ((Builder.appendSides object scope).run f).2.Sound := by
  have grows : f.Extends ((Builder.appendSides object scope).run f).2 :=
    { File.Extends.refl f with instances := List.prefix_append .., classes := List.prefix_append .. }
  have laid := Laid.mono sound grows
  refine ⟨grows, { laid with
    instances := List.forall_mem_append.2 ⟨laid.instances, List.forall_mem_singleton.2 (objectAt _ grows)⟩
    classes := List.forall_mem_append.2 ⟨laid.classes, List.forall_mem_singleton.2 (scopeAt _ grows)⟩
    sides := ?_ }⟩
  change (f.classes ++ [scope]).length = (f.instances ++ [object]).length
  rw [List.length_append, List.length_append, laid.sides]
  rfl

/-- No index refers to a script, so a new one only has to be in range itself. -/
theorem Sound.appendScript (sound : f.Sound) {script : ScopeInfo} (covered : f.Covers script.stored)
    (plain : ∀ t ∈ script.traits, t.Plain) : File.Sound { f with scripts := f.scripts ++ [script] } := by
  have grows : f.Extends { f with scripts := f.scripts ++ [script] } := { File.Extends.refl f with }
  have laid := Laid.mono sound grows
  exact { laid with
    scripts := List.forall_mem_append.2 ⟨laid.scripts,
    List.forall_mem_singleton.2 ⟨grows.covers covered, plain⟩⟩ }

/-! ### Entries and texts -/

namespace EntryAt

variable {table : PoolTable} {item other : table.Entry} {index : Nat}

theorem ne_zero (h : f.EntryAt table item index) : index ≠ 0 := by
  obtain ⟨place, rfl, -⟩ := h
  exact Nat.succ_ne_zero place

theorem has (h : f.EntryAt table item index) : f.Has table.kind index := by
  obtain ⟨place, rfl, held⟩ := h
  have inside := (List.getElem?_eq_some_iff.1 held).1
  have first : table.kind.first ≤ 1 := by cases table <;> decide
  have size : f.size table.kind = (table.items f.pool).length + 1 := by cases table <;> rfl
  exact ⟨by omega, by omega⟩

/-- Two entries at one index are the same. -/
theorem unique (h : f.EntryAt table item index) (h' : f.EntryAt table other index) : item = other := by
  obtain ⟨place, rfl, held⟩ := h
  obtain ⟨place', same, held'⟩ := h'
  rw [← Nat.succ_inj.1 same, held] at held'
  exact Option.some.inj held'

theorem mono (h : f.EntryAt table item index) (grows : f.Extends g) : g.EntryAt table item index := by
  obtain ⟨place, rfl, held⟩ := h
  exact ⟨place, rfl, getElem?_of_isPrefix (grows.pool.tables table) held⟩

theorem entry (h : f.EntryAt table item index) (kind : TableKind) :
    ConstantPool.entry kind (table.items f.pool) index = .ok item := by
  obtain ⟨place, rfl, held⟩ := h
  rw [ConstantPool.entry, held]

end EntryAt

/-- The index is that of a text; the empty one has index 0. -/
def TextAt (file : File) (text : String) (index : Nat) : Prop :=
  text = "" ∧ index = 0 ∨ file.EntryAt .string text index

theorem TextAt.has (h : f.TextAt text index) : f.Has .string index := by
  rcases h with ⟨-, rfl⟩ | entry
  · exact ⟨Nat.le_refl 0, Nat.succ_pos _⟩
  · exact entry.has

theorem TextAt.unique {other : String} (h : f.TextAt text index) (h' : f.TextAt other index) :
    text = other := by
  rcases h with ⟨rfl, rfl⟩ | entry <;> rcases h' with ⟨rfl, zero⟩ | entry'
  · rfl
  · exact absurd rfl entry'.ne_zero
  · exact absurd zero entry.ne_zero
  · exact entry.unique entry'

theorem TextAt.ne_zero (h : f.TextAt text index) (filled : text ≠ "") : index ≠ 0 := by
  rcases h with ⟨empty, -⟩ | entry
  · exact absurd empty filled
  · exact entry.ne_zero

theorem TextAt.string (h : f.TextAt text index) : f.pool.string index = .ok text := by
  rcases h with ⟨rfl, rfl⟩ | entry
  · rfl
  · rw [ConstantPool.string, if_neg entry.ne_zero]
    exact entry.entry _

/-- Distinct texts have distinct indices. -/
theorem nodup_of_textAt {texts : List String} {indices : List Nat} (h : List.Forall₂ f.TextAt texts indices)
    (distinct : texts.Nodup) : indices.Nodup := by
  induction h with
  | nil => exact List.nodup_nil
  | @cons text index texts indices first rest ih =>
    rw [List.nodup_cons] at distinct ⊢
    refine ⟨?_, ih distinct.2⟩
    -- an index stands for one text, so it does not come again for a later one
    intro again
    obtain ⟨other, listed, located⟩ := exists_of_forall₂ rest again
    exact distinct.1 (first.unique located ▸ listed)

end File

namespace Drafting

variable {α β : Type}

/-! ### Steps that keep a block in order -/

/-- Whenever the block and all later ones have the first property, the step does what the other does, leaves
    the block as a builder makes it, lets it grow by constants, methods and tags, and gives a result that has
    the second property in this block and in all later ones. -/
def Keeps (pre : File → Prop) (step : Drafting α) (plain : Builder α) (post : α → File → Prop) : Prop :=
  ∀ draft : Draft, draft.Exact → draft.file.Sound → (∀ g, draft.file.Extends g → pre g) →
    Tracks step plain draft ∧ (step.run draft).2.file.Sound ∧ draft.file.Gains (step.run draft).2.file ∧
      ∀ g, (step.run draft).2.file.Extends g → post (step.run draft).1 g

variable {pre pre' : File → Prop} {P P' : α → File → Prop} {Q : β → File → Prop} {step : Drafting α}
  {plain : Builder α}

theorem Keeps.pure {a : α} (h : ∀ g, pre g → P a g) : Keeps pre (Pure.pure a) (Pure.pure a) P := by
  intro draft exact sound before
  exact ⟨⟨rfl, exact⟩, sound, .refl _, fun g later => h g (before g later)⟩

theorem Keeps.imp (h : Keeps pre step plain P) (weaker : ∀ a g, pre g → P a g → P' a g) :
    Keeps pre step plain P' := by
  intro draft exact sound before
  obtain ⟨tracks, sound', gains, holds⟩ := h draft exact sound before
  exact ⟨tracks, sound', gains, fun g later => weaker _ g (before g (gains.grows.trans later))
    (holds g later)⟩

theorem Keeps.given (h : Keeps pre step plain P) (stronger : ∀ g, pre' g → pre g) :
    Keeps pre' step plain P :=
  fun draft exact sound before => h draft exact sound fun g later => stronger g (before g later)

/-- It is enough to look at the builder that has no maps. -/
theorem Keeps.of_tracks (tracks : ∀ draft, draft.Exact → Tracks step plain draft)
    (h : ∀ f : File, f.Sound → (∀ g, f.Extends g → pre g) → (plain.run f).2.Sound ∧ f.Gains (plain.run f).2 ∧
      ∀ g, (plain.run f).2.Extends g → P (plain.run f).1 g) : Keeps pre step plain P := by
  intro draft exact sound before
  have kept := h draft.file sound before
  rw [(tracks draft exact).1] at kept
  exact ⟨tracks draft exact, kept⟩

/-- It is enough to look at the parts that a step adds: what was there before is in range of the block that
    it leaves. -/
theorem Keeps.of_gains (items : ∀ f table, PoolTable.items table (plain.run f).2.pool = table.items f.pool)
    (gains : ∀ f : File, f.Gains (plain.run f).2)
    (sound : ∀ f, (plain.run f).2.Laid f → pre (plain.run f).2 → (plain.run f).2.Sound)
    (holds : ∀ f g, (plain.run f).2.Extends g → P (plain.run f).1 g) : Keeps pre (lift plain) plain P := by
  apply Keeps.of_tracks fun draft exact =>
    tracks_lift exact fun table item _ place => by rw [items draft.file table]
  intro f before given
  have grows := (gains f).grows
  exact ⟨sound f (File.Laid.mono before grows) (given _ grows), gains f, holds f⟩

/-- The second step may rely on what the first was given and on what it promises. -/
theorem Keeps.bind {next : α → Drafting β} {plainNext : α → Builder β} (h : Keeps pre step plain P)
    (rest : ∀ a, Keeps (fun g => pre g ∧ P a g) (next a) (plainNext a) Q) :
    Keeps pre (step >>= next) (plain >>= plainNext) Q := by
  intro draft exact sound before
  obtain ⟨tracks, sound', gains, holds⟩ := h draft exact sound before
  obtain ⟨tracks', sound'', gains', holds'⟩ :=
    rest (step.run draft).1 (step.run draft).2 tracks.2 sound' fun g later =>
    ⟨before g (gains.grows.trans later), holds g later⟩
  exact ⟨tracks.bind tracks', sound'', gains.trans gains', holds'⟩

/-- Steps that keep what they are to keep do so for a list, with one result for each item. -/
theorem Keeps.mapM {γ : Type} {step : γ → Drafting α} {plain : γ → Builder α} {R : γ → α → File → Prop}
    (h : ∀ item, Keeps pre (step item) (plain item) (R item)) (items : List γ) :
    Keeps pre (items.mapM step) (items.mapM plain) fun results g =>
      List.Forall₂ (fun item a => R item a g) items results := by
  induction items with
  | nil =>
    rw [List.mapM_nil, List.mapM_nil]
    exact Keeps.pure fun _ _ => .nil
  | cons item rest ih =>
    rw [List.mapM_cons, List.mapM_cons]
    apply Keeps.bind (h item)
    intro a
    apply Keeps.bind (ih.given fun _ => And.left)
    intro results
    exact Keeps.pure fun g given => .cons given.1.2 given.2

/-! ### Constants -/

/-- An item that is entered is in its table, where it was or at the end, and nothing else is new. -/
theorem run_enterAt (table : PoolTable) (item : table.Entry) (f : File) :
    ∃ place later, (Builder.enterAt table item).run f = (place + 1, f.withItems table later) ∧
      table.items f.pool <+: later ∧ later[place]? = some item ∧
        ∀ entry ∈ later, entry ∈ table.items f.pool ∨ entry = item := by
  obtain ⟨place, later, entered, more, held, known⟩ := Builder.enter_eq (table.items f.pool) item
  refine ⟨place, later, ?_, more, held, known⟩
  simp only [Builder.enterAt, Builder.onPool, StateT.run, entered]
  rfl

/-- An entry may be made once the block has all that it refers to, and stands where the index says. -/
theorem keeps_enter (table : PoolTable) {item : table.Entry} (mapped : table.Mapped item)
    (covered : ∀ g, pre g → g.Covers (table.stored item)) :
    Keeps pre (enter table item) (Builder.enterAt table item) fun index g => g.EntryAt table item index := by
  apply Keeps.of_tracks fun draft => tracks_enter mapped
  intro f sound before
  obtain ⟨place, later, ran, more, held, known⟩ := run_enterAt table item f
  have gains : f.Gains (f.withItems table later) := File.gains_withItems more
  rw [ran]
  refine ⟨sound.withItems more ?_, gains, ?_⟩
  · intro entry listed
    rcases known entry listed with old | rfl
    · exact .inl old
    · exact .inr (covered _ (before _ gains.grows))
  · have here : (f.withItems table later).EntryAt table item (place + 1) := by
      refine ⟨place, rfl, ?_⟩
      rw [File.withItems, PoolTable.items_withItems]
      exact held
    exact fun g => here.mono

theorem keeps_string (text : String) :
    Keeps pre (string text) (Builder.string text) fun index g => g.TextAt text index := by
  unfold string Builder.string
  split
  next empty => exact Keeps.pure fun _ _ => .inl ⟨String.isEmpty_iff.1 empty, rfl⟩
  next filled =>
    have mapped : PoolTable.Mapped .string text := fun empty => filled (String.isEmpty_iff.2 empty)
    exact (keeps_enter .string mapped fun _ _ => File.covers_nil).imp fun _ _ _ => .inr

theorem keeps_space (kind : NamespaceKind) (uri : String) :
    Keeps pre (space kind uri) (Builder.space kind uri) fun index g => g.Has .space index ∧
      g.SpaceAt kind uri index := by
  apply Keeps.bind (keeps_string uri)
  intro name
  have covered (g : File) (given : pre g ∧ g.TextAt uri name) :
      g.Covers (PoolTable.stored .space ⟨kind, name⟩) := by
    simpa [PoolTable.stored, NamespaceInfo.stored] using given.2.has
  apply (keeps_enter .space trivial covered).imp
  intro index g given entry
  exact ⟨entry.has, name, entry.entry _, given.2.string⟩

theorem keeps_qname (kind : NamespaceKind) (uri name : String) :
    Keeps pre (qname kind uri name) (Builder.qname kind uri name) fun index g =>
      g.Has .multiname index ∧ g.NameAt kind uri name index := by
  apply Keeps.bind (keeps_space kind uri)
  intro space
  apply Keeps.bind (keeps_string name)
  intro text
  apply (keeps_enter .multiname trivial _).imp
  · rintro index g ⟨⟨-, -, spaceAt⟩, textAt⟩ entry
    exact ⟨entry.has, entry.ne_zero, space, text, entry.entry _, spaceAt, textAt.string⟩
  · rintro g ⟨⟨-, spaceAt, -⟩, textAt⟩
    simpa [PoolTable.stored, MultinameInfo.stored] using ⟨spaceAt, textAt.has⟩

/-! ### Literals and tags -/

theorem keeps_emptyText :
    Keeps pre (lift Builder.emptyText) Builder.emptyText fun index g => g.EntryAt .string "" index := by
  apply Keeps.of_tracks fun draft => tracks_emptyText
  intro f sound _
  have more : PoolTable.items .string f.pool <+: f.pool.strings ++ [""] := List.prefix_append ..
  have here : (f.withItems .string (f.pool.strings ++ [""])).EntryAt .string ""
      (f.pool.strings.length + 1) :=
    ⟨_, rfl, List.getElem?_concat_length⟩
  exact ⟨sound.withItems more fun _ _ => .inr File.covers_nil, File.gains_withItems more, fun g => here.mono⟩

theorem keeps_double (value : Double) :
    Keeps pre (lift (Builder.literal (.double value))) (Builder.literal (.double value)) fun ref g =>
      ∃ index, ref = ⟨.double, index⟩ ∧ index ≠ 0 ∧ g.Has .double index ∧
        g.pool.double index = .ok value := by
  apply Keeps.of_gains
  · intro f table
    cases table <;> rfl
  · intro f
    have pool : f.pool.Extends { f.pool with doubles := f.pool.doubles ++ [value] } :=
      ⟨fun table => by cases table <;> exact List.prefix_rfl, List.prefix_append ..⟩
    exact ⟨{ File.Extends.refl f with pool := pool }, rfl, rfl, rfl⟩
  · intro f laid _
    exact { laid with entries := fun table => by cases table <;> exact laid.entries _ }
  · intro f g later
    have last : f.pool.doubles.length + 1 < (f.pool.doubles ++ [value]).length + 1 := by simp
    refine ⟨_, rfl, Nat.succ_ne_zero _, later.has ⟨Nat.succ_le_succ (Nat.zero_le _), last⟩, ?_⟩
    rw [ConstantPool.double, ConstantPool.entry,
      getElem?_of_isPrefix later.pool.doubles List.getElem?_concat_length]

/-- The constant of a literal is its value, and has an index, in range of its table if there is one. -/
theorem keeps_literal (value : Literal) :
    Keeps pre (literal value) (Builder.literal value) fun ref g =>
      (g.Covers ref.stored ∧ ref.Plain) ∧ Constant.ofPool g.pool ref = .ok value.constant := by
  have tabled {kind : ConstantKind} {table : TableKind} {index : Nat} {g : File}
      (known : kind.table? = some table) (some : index ≠ 0) (held : g.Has table index) :
      g.Covers (OptionalValue.stored ⟨kind, index⟩) ∧ OptionalValue.Plain ⟨kind, index⟩ := by
    refine ⟨?_, some, fun none => absurd (known.symm.trans none) (by simp)⟩
    simpa [OptionalValue.stored, known] using held
  have told {kind : ConstantKind} {index : Nat} (known : kind.table? = none) (some : index ≠ 0)
      (low : index < 256) (g : File) : g.Covers (OptionalValue.stored ⟨kind, index⟩) ∧
        OptionalValue.Plain ⟨kind, index⟩ :=
    ⟨by simp [OptionalValue.stored, known], some, fun _ => low⟩
  cases value with
  | int value =>
    apply Keeps.bind (keeps_enter .int trivial fun _ _ => File.covers_nil)
    intro index
    exact Keeps.pure fun g given => ⟨tabled rfl given.2.ne_zero given.2.has,
      congrArg (Except.map ConstantValue.int) (given.2.entry _)⟩
  | uint value =>
    apply Keeps.bind (keeps_enter .uint trivial fun _ _ => File.covers_nil)
    intro index
    exact Keeps.pure fun g given => ⟨tabled rfl given.2.ne_zero given.2.has,
      congrArg (Except.map ConstantValue.uint) (given.2.entry _)⟩
  | double value =>
    apply (keeps_double value).imp
    rintro ref g - ⟨index, rfl, some, held, read⟩
    exact ⟨tabled rfl some held, congrArg (Except.map ConstantValue.number) read⟩
  | string value =>
    simp only [literal, Builder.literal]
    split
    next empty =>
      apply Keeps.bind keeps_emptyText
      intro index
      refine Keeps.pure fun g given => ⟨tabled rfl given.2.ne_zero given.2.has, ?_⟩
      rw [String.isEmpty_iff.1 empty]
      exact congrArg (Except.map ConstantValue.string) (File.TextAt.string (.inr given.2))
    next filled =>
      apply Keeps.bind (keeps_string value)
      intro index
      exact Keeps.pure fun g given =>
        ⟨tabled rfl (given.2.ne_zero fun empty => filled (String.isEmpty_iff.2 empty)) given.2.has,
          congrArg (Except.map ConstantValue.string) given.2.string⟩
  | boolean value => cases value <;> exact Keeps.pure fun g _ => ⟨told rfl (by decide) (by decide) g, rfl⟩
  | null | undefined => exact Keeps.pure fun g _ => ⟨told rfl (by decide) (by decide) g, rfl⟩

/-- A default value refers to an entry of the pool, and is read from there as it was given. -/
theorem keeps_value (value : Option Literal) :
    Keeps pre (value.mapM literal) (value.mapM Builder.literal) fun ref g =>
      (∀ constant ∈ ref, g.Covers constant.stored ∧ constant.Plain) ∧
        ref.map (Constant.ofPool g.pool) = value.map fun literal => .ok literal.constant := by
  cases value with
  | none => exact Keeps.pure fun _ _ => ⟨fun constant absent => (Option.not_mem_none _ absent).elim, rfl⟩
  | some value =>
    rw [Option.mapM_some, Option.mapM_some, map_eq_pure_bind, map_eq_pure_bind]
    apply Keeps.bind (keeps_literal value)
    intro ref
    exact Keeps.pure fun g given =>
      ⟨fun constant same => Option.some.inj same ▸ given.2.1, congrArg some given.2.2⟩

/-- An entry without a key stays without one, and a key that is not empty stays that key. -/
theorem keeps_metadataItem (entry : Option String × String) :
    Keeps pre (metadataItem entry) (Builder.metadataItem entry) fun item g =>
      (g.Has .string item.1 ∧ g.Has .string item.2) ∧
        (entry.1 ≠ some "" → Resolve.metadataItem g.pool item = .ok entry) := by
  rcases entry with ⟨_ | key, value⟩
  · apply Keeps.bind (Keeps.pure (P := fun index _ => index = 0) fun _ _ => rfl)
    intro keyIndex
    apply Keeps.bind (keeps_string value)
    intro valueIndex
    apply Keeps.pure
    rintro g ⟨⟨-, rfl⟩, valueAt⟩
    refine ⟨⟨⟨Nat.le_refl 0, Nat.succ_pos _⟩, valueAt.has⟩, fun _ => ?_⟩
    simp only [Resolve.metadataItem, if_pos, valueAt.string]
    rfl
  · apply Keeps.bind (keeps_string key)
    intro keyIndex
    apply Keeps.bind (keeps_string value)
    intro valueIndex
    apply Keeps.pure
    rintro g ⟨⟨-, keyAt⟩, valueAt⟩
    refine ⟨⟨keyAt.has, valueAt.has⟩, fun keyed => ?_⟩
    have filled : keyIndex ≠ 0 := keyAt.ne_zero fun empty => keyed (congrArg some empty)
    simp only [Resolve.metadataItem, if_neg filled, keyAt.string, valueAt.string]
    rfl

theorem keeps_appendTag {info : MetadataInfo} (covered : ∀ g, pre g → g.Covers info.stored) :
    Keeps pre (lift (Builder.appendTag info)) (Builder.appendTag info) fun index g =>
      g.metadata[index]? = some info := by
  apply Keeps.of_gains fun _ _ => rfl
  · intro f
    exact ⟨{ File.Extends.refl f with metadata := List.prefix_append .. }, rfl, rfl, rfl⟩
  · intro f laid given
    exact { laid with
      metadata := List.forall_mem_append.2 ⟨laid.metadata, List.forall_mem_singleton.2 (covered _ given)⟩ }
  · exact fun f g later => getElem?_of_isPrefix later.metadata List.getElem?_concat_length

/-- A tag is read back as it was given, if no key of it is the empty text. -/
theorem keeps_metadataTag (tag : Metadata) :
    Keeps pre (metadataTag tag) (Builder.metadataTag tag) fun index g =>
      g.Has .metadata index ∧ (tag.Keyed → Resolve.metadataTag g index = .ok tag) := by
  apply Keeps.bind (keeps_string tag.name)
  intro name
  apply Keeps.bind (Keeps.mapM keeps_metadataItem tag.entries)
  intro items
  apply (keeps_appendTag _).imp
  · rintro index g ⟨⟨-, nameAt⟩, itemsAt⟩ held
    refine ⟨⟨Nat.zero_le _, (List.getElem?_eq_some_iff.1 held).1⟩, fun keyed => ?_⟩
    have read := ((List.forall₂_and_left _ _).2 ⟨keyed, itemsAt⟩).imp fun _ _ both => both.2.2 both.1
    rw [Resolve.metadataTag, Resolve.entry_of_getElem? held]
    change (g.pool.string name >>= _) = _
    rw [nameAt.string]
    change (items.mapM (Resolve.metadataItem g.pool) >>= _) = _
    rw [Resolve.mapM_of_forall₂ read]
    rfl
  · rintro g ⟨⟨-, nameAt⟩, itemsAt⟩
    simp only [MetadataInfo.stored, File.covers_cons, File.covers_flatMap, File.covers_nil, and_true]
    exact ⟨nameAt.has, forall_of_forall₂ itemsAt fun _ _ => And.left⟩

end Drafting

end AbcBuild.Abc
