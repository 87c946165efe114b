/-
Module: AbcBuild.Proofs.BuiltBlocks
Purpose: What holds of every block that a builder makes, whichever classes and strings are added to it, in
  whatever order: no constant stands twice, the maps are exact, every index is in range, and the block is
  read back from what is written for it just if none of its sizes is too large.
Main exports: Abc.File.Sized, Abc.File.Sound.wellFormed, Abc.Draft.ofCalls, Abc.File.interning_exact
-/
import AbcBuild.Proofs.BuiltProgram
import AbcBuild.Proofs.Format

namespace AbcBuild.Abc

/-! ### Sizes -/

/-- The parameters of a parametrised type. -/
def MultinameInfo.parameters : MultinameInfo → List Nat
  | .typeName _ parameters => parameters
  | .qname .. | .runtimeSpace .. | .runtimeBoth .. | .multiname .. | .runtimeName .. => []

/-- The lists of traits of a block. -/
def File.traitLists (file : File) : List (List TraitInfo) :=
  file.instances.map InstanceInfo.traits ++ file.classes.map ScopeInfo.traits ++ file.scripts.map
    ScopeInfo.traits ++ file.bodies.map BodyInfo.traits

/-- No size is too large to be written: neither that of a table, with its implied entry, nor the length of a
    string in bytes, nor that of a list in a part of the block. -/
structure File.Sized (file : File) : Prop where
  tables : ∀ table, Small (file.size table)
  scripts : Small file.scripts.length
  bodies : Small file.bodies.length
  strings : ∀ text ∈ file.pool.strings, SmallText text
  spaceSets : ∀ set ∈ file.pool.spaceSets, Small set.length
  multinames : ∀ info ∈ file.pool.multinames, Small info.parameters.length
  methods : ∀ info ∈ file.methods, Small info.paramTypes.length ∧ Small info.options.length
  metadata : ∀ info ∈ file.metadata, Small info.items.length
  interfaces : ∀ info ∈ file.instances, Small info.interfaces.length
  traits : ∀ traits ∈ file.traitLists, Small traits.length ∧ ∀ t ∈ traits, Small t.metadata.length
  code : ∀ body ∈ file.bodies, Small body.code.length ∧ Small body.exceptions.length

namespace File

variable {file : File}

theorem Sized.index (sized : file.Sized) {table : TableKind} {index : Nat} (held : file.Has table index) :
    Small index :=
  held.2.trans (sized.tables table)

theorem Sized.reference (sized : file.Sized) {table : TableKind} {index : Nat}
    (covered : file.Covers (optional table index)) : Small index := by
  by_cases none : index = 0
  · rw [none]
    decide
  · exact sized.index (covers_optional.1 covered none)

/-- A table of constants has room for its implied entry. -/
theorem pooled_of_small {α : Type} {valid : α → Prop} {items : List α} (small : Small (items.length + 1))
    (h : ∀ item ∈ items, valid item) : Pooled valid items := by
  refine ⟨?_, h⟩
  rw [Small] at small
  omega

theorem small_of_pooled {α : Type} {valid : α → Prop} {items : List α} (h : Pooled valid items) :
    Small (items.length + 1) := by
  have few := h.1
  rw [Small]
  omega

/-! ### From sizes to what can be written -/

section

variable (sized : file.Sized)
include sized

theorem Sized.multiname {info : MultinameInfo} (covered : file.Covers info.stored)
    (small : Small info.parameters.length) : info.WellFormed := by
  cases info with
  | qname | multiname =>
    simp only [MultinameInfo.stored, covers_cons, covers_nil, and_true] at covered
    exact ⟨sized.index covered.1, sized.index covered.2⟩
  | runtimeSpace | runtimeName =>
    simp only [MultinameInfo.stored, covers_cons, covers_nil, and_true] at covered
    exact sized.index covered
  | runtimeBoth attr => trivial
  | typeName base parameters =>
    simp only [MultinameInfo.stored, covers_cons, covers_flatMap] at covered
    exact ⟨sized.index covered.1, small, fun index listed => sized.reference (covered.2 index listed)⟩

theorem Sized.method {info : MethodInfo} (covered : file.Covers info.stored) (plain : info.Plain)
    (small : Small info.paramTypes.length) : info.WellFormed := by
  simp only [MethodInfo.stored, covers_append, covers_flatMap, covers_map, covers_cons, covers_nil,
    and_true] at covered
  obtain ⟨⟨⟨⟨typesAt, resultAt⟩, nameAt⟩, -⟩, namesAt⟩ := covered
  exact {
    paramTypes := ⟨small, fun index listed => sized.reference (typesAt index listed)⟩
    returnType := sized.reference resultAt
    name := sized.index nameAt
    options := by
      have none : info.flags.has MethodFlag.hasOptional = false := by
        rw [plain.flags]
        split <;> decide
      rw [none]
      exact plain.options
    paramNames := by
      rw [plain.flags]
      split
      next unnamed => exact List.isEmpty_iff.1 unnamed
      next => exact ⟨plain.named, fun index listed => sized.index (namesAt index listed)⟩ }

theorem Sized.constant {value : OptionalValue} (covered : file.Covers value.stored)
    (plain : value.Plain) : value.WellFormed := by
  rw [OptionalValue.WellFormed]
  cases known : value.kind.table? with
  | none => exact (plain.low known).trans (by decide)
  | some table =>
    simp only [OptionalValue.stored, known, Option.toList_some, covers_map, List.mem_singleton,
      forall_eq] at covered
    exact sized.index covered

theorem Sized.data {data : TraitData} (covered : file.Covers data.stored) (plain : data.Plain) :
    data.WellFormed := by
  cases data with
  | slot isConst number typeName value =>
    simp only [TraitData.stored, covers_append, covers_flatMap, Option.mem_toList] at covered
    refine ⟨plain.1 ▸ by decide, sized.reference covered.1, ?_⟩
    intro constant held
    exact ⟨sized.constant (covered.2 constant held) (plain.2 constant held), (plain.2 constant held).some⟩
  | method kind dispatch target =>
    simp only [TraitData.stored, covers_cons, covers_nil, and_true] at covered
    have first : dispatch = 0 := plain
    exact ⟨first ▸ by decide, sized.index covered⟩
  | classRef number index =>
    simp only [TraitData.stored, covers_cons, covers_nil, and_true] at covered
    have first : number = 1 := plain
    exact ⟨first ▸ by decide, sized.index covered⟩
  | function number target => exact plain.elim

theorem Sized.trait {info : TraitInfo} (covered : file.Covers info.stored) (plain : info.Plain)
    (small : Small info.metadata.length) : info.WellFormed := by
  simp only [TraitInfo.stored, covers_append, covers_cons, covers_map] at covered
  obtain ⟨⟨nameAt, dataAt⟩, tagsAt⟩ := covered
  exact {
    name := sized.index nameAt
    attributes := by
      rw [plain.attributes, Builder.tagFlag]
      split <;> decide
    data := sized.data dataAt plain.data
    metadata := by
      rw [plain.attributes, Builder.tagFlag]
      split
      next untagged => exact List.isEmpty_iff.1 untagged
      next => exact ⟨small, fun tag listed => sized.index (tagsAt tag listed)⟩ }

theorem Sized.traitList {traits : List TraitInfo} (listed : traits ∈ file.traitLists)
    (covered : file.Covers (traits.flatMap TraitInfo.stored)) (plain : ∀ t ∈ traits, t.Plain) :
    Counted TraitInfo.WellFormed traits := by
  obtain ⟨few, tags⟩ := sized.traits traits listed
  exact ⟨few, fun t member => sized.trait (covers_flatMap.1 covered t member) (plain t member)
    (tags t member)⟩

theorem Sized.object (sound : file.Sound) {info : InstanceInfo} (listed : info ∈ file.instances) :
    info.WellFormed := by
  obtain ⟨covered, announced, plain⟩ := sound.instances info listed
  have among : info.traits ∈ file.traitLists := by
    simp only [traitLists, List.mem_append]
    exact .inl (.inl (.inl (List.mem_map_of_mem listed)))
  simp only [InstanceInfo.stored, covers_cons, covers_append, covers_map] at covered
  obtain ⟨⟨⟨⟨nameAt, superAt⟩, spaceAt⟩, interfacesAt⟩, initAt, traitsAt⟩ := covered
  exact {
    name := sized.index nameAt
    superName := sized.reference superAt
    announced := announced
    protectedSpace := fun space held => sized.index (spaceAt space (Option.mem_toList.2 held))
    interfaces := ⟨sized.interfaces info listed, fun index member => sized.index (interfacesAt index member)⟩
    init := sized.index initAt
    traits := sized.traitList among traitsAt plain }

theorem Sized.scope {info : ScopeInfo} (among : info.traits ∈ file.traitLists)
    (h : file.Covers info.stored ∧ ∀ t ∈ info.traits, t.Plain) : info.WellFormed :=
  ⟨sized.index (covers_cons.1 h.1).1, sized.traitList among (covers_cons.1 h.1).2 h.2⟩

end

/-- The names of the parameters are distinct entries of the string table, so there are no more parameters
    than strings. -/
theorem Sound.paramTypes_length_le (sound : file.Sound) {info : MethodInfo} (listed : info ∈ file.methods) :
    info.paramTypes.length ≤ file.pool.strings.length := by
  obtain ⟨covered, plain⟩ := sound.methods info listed
  simp only [MethodInfo.stored, covers_append, covers_map] at covered
  have within : info.paramNames ⊆ List.range' 1 file.pool.strings.length := by
    intro index member
    have some : index ≠ 0 := fun zero => plain.filled (zero ▸ member)
    have below : index < file.pool.strings.length + 1 := (covered.2 index member).2
    rw [List.mem_range'_1]
    omega
  rw [← plain.named]
  simpa using (List.subperm_of_subset plain.distinct within).length_le

theorem wellFormed_bodyOf {method parameters : Nat} (small : Small method) (fewer : Small (parameters + 1)) :
    (Builder.bodyOf method parameters).WellFormed where
  method := small
  maxStack := show Small 1 by decide
  localCount := fewer
  initScopeDepth := show Small 0 by decide
  maxScopeDepth := show Small 1 by decide
  code := show Small 3 by decide
  exceptions := ⟨show Small 0 by decide, List.forall_mem_nil _⟩
  traits := ⟨show Small 0 by decide, List.forall_mem_nil _⟩

theorem Sized.body (sized : file.Sized) (sound : file.Sound) {body : BodyInfo}
    (listed : body ∈ file.bodies) :
    body.WellFormed := by
  obtain ⟨method, held, same⟩ := sound.bodies body listed
  have methodAt : file.Has .method body.method := ⟨Nat.zero_le _, (List.getElem?_eq_some_iff.1 held).1⟩
  have parameters := sound.paramTypes_length_le (List.mem_of_getElem? held)
  have strings : file.pool.strings.length + 1 < 1073741824 := sized.tables .string
  have fewer : Small (method.paramTypes.length + 1) := by
    unfold Small
    omega
  rw [same]
  exact wellFormed_bodyOf (sized.index methodAt) fewer

theorem Sized.pool (sized : file.Sized) (sound : file.Sound) : file.pool.WellFormed where
  ints := pooled_of_small (sized.tables .int) fun _ _ => trivial
  uints := pooled_of_small (sized.tables .uint) fun _ _ => trivial
  doubles := pooled_of_small (sized.tables .double) fun _ _ => trivial
  strings := pooled_of_small (sized.tables .string) sized.strings
  spaces := pooled_of_small (sized.tables .space) fun info listed =>
    sized.index (covers_cons.1 (sound.entries .space info listed)).1
  spaceSets := pooled_of_small (sized.tables .spaceSet) fun set listed =>
    ⟨sized.spaceSets set listed, fun index member =>
      sized.index (covers_map.1 (sound.entries .spaceSet set listed) index member)⟩
  multinames := pooled_of_small (sized.tables .multiname) fun info listed =>
    sized.multiname (sound.entries .multiname info listed) (sized.multinames info listed)

/-- A block that a builder makes can be written if its sizes can. -/
theorem Sound.wellFormed (sound : file.Sound) (sized : file.Sized) : file.WellFormed where
  major := sound.major
  pool := sized.pool sound
  methods := ⟨sized.tables .method, fun info listed =>
    sized.method (sound.methods info listed).1 (sound.methods info listed).2 (sized.methods info listed).1⟩
  metadata := ⟨sized.tables .metadata, fun info listed => by
    have covered := sound.metadata info listed
    simp only [MetadataInfo.stored, covers_cons, covers_flatMap, covers_nil, and_true] at covered
    exact ⟨sized.index covered.1, sized.metadata info listed, fun item member =>
      (covered.2 item member).imp sized.index sized.index⟩⟩
  instances := ⟨sized.tables .instances, fun info listed => sized.object sound listed⟩
  sides := sound.sides
  classes := fun info listed => by
    have among : info.traits ∈ file.traitLists := by
      simp only [traitLists, List.mem_append]
      exact .inl (.inl (.inr (List.mem_map_of_mem listed)))
    exact sized.scope among (sound.classes info listed)
  scripts := ⟨sized.scripts, fun info listed => by
    have among : info.traits ∈ file.traitLists := by
      simp only [traitLists, List.mem_append]
      exact .inl (.inr (List.mem_map_of_mem listed))
    exact sized.scope among (sound.scripts info listed)⟩
  bodies := ⟨sized.bodies, fun body listed => sized.body sound listed⟩

/-! ### From what can be written to sizes -/

theorem small_metadata {info : TraitInfo} (valid : info.WellFormed) : Small info.metadata.length := by
  have tags := valid.metadata
  split at tags
  next => exact tags.1
  next =>
    rw [tags]
    decide

theorem small_options {info : MethodInfo} (valid : info.WellFormed) : Small info.options.length := by
  have options := valid.options
  split at options
  next => exact options.1
  next =>
    rw [options]
    decide

theorem small_parameters {info : MultinameInfo} (valid : info.WellFormed) :
    Small info.parameters.length := by
  cases info with
  | typeName base parameters => exact valid.2.1
  | qname | runtimeSpace | runtimeBoth | multiname | runtimeName => exact Nat.zero_lt_succ _

/-- The sizes of a block that can be written are small. -/
theorem WellFormed.sized (valid : file.WellFormed) : file.Sized where
  tables := by
    intro table
    cases table with
    | int => exact small_of_pooled valid.pool.ints
    | uint => exact small_of_pooled valid.pool.uints
    | double => exact small_of_pooled valid.pool.doubles
    | string => exact small_of_pooled valid.pool.strings
    | space => exact small_of_pooled valid.pool.spaces
    | spaceSet => exact small_of_pooled valid.pool.spaceSets
    | multiname => exact small_of_pooled valid.pool.multinames
    | method => exact valid.methods.1
    | metadata => exact valid.metadata.1
    | instances => exact valid.instances.1
  scripts := valid.scripts.1
  bodies := valid.bodies.1
  strings := valid.pool.strings.2
  spaceSets := fun set listed => (valid.pool.spaceSets.2 set listed).1
  multinames := fun info listed => small_parameters (valid.pool.multinames.2 info listed)
  methods := fun info listed =>
    ⟨(valid.methods.2 info listed).paramTypes.1, small_options (valid.methods.2 info listed)⟩
  metadata := fun info listed => (valid.metadata.2 info listed).items.1
  interfaces := fun info listed => (valid.instances.2 info listed).interfaces.1
  traits := by
    have counted : ∀ traits ∈ file.traitLists, Counted TraitInfo.WellFormed traits := by
      simp only [traitLists, List.forall_mem_append, List.forall_mem_map]
      exact ⟨⟨⟨fun info listed => (valid.instances.2 info listed).traits,
        fun info listed => (valid.classes info listed).traits⟩,
        fun info listed => (valid.scripts.2 info listed).traits⟩,
        fun body listed => (valid.bodies.2 body listed).traits⟩
    intro traits listed
    exact ⟨(counted traits listed).1, fun t member => small_metadata ((counted traits listed).2 t member)⟩
  code := fun body listed => ⟨(valid.bodies.2 body listed).code, (valid.bodies.2 body listed).exceptions.1⟩

end File

/-! ### Any number of calls -/

/-- What can be asked of a builder. -/
inductive Call where
  | addClass (spec : ClassSpec)
  | string (text : String)

/-- The index of a string is not needed by the block. -/
def Call.run : Call → Builder Unit
  | .addClass spec => Builder.addClass spec
  | .string text => do
    let _ ← Builder.string text

/-- The call with maps. -/
def Call.draft : Call → Drafting Unit
  | .addClass spec => Drafting.addClass spec
  | .string text => do
    let _ ← Drafting.string text

/-- The block after some calls, from the empty one. -/
def File.ofCalls (calls : List Call) : File := ((calls.forM Call.run).run {}).2

/-- The block after some calls, with the maps. -/
def Draft.ofCalls (calls : List Call) : Draft := ((calls.forM Call.draft).run {}).2

/-- The two builders do the same, and leave the block as a builder makes it. -/
theorem Drafting.tracks_call (call : Call) {draft : Draft} (exact : draft.Exact) (sound : draft.file.Sound) :
    Tracks call.draft call.run draft ∧ (call.draft.run draft).2.file.Sound := by
  cases call with
  | addClass spec =>
    obtain ⟨tracks, sound', -⟩ := adds_addClass spec draft exact sound fun _ _ => trivial
    exact ⟨tracks, sound'⟩
  | string text =>
    have keeps : Keeps (fun _ => True) (Call.draft (.string text))
        (Call.run (.string text)) fun _ _ => True :=
      Keeps.bind (keeps_string text) fun _ => Keeps.pure fun _ _ => trivial
    obtain ⟨tracks, sound', -⟩ := keeps draft exact sound fun _ _ => trivial
    exact ⟨tracks, sound'⟩

variable (calls : List Call)

/-- The two builders stay in step over any number of calls. -/
theorem Drafting.tracks_calls {draft : Draft} (exact : draft.Exact) (sound : draft.file.Sound) :
    Tracks (calls.forM Call.draft) (calls.forM Call.run) draft ∧
      ((calls.forM Call.draft).run draft).2.file.Sound := by
  induction calls generalizing draft with
  | nil => exact ⟨⟨rfl, exact⟩, sound⟩
  | cons call rest ih =>
    obtain ⟨tracks, kept⟩ := tracks_call call exact sound
    obtain ⟨tracksRest, keptRest⟩ := ih tracks.2 kept
    exact ⟨tracks.bind tracksRest, keptRest⟩

theorem Draft.ofCalls_eq : (Draft.ofCalls calls).file = File.ofCalls calls ∧ (Draft.ofCalls calls).Exact ∧
    (File.ofCalls calls).Sound := by
  obtain ⟨tracks, sound⟩ := Drafting.tracks_calls calls exact_empty File.sound_empty
  have same : (Draft.ofCalls calls).file = File.ofCalls calls := congrArg Prod.snd tracks.1.symm
  exact ⟨same, tracks.2, same ▸ sound⟩

/-- What is in a block is not entered again: the builder gives its index and leaves the block as it is, and
    it does so for nothing else. -/
theorem Draft.Exact.enterAt_eq_iff {draft : Draft} (exact : draft.Exact) {table : PoolTable}
    {item : table.Entry} (mapped : table.Mapped item) (index : Nat) :
    (Builder.enterAt table item).run draft.file = (index, draft.file) ↔
    draft.file.EntryAt table item index := by
  constructor
  · intro ran
    obtain ⟨place, later, ran', -, held, -⟩ := Drafting.run_enterAt table item draft.file
    rw [ran'] at ran
    obtain ⟨first, unchanged⟩ := Prod.mk.inj ran
    refine ⟨place, first.symm, ?_⟩
    rw [← unchanged, File.withItems, PoolTable.items_withItems]
    exact held
  · intro entry
    have found := (exact table item index).2 ⟨mapped, entry⟩
    have ran : (Drafting.enter table item).run draft = (index, draft) := by
      simp only [Drafting.enter, StateT.run, found, Option.elim_some]
    rw [(Drafting.tracks_enter mapped exact).1, ran]

/-- However classes and strings are added to a block, no constant stands twice in its table, except for empty
    strings and doubles; a builder that keeps maps makes the same block, and its maps have exactly the
    entries of the tables, with their indices; every index in the block is in range; and the block is read
    back from what is written for it just if all its sizes are below 2^30. -/
theorem File.interning_exact (calls : List Call) :
    (∀ (table : PoolTable) (item : table.Entry), table.Mapped item →
        (table.items (File.ofCalls calls).pool).count item ≤ 1 ∧
        ∀ index, (Builder.enterAt table item).run (File.ofCalls calls) = (index, File.ofCalls calls) ↔
          (File.ofCalls calls).EntryAt table item index) ∧
      (Draft.ofCalls calls).file = File.ofCalls calls ∧ (Draft.ofCalls calls).Exact ∧
      (File.ofCalls calls).Covers (File.ofCalls calls).stored ∧
      (File.decode (File.ofCalls calls).encode = .ok (File.ofCalls calls) ↔ (File.ofCalls calls).Sized) := by
  obtain ⟨same, exact, sound⟩ := Draft.ofCalls_eq calls
  refine ⟨?_, same, exact, sound.covers, ?_⟩
  · intro table item mapped
    rw [← same]
    exact ⟨exact.count_le_one mapped, exact.enterAt_eq_iff mapped⟩
  · constructor
    · intro read
      obtain ⟨-, -, valid, -⟩ := File.took_of_decode read
      exact valid.sized
    · intro sized
      exact File.decode_encode (sound.wellFormed sized)

/-- Each value that is an empty string takes an entry of its own. -/
example : (File.ofCalls [.addClass
      { name := ⟨"", "A"⟩
        members :=
          [.slot "a" .publicMember none (some (.string "")) true false [],
           .slot "b" .publicMember none (some (.string "")) true false []] },
    .string "a"]).pool.strings = ["A", "a", "", "b", ""] := by
  decide +kernel

end AbcBuild.Abc
