/-
Module: AbcBuild.Proofs.Interning
Purpose: A builder that looks constants up in maps, one for each table that has no entry twice.  As long as
  each map has exactly the entries of its table, with their indices, looking an entry up comes to the same as
  searching the table.
Main exports: Abc.Draft, Abc.Draft.Exact, Abc.Drafting.tracks_enter, Abc.Draft.Exact.count_le_one
-/
import AbcBuild.Proofs.Building
import AbcBuild.Proofs.Table
import Mathlib.Data.List.NodupEquivFin
import Mathlib.Logic.Function.Basic

namespace AbcBuild.Abc

variable {draft : Draft} {table : PoolTable}

/-! ### Blocks with maps -/

/-- A block under construction, and for each table the map from its entries to their indices. -/
structure Draft where
  file : File := {}
  maps : (table : PoolTable) → Table table.Entry Nat := fun _ => .empty

/-- Each map has exactly the entries of its table, with their indices. -/
def Draft.Exact (draft : Draft) : Prop :=
  ∀ (table : PoolTable) (item : table.Entry) (index : Nat), (draft.maps table).get? item = some index ↔
    table.Mapped item ∧ draft.file.EntryAt table item index

theorem Draft.exact_empty : Draft.Exact {} := by
  intro table item index
  have none : (table.items ({} : File).pool) = [] := by cases table <;> rfl
  rw [File.EntryAt, none]
  simp [Table.get?, Table.empty, Table.lookup]

/-- What a map has does not stand twice in its table. -/
theorem Draft.Exact.count_le_one (exact : draft.Exact) {item : table.Entry}
    (mapped : table.Mapped item) : (table.items draft.file.pool).count item ≤ 1 := by
  apply Nat.le_of_lt_succ
  apply Nat.lt_of_not_le
  intro twice
  obtain ⟨n, m, less, first, second⟩ :=
    List.duplicate_iff_exists_distinct_get.1 (List.duplicate_iff_two_le_count.2 twice)
  have place (k : Fin (table.items draft.file.pool).length)
      (here : item = (table.items draft.file.pool).get k) : (draft.maps table).get? item
        = some (k.val + 1) := by
    apply (exact table item _).2
    refine ⟨mapped, k, rfl, ?_⟩
    rw [here]
    exact List.getElem?_eq_getElem k.isLt
  have same := (place n first).symm.trans (place m second)
  have apart : n.val < m.val := less
  simp only [Option.some.injEq] at same
  omega

/-! ### Steps that append a part -/

namespace Builder

/-- Enter an item into one of the tables. -/
def enterAt (table : PoolTable) (item : table.Entry) : Builder Nat := onPool fun pool =>
  ((enter (table.items pool) item).1, table.withItems pool (enter (table.items pool) item).2)

end Builder

/-! ### The builder with maps -/

/-- A step that extends a block and its maps. -/
abbrev Drafting := StateM Draft

/-- The namespace of a member of the class. -/
def Visibility.uri (owner : QName) : Visibility → String
  | .publicMember => ""
  | .privateMember => owner.text
  | .protectedMember => owner.text
  | .internalMember => owner.space
  | .customSpace uri => uri

/-- The kind of namespace that a visibility asks for. -/
def Visibility.spaceKind : Visibility → NamespaceKind
  | .publicMember => .packageSpace
  | .privateMember => .privateSpace
  | .protectedMember => .protectedSpace
  | .internalMember => .internalSpace
  | .customSpace _ => .userSpace

namespace Drafting

variable {α β : Type}

/-- A step that no map takes part in. -/
def lift (step : Builder α) : Drafting α := fun draft =>
  ((step.run draft.file).1, { draft with file := (step.run draft.file).2 })

/-- Append an entry and put it into its map. -/
def append (table : PoolTable) (item : table.Entry) : Drafting Nat := fun draft =>
  let items := table.items draft.file.pool ++ [item]
  (items.length,
    { file := { draft.file with pool := table.withItems draft.file.pool items }
      maps := Function.update draft.maps table ((draft.maps table).insert item items.length) })

/-- The index that the map of a table has for an item, after entering it if it is new. -/
def enter (table : PoolTable) (item : table.Entry) : Drafting Nat := fun draft =>
  ((draft.maps table).get? item).elim ((append table item).run draft) fun index => (index, draft)

def string (text : String) : Drafting Nat := if text.isEmpty then pure 0 else enter .string text

def space (kind : NamespaceKind) (uri : String) : Drafting Nat := do
  let name ← string uri
  enter .space ⟨kind, name⟩

def qname (kind : NamespaceKind) (uri name : String) : Drafting Nat := do
  let space ← space kind uri
  let name ← string name
  enter .multiname (.qname false space name)

def typeReference : Name → Drafting Nat
  | .qualified q => qname .packageSpace q.space q.name
  | .multi m => do
    let set ← m.spaces.mapM (space .packageSpace)
    let spaceSet ← enter .spaceSet set
    let name ← string m.name
    enter .multiname (.multiname false name spaceSet)

def memberType : Option String → Drafting Nat
  | none => pure 0
  | some name => if name = "*" then pure 0 else typeReference (.qualified (QName.parse name))

def memberName (owner : QName) (visibility : Visibility) (name : String) : Drafting Nat :=
  qname visibility.spaceKind (visibility.uri owner) name

/-- The constant of a literal.  A double and an empty text get a new entry each time. -/
def literal : Literal → Drafting OptionalValue
  | .int value => do
    let index ← enter .int value
    return ⟨.int, index⟩
  | .uint value => do
    let index ← enter .uint value
    return ⟨.uint, index⟩
  | .string value => do
    let index ← if value.isEmpty then lift Builder.emptyText else string value
    return ⟨.string, index⟩
  | value => lift (Builder.literal value)

def metadataItem (entry : Option String × String) : Drafting (Nat × Nat) := do
  let key ← entry.1.elim (pure 0) string
  let value ← string entry.2
  return (key, value)

def metadataTag (tag : Metadata) : Drafting Nat := do
  let name ← string tag.name
  let items ← tag.entries.mapM metadataItem
  lift (Builder.appendTag ⟨name, items⟩)

def methodInfo (name : String) (paramTypes : List String) (returnType : Option String) : Drafting Nat := do
  let types ← paramTypes.mapM fun t => memberType (some t)
  let names ← (Builder.parameterNames paramTypes.length).mapM string
  let result ← memberType returnType
  let name ← string name
  lift (Builder.appendMethod (Builder.methodOf types names result name) paramTypes.length)

def memberTrait (owner : QName) : MemberSpec → Drafting (Bool × TraitInfo)
  | .slot name visibility typeName value isConst isStatic metadata => do
    let name ← memberName owner visibility name
    let type ← memberType typeName
    let value ← value.mapM literal
    let tags ← metadata.mapM metadataTag
    return (isStatic,
      { name := name, attributes := Builder.tagFlag tags
        data := .slot isConst 0 type value, metadata := tags })
  | .method name kind paramTypes returnType isStatic => do
    let traitName ← memberName owner .publicMember name
    let method ← methodInfo name paramTypes returnType
    return (isStatic,
      { name := traitName, attributes := 0, data := .method kind 0 method, metadata := [] })

def addClass (spec : ClassSpec) : Drafting Unit := do
  let name ← qname .packageSpace spec.name.space spec.name.name
  let superName ← spec.superName.elim (pure 0) typeReference
  let interfaces ← spec.interfaces.mapM fun q => typeReference (.qualified q)
  let protectedSpace ← space .protectedSpace spec.name.text
  let instanceInit ← methodInfo "" [] none
  let classInit ← methodInfo "" [] none
  let traits ← spec.members.mapM (memberTrait spec.name)
  lift (Builder.appendSides (Builder.objectOf spec name superName interfaces protectedSpace
    instanceInit traits) ⟨classInit, Builder.side true traits⟩)
  let tags ← spec.metadata.mapM metadataTag
  let scriptInit ← methodInfo "" [] none
  lift (Builder.appendScript name scriptInit tags)

/-! ### The two builders in step -/

/-- The step does to the block what the other does, gives the same result, and leaves the maps exact. -/
def Tracks (step : Drafting α) (plain : Builder α) (draft : Draft) : Prop :=
  plain.run draft.file = ((step.run draft).1, (step.run draft).2.file) ∧ (step.run draft).2.Exact

theorem Tracks.bind {step : Drafting α} {plain : Builder α} {next : α → Drafting β}
    {plainNext : α → Builder β} (h : Tracks step plain draft)
    (rest : Tracks (next (step.run draft).1) (plainNext (step.run draft).1) (step.run draft).2) :
    Tracks (step >>= next) (plain >>= plainNext) draft := by
  refine ⟨?_, rest.2⟩
  change (plainNext (plain.run draft.file).1).run (plain.run draft.file).2 = _
  rw [h.1]
  exact rest.1

/-- A step that leaves every entry of a map at its place. -/
theorem tracks_lift {step : Builder α} (exact : draft.Exact)
    (h : ∀ (table : PoolTable) (item : table.Entry), table.Mapped item → ∀ place : Nat,
      (table.items (step.run draft.file).2.pool)[place]? = some item ↔
        (table.items draft.file.pool)[place]? = some item) :
    Tracks (lift step) step draft := by
  refine ⟨rfl, ?_⟩
  intro table item index
  rw [show ((lift step).run draft).2.maps = draft.maps from rfl, exact table item index]
  apply and_congr_right
  intro mapped
  apply exists_congr
  intro place
  rw [← h table item mapped place]
  rfl

/-! ### Looking up and entering -/

theorem getElem?_concat_eq_some_iff {items : List α} {item entry : α} {place : Nat} :
    (items ++ [item])[place]? = some entry ↔
      items[place]? = some entry ∨ place = items.length ∧ item = entry := by
  rcases Nat.lt_trichotomy place items.length with inside | rfl | outside
  · rw [List.getElem?_append_left inside]
    simp [inside.ne]
  · simp
  · have beyond : (items ++ [item])[place]? = none := by
      rw [List.getElem?_eq_none_iff, List.length_append]
      exact outside
    rw [beyond, List.getElem?_eq_none outside.le]
    simp [outside.ne']

/-- A map that does not have an item becomes exact again when the item is put into it, with the index at the
    end. -/
theorem exact_append (exact : draft.Exact) {item : table.Entry}
    (mapped : table.Mapped item) (absent : ∀ place : Nat,
      (table.items draft.file.pool)[place]? ≠ some item) :
    ((append table item).run draft).2.Exact := by
  intro other entry index
  change (Function.update draft.maps table _ other).get? entry = some index ↔
    _ ∧ ∃ place, _ ∧ (other.items (table.withItems draft.file.pool _))[place]? = some entry
  have before := exact other entry index
  rw [File.EntryAt] at before
  -- only one map and its table have changed
  by_cases same : other = table
  · subst same
    simp only [Function.update_self, PoolTable.items_withItems, Table.get?_insert,
      getElem?_concat_eq_some_iff]
    split
    next here =>
      subst here
      simp [absent, mapped, eq_comm]
    next elsewhere => simp [elsewhere, before]
  · rw [Function.update_of_ne same, PoolTable.items_withItems_of_ne same]
    exact before

/-- Looking an item up in an exact map comes to the same as searching the table. -/
theorem tracks_enter {item : table.Entry} (mapped : table.Mapped item)
    (exact : draft.Exact) : Tracks (enter table item) (Builder.enterAt table item) draft := by
  have searched {place : Nat} (located : (table.items draft.file.pool).idxOf? item = some place) :
      (draft.maps table).get? item = some (place + 1) :=
    (exact table item _).2 ⟨mapped, place, rfl, Builder.getElem?_of_idxOf? located⟩
  simp only [Tracks, enter, Builder.enterAt, Builder.onPool, StateT.run]
  cases located : (table.items draft.file.pool).idxOf? item with
  | some place =>
    have found : Builder.enter (table.items draft.file.pool) item
        = (place + 1, table.items draft.file.pool) := by
      rw [Builder.enter, located]
    rw [found, searched located, PoolTable.withItems_items]
    exact ⟨rfl, exact⟩
  | none =>
    have absent (place : Nat) : (table.items draft.file.pool)[place]? ≠ some item :=
      fun held => List.idxOf?_eq_none_iff.1 located (List.mem_of_getElem? held)
    have unmapped : (draft.maps table).get? item = none := by
      rw [Option.eq_none_iff_forall_ne_some]
      intro index found
      obtain ⟨-, place, -, held⟩ := (exact table item index).1 found
      exact absent place held
    have new : Builder.enter (table.items draft.file.pool) item =
        ((table.items draft.file.pool).length + 1, table.items draft.file.pool ++ [item]) := by
      rw [Builder.enter, located]
    have last : (table.items draft.file.pool ++ [item]).length = (table.items draft.file.pool).length + 1 :=
      List.length_append
    rw [new, unmapped, ← last]
    exact ⟨rfl, exact_append exact mapped absent⟩

/-- An entry for the empty string is in no map. -/
theorem tracks_emptyText (exact : draft.Exact) :
    Tracks (lift Builder.emptyText) Builder.emptyText draft := by
  apply tracks_lift exact
  intro table item mapped place
  cases table with
  | string =>
    change (draft.file.pool.strings ++ [""])[place]? = some item ↔
      draft.file.pool.strings[place]? = some item
    rw [getElem?_concat_eq_some_iff, or_iff_left]
    exact fun last => mapped last.2.symm
  | space | spaceSet | multiname | int | uint => rfl

end Drafting

end AbcBuild.Abc
