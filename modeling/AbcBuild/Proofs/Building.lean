/-
Module: AbcBuild.Proofs.Building
Purpose: How a block grows while it is built.  A step only appends, so an index stands for the same thing in
  every block that comes later.
Main exports: Metadata.Keyed, Abc.PoolTable, Abc.File.SpaceAt, Abc.File.NameAt
-/
import AbcBuild.Abc.Builder
import AbcBuild.Analysis.Constants
import AbcBuild.Program.Resolve
import Mathlib.Data.List.Forall2

namespace AbcBuild

/-- No key of the tag is empty. -/
def Metadata.Keyed (tag : Metadata) : Prop := ∀ entry ∈ tag.entries, entry.1 ≠ some ""

instance : DecidablePred Metadata.Keyed := fun tag =>
  inferInstanceAs (Decidable (∀ entry ∈ tag.entries, entry.1 ≠ some ""))

namespace Abc

/-! ### Tables of constants -/

/-- The tables into which a constant is entered only once.  A double is entered each time. -/
inductive PoolTable where
  | string
  | space
  | spaceSet
  | multiname
  | int
  | uint
deriving Repr, DecidableEq

namespace PoolTable

abbrev Entry : PoolTable → Type
  | .string => String
  | .space => NamespaceInfo
  | .spaceSet => List Nat
  | .multiname => MultinameInfo
  | .int => Int32
  | .uint => UInt32

instance : (table : PoolTable) → DecidableEq table.Entry
  | .string => inferInstanceAs (DecidableEq String)
  | .space => inferInstanceAs (DecidableEq NamespaceInfo)
  | .spaceSet => inferInstanceAs (DecidableEq (List Nat))
  | .multiname => inferInstanceAs (DecidableEq MultinameInfo)
  | .int => inferInstanceAs (DecidableEq Int32)
  | .uint => inferInstanceAs (DecidableEq UInt32)

def items : (table : PoolTable) → ConstantPool → List table.Entry
  | .string, pool => pool.strings
  | .space, pool => pool.spaces
  | .spaceSet, pool => pool.spaceSets
  | .multiname, pool => pool.multinames
  | .int, pool => pool.ints
  | .uint, pool => pool.uints

def withItems : (table : PoolTable) → ConstantPool → List table.Entry → ConstantPool
  | .string, pool, items => { pool with strings := items }
  | .space, pool, items => { pool with spaces := items }
  | .spaceSet, pool, items => { pool with spaceSets := items }
  | .multiname, pool, items => { pool with multinames := items }
  | .int, pool, items => { pool with ints := items }
  | .uint, pool, items => { pool with uints := items }

/-- The map of a table has the entry.  An empty string has index 0 and is not looked up; where an entry for
    it is needed, it gets a new one each time. -/
def Mapped : (table : PoolTable) → table.Entry → Prop
  | .string, text => text ≠ ""
  | .space, _ | .spaceSet, _ | .multiname, _ | .int, _ | .uint, _ => True

@[simp]
theorem items_withItems (table : PoolTable) (pool : ConstantPool) (items : List table.Entry) :
    table.items (table.withItems pool items) = items := by
  cases table <;> rfl

theorem withItems_items (table : PoolTable) (pool : ConstantPool) :
    table.withItems pool (table.items pool) = pool := by
  cases table <;> rfl

@[simp] theorem items_withItems_of_ne {table other : PoolTable} (different : other ≠ table)
    (pool : ConstantPool) (items : List table.Entry) :
    other.items (table.withItems pool items) = other.items pool := by
  cases table <;> cases other <;> first | rfl | exact absurd rfl different

end PoolTable

/-! ### Blocks that grow -/

/-- Every constant stays at its place. -/
structure ConstantPool.Extends (p q : ConstantPool) : Prop where
  tables : ∀ table : PoolTable, table.items p <+: table.items q
  doubles : p.doubles <+: q.doubles

theorem ConstantPool.Extends.refl (p : ConstantPool) : p.Extends p :=
  ⟨fun _ => List.prefix_rfl, List.prefix_rfl⟩

theorem ConstantPool.Extends.trans {p q r : ConstantPool} (h : p.Extends q) (h' : q.Extends r) :
    p.Extends r :=
  ⟨fun table => (h.tables table).trans (h'.tables table), h.doubles.trans h'.doubles⟩

/-- A table that grows at its end leaves every index of the pool valid. -/
theorem PoolTable.extends_withItems {table : PoolTable} {pool : ConstantPool} {items : List table.Entry}
    (more : table.items pool <+: items) : pool.Extends (table.withItems pool items) := by
  refine ⟨fun other => ?_, by cases table <;> exact List.prefix_rfl⟩
  by_cases same : other = table
  · subst same
    rw [items_withItems]
    exact more
  · simp only [items_withItems_of_ne same, List.prefix_rfl]

/-- Every constant, method, tag and class stays at its place. -/
structure File.Extends (f g : File) : Prop where
  pool : f.pool.Extends g.pool
  methods : f.methods <+: g.methods
  metadata : f.metadata <+: g.metadata
  instances : f.instances <+: g.instances
  classes : f.classes <+: g.classes

theorem File.Extends.refl (f : File) : f.Extends f :=
  ⟨.refl _, List.prefix_rfl, List.prefix_rfl, List.prefix_rfl, List.prefix_rfl⟩

theorem File.Extends.trans {f g h : File} (fg : f.Extends g) (gh : g.Extends h) : f.Extends h where
  pool := fg.pool.trans gh.pool
  methods := fg.methods.trans gh.methods
  metadata := fg.metadata.trans gh.metadata
  instances := fg.instances.trans gh.instances
  classes := fg.classes.trans gh.classes

/-- The block grows, but neither by classes nor by scripts. -/
structure File.Gains (f g : File) : Prop where
  grows : f.Extends g
  instances : g.instances = f.instances
  classes : g.classes = f.classes
  scripts : g.scripts = f.scripts

theorem File.Gains.refl (f : File) : f.Gains f := ⟨.refl f, rfl, rfl, rfl⟩

theorem File.Gains.trans {f g h : File} (fg : f.Gains g) (gh : g.Gains h) : f.Gains h :=
  ⟨fg.grows.trans gh.grows, gh.instances.trans fg.instances, gh.classes.trans fg.classes,
    gh.scripts.trans fg.scripts⟩

/-- What stands at a place still does when a list grows at its end. -/
theorem getElem?_of_isPrefix {α : Type} {items later : List α} (h : items <+: later) {place : Nat} {item : α}
    (held : items[place]? = some item) : later[place]? = some item := by
  obtain ⟨more, rfl⟩ := h
  rw [List.getElem?_append_left (List.getElem?_eq_some_iff.1 held).1]
  exact held

/-- The entry is in its table and has the index. -/
def File.EntryAt (file : File) (table : PoolTable) (item : table.Entry) (index : Nat) : Prop :=
  ∃ place, index = place + 1 ∧ (table.items file.pool)[place]? = some item

namespace Builder

variable {α : Type}

/-! ### Entering an item -/

theorem getElem?_of_idxOf? [DecidableEq α] {items : List α} {item : α} {place : Nat}
    (found : items.idxOf? item = some place) : items[place]? = some item := by
  obtain ⟨inside, here, -⟩ := List.idxOf?_eq_some_iff.1 found
  exact List.getElem?_eq_some_iff.2 ⟨inside, here⟩

/-- An item that is entered is in the table, where it was or at its end, and nothing else is new. -/
theorem enter_eq [DecidableEq α] (items : List α) (item : α) :
    ∃ place later, enter items item = (place + 1, later) ∧ items <+: later ∧ later[place]? = some item ∧
      ∀ entry ∈ later, entry ∈ items ∨ entry = item := by
  unfold enter
  split
  next place found => exact ⟨place, items, rfl, List.prefix_rfl, getElem?_of_idxOf? found, fun _ => .inl⟩
  next =>
    exact ⟨items.length, items ++ [item], rfl, List.prefix_append .., List.getElem?_concat_length, by simp⟩

end Builder

end Abc

namespace Resolve

variable {α β : Type}

theorem entry_of_getElem? {table : TableKind} {items : List α} {index : Nat} {item : α}
    (h : items[index]? = some item) : entry table items index = .ok item := by
  rw [entry, h]

/-- What can be read for each item can be read for the list. -/
theorem exists_mapM {γ : Type} {R : α → γ → Prop} {read : β → Except DecodeError γ} {items : List α}
    {indices : List β} (h : List.Forall₂ (fun item index => ∃ c, read index = .ok c ∧
      R item c) items indices) :
    ∃ results, indices.mapM read = .ok results ∧ List.Forall₂ R items results := by
  induction h with
  | nil => exact ⟨[], rfl, .nil⟩
  | cons first _ ih =>
    obtain ⟨c, found, related⟩ := first
    obtain ⟨results, rest, along⟩ := ih
    apply Exists.intro (c :: results)
    rw [List.mapM_cons, found, rest]
    exact ⟨rfl, .cons related along⟩

/-- Indices that are read one by one are read together. -/
theorem mapM_of_forall₂ {read : β → Except DecodeError α} {items : List α} {indices : List β}
    (h : List.Forall₂ (fun item index => read index = .ok item) items indices) :
    indices.mapM read = .ok items := by
  obtain ⟨results, found, same⟩ := exists_mapM (R := Eq) (h.imp fun item _ read => ⟨item, read, rfl⟩)
  rw [List.forall₂_eq_eq_eq] at same
  rw [same]
  exact found

end Resolve

namespace Abc

/-- The index stands for a namespace. -/
def File.SpaceAt (g : File) (kind : NamespaceKind) (uri : String) (index : Nat) : Prop :=
  ∃ text, g.pool.space index = .ok ⟨kind, text⟩ ∧ g.pool.string text = .ok uri

/-- The index stands for a name in one namespace. -/
def File.NameAt (g : File) (kind : NamespaceKind) (uri name : String) (index : Nat) : Prop :=
  index ≠ 0 ∧ ∃ space text, g.pool.multiname index = .ok (.qname false space text) ∧
    g.SpaceAt kind uri space ∧ g.pool.string text = .ok name

namespace File

variable {g : File} {kind : NamespaceKind} {uri name : String} {index : Nat}

theorem SpaceAt.spaceUri (h : g.SpaceAt kind uri index) : Resolve.spaceUri g.pool index = .ok uri := by
  obtain ⟨text, space, string⟩ := h
  rw [Resolve.spaceUri, space]
  exact string

section

variable (h : g.NameAt kind uri name index)
include h

/-- A name that was entered is resolved to itself. -/
theorem NameAt.resolves :
    Resolve.name g.pool index = .ok (some (.qualified ⟨uri, name⟩)) := by
  obtain ⟨some, space, text, found, spaceAt, string⟩ := h
  rw [Resolve.name, Resolve.nameWithin, if_neg some, found]
  change (Resolve.spaceUri g.pool space >>= _) = _
  rw [spaceAt.spaceUri]
  change (g.pool.string text >>= _) = _
  rw [string]
  rfl

theorem NameAt.definitionName :
    Resolve.definitionName g.pool index = .ok ⟨uri, name⟩ := by
  rw [Resolve.definitionName, h.resolves]
  rfl

/-- So is the name of a member, under the key of its namespace. -/
theorem NameAt.memberName :
    Resolve.memberName g.pool index = .ok ⟨kind.lookupKey uri, uri, name⟩ := by
  obtain ⟨-, space, text, found, ⟨uriText, spaceAt, uriAt⟩, string⟩ := h
  rw [Resolve.memberName, found]
  change (g.pool.space space >>= _) = _
  rw [spaceAt]
  change (g.pool.string uriText >>= _) = _
  rw [uriAt]
  change (g.pool.string text >>= _) = _
  rw [string]
  rfl

end

theorem NameAt.isPublic (h : g.NameAt .packageSpace uri name index) :
    Resolve.isPublic g.pool index = .ok true := by
  obtain ⟨-, space, text, found, ⟨uriText, spaceAt, -⟩, -⟩ := h
  rw [Resolve.isPublic, found]
  change (g.pool.space space >>= _) = _
  rw [spaceAt]
  rfl

end File

end Abc

end AbcBuild
