/-
Module: AbcBuild.Proofs.Following
Purpose: The indices that have to be followed to resolve the names of a block, and when an index is in range.
  Parametrised types refer to other names; unless they run in a circle, they are no deeper than there are
  names.
Main exports: Abc.File.size, Abc.File.Has, Abc.File.Follows, Abc.ConstantPool.Acyclic.within
-/
import AbcBuild.Proofs.Initializers
import Mathlib.Data.List.Perm.Subperm
import Mathlib.Data.List.Range
import Mathlib.Logic.Relation

namespace AbcBuild

/-- The first index of a table that can be followed.  The implied entry of a constant table has no content,
    except for the empty string. -/
def TableKind.first : TableKind → Nat
  | .string | .method | .metadata | .instances => 0
  | .int | .uint | .double | .space | .spaceSet | .multiname => 1

namespace Abc

/-! ### Tables and ranges -/

/-- The number of entries of a table; that of a constant table includes the implied entry. -/
def File.size (file : File) : TableKind → Nat
  | .int => file.pool.ints.length + 1
  | .uint => file.pool.uints.length + 1
  | .double => file.pool.doubles.length + 1
  | .string => file.pool.strings.length + 1
  | .space => file.pool.spaces.length + 1
  | .spaceSet => file.pool.spaceSets.length + 1
  | .multiname => file.pool.multinames.length + 1
  | .method => file.methods.length
  | .metadata => file.metadata.length
  | .instances => file.instances.length

/-- The index is in range. -/
def File.Has (file : File) (table : TableKind) (index : Nat) : Prop :=
  table.first ≤ index ∧ index < file.size table

instance (file : File) (table : TableKind) (index : Nat) : Decidable (file.Has table index) :=
  inferInstanceAs (Decidable (_ ∧ _))

theorem File.zero_or_size_le {file : File} {table : TableKind} {index : Nat} (h : ¬file.Has table index) :
    index = 0 ∨ file.size table ≤ index := by
  have first : table.first ≤ 1 := by cases table <;> decide
  rw [File.Has] at h
  omega

theorem ConstantPool.entry_eq_error_iff {α : Type} {table : TableKind} {items : List α} {index : Nat}
    {e : DecodeError} : entry table items index = .error e ↔
      (index = 0 ∨ items.length < index) ∧ e = .indexOutOfRange table index (items.length + 1) := by
  cases index with
  | zero => simp [entry, eq_comm]
  | succ index =>
    rw [entry]
    split
    next found =>
      have inside := (List.getElem?_eq_some_iff.1 found).1
      rw [iff_false_left (by simp)]
      rintro ⟨outside, -⟩
      omega
    next missing =>
      have outside := List.getElem?_eq_none_iff.1 missing
      simp only [Except.error.injEq, eq_comm (b := e)]
      exact ⟨fun same => ⟨by omega, same⟩, And.right⟩

/-! ### Indices that are followed -/

/-- The indices of other names in a name. -/
def MultinameInfo.mentioned : MultinameInfo → List Nat
  | .typeName base parameters => base :: parameters
  | _ => []

namespace ConstantPool

/-- A parametrised type mentions its base and its parameters. -/
def Mentions (pool : ConstantPool) (index mentioned : Nat) : Prop :=
  ∃ base parameters, pool.multiname index = .ok (.typeName base parameters) ∧
    (mentioned = base ∨ mentioned ∈ parameters)

/-- No parametrised type mentions itself, at whatever depth. -/
def Acyclic (pool : ConstantPool) : Prop := ∀ index, ¬Relation.TransGen pool.Mentions index index

/-- None that the name at an index leads to mentions itself. -/
def AcyclicFrom (pool : ConstantPool) (index : Nat) : Prop :=
  ∀ i, Relation.ReflTransGen pool.Mentions index i → ¬Relation.TransGen pool.Mentions i i

/-- The name can be told before run time. -/
inductive Named (pool : ConstantPool) : Nat → Prop
  | qname {index attr space name} (here : pool.multiname index = .ok (.qname attr space name)) : Named
    pool index
  | multiname {index attr name spaceSet}
      (here : pool.multiname index = .ok (.multiname attr name spaceSet)) : Named pool index
  | typeName {index base parameters} (here : pool.multiname index = .ok (.typeName base parameters))
      (named : Named pool base) : Named pool index

/-- A namespace leads to the string that names it. -/
inductive SpaceFollows (pool : ConstantPool) (space : Nat) : TableKind → Nat → Prop
  | self : SpaceFollows pool space .space space
  | uri {info} (found : pool.space space = .ok info) : SpaceFollows pool space .string info.name

/-- What a reference by name leads to.  Index 0 refers to nothing.  The parameters of a type are looked at
    only if its base can be told. -/
inductive NameFollows (pool : ConstantPool) : Nat → TableKind → Nat → Prop
  | self {index} (some : index ≠ 0) : NameFollows pool index .multiname index
  | space {index attr space name table target} (here : pool.multiname index = .ok (.qname attr space name))
      (inner : SpaceFollows pool space table target) : NameFollows pool index table target
  | name {index attr space name} (here : pool.multiname index = .ok (.qname attr space name)) :
      NameFollows pool index .string name
  | spaceSet {index attr name spaceSet} (here : pool.multiname index = .ok (.multiname attr name spaceSet)) :
      NameFollows pool index .spaceSet spaceSet
  | member {index attr name spaceSet spaces space table target}
      (here : pool.multiname index = .ok (.multiname attr name spaceSet))
        (found : pool.spaceSet spaceSet = .ok spaces)
      (listed : space ∈ spaces) (inner : SpaceFollows pool space table target) : NameFollows pool
        index table target
  | openName {index attr name spaceSet} (here : pool.multiname index = .ok (.multiname attr name spaceSet)) :
      NameFollows pool index .string name
  | base {index base parameters table target} (here : pool.multiname index = .ok (.typeName base parameters))
      (inner : NameFollows pool base table target) : NameFollows pool index table target
  | parameter {index base parameters parameter table target}
      (here : pool.multiname index = .ok (.typeName base parameters)) (named : Named pool base)
      (listed : parameter ∈ parameters) (inner : NameFollows pool parameter table target) :
      NameFollows pool index table target

theorem NameFollows.ne_zero {pool : ConstantPool} {table : TableKind} {index target : Nat}
    (h : NameFollows pool index table target) : index ≠ 0 := by
  cases h with
  | self some => exact some
  | _ => exact (entry_eq_ok_iff.1 ‹pool.multiname index = _›).1

/-- What the name of a member leads to.  There has to be one, and of several namespaces only the first is
    looked at. -/
inductive MemberFollows (pool : ConstantPool) (index : Nat) : TableKind → Nat → Prop
  | self : MemberFollows pool index .multiname index
  | space {attr space name table target} (here : pool.multiname index = .ok (.qname attr space name))
      (inner : SpaceFollows pool space table target) : MemberFollows pool index table target
  | name {attr space name} (here : pool.multiname index = .ok (.qname attr space name)) :
      MemberFollows pool index .string name
  | spaceSet {attr name spaceSet} (here : pool.multiname index = .ok (.multiname attr name spaceSet)) :
      MemberFollows pool index .spaceSet spaceSet
  | member {attr name spaceSet spaces space table target}
      (here : pool.multiname index = .ok (.multiname attr name spaceSet))
        (found : pool.spaceSet spaceSet = .ok spaces)
      (first : spaces.head? = some space) (inner : SpaceFollows pool space table target) :
      MemberFollows pool index table target
  | openName {attr name spaceSet} (here : pool.multiname index = .ok (.multiname attr name spaceSet)) :
      MemberFollows pool index .string name

end ConstantPool

namespace File

open ConstantPool (NameFollows MemberFollows)

/-- What a metadata tag leads to. -/
inductive TagFollows (file : File) (index : Nat) : TableKind → Nat → Prop
  | self : TagFollows file index .metadata index
  | name {info} (found : file.metadata[index]? = some info) : TagFollows file index .string info.name
  | key {info item} (found : file.metadata[index]? = some info) (listed : item ∈ info.items) :
      TagFollows file index .string item.1
  | value {info item} (found : file.metadata[index]? = some info) (listed : item ∈ info.items) :
      TagFollows file index .string item.2

/-- What a method leads to.  Names are looked at as far as there are parameters. -/
inductive MethodFollows (file : File) (method : Nat) : TableKind → Nat → Prop
  | self : MethodFollows file method .method method
  | parameterName {info typeName name} {place : Nat} (found : file.methods[method]? = some info)
      (typed : info.paramTypes[place]? = some typeName) (named : info.paramNames[place]? = some name) :
      MethodFollows file method .string name
  | parameterType {info typeName table target} (found : file.methods[method]? = some info)
      (listed : typeName ∈ info.paramTypes) (inner : NameFollows file.pool typeName table target) :
      MethodFollows file method table target
  | returnType {info table target} (found : file.methods[method]? = some info)
      (inner : NameFollows file.pool info.returnType table target) : MethodFollows file method table target

/-- What a member leads to.  The class that a member may refer to is not looked at. -/
inductive TraitFollows (file : File) (info : TraitInfo) : TableKind → Nat → Prop
  | name {table target} (inner : MemberFollows file.pool info.name table target) : TraitFollows file
    info table target
  | slot {isConst number typeName value table target}
      (data : info.data = .slot isConst number typeName value)
      (inner : NameFollows file.pool typeName table target) : TraitFollows file info table target
  | method {kind dispatch method table target} (data : info.data = .method kind dispatch method)
      (inner : file.MethodFollows method table target) : TraitFollows file info table target
  | function {number method table target} (data : info.data = .function number method)
      (inner : file.MethodFollows method table target) : TraitFollows file info table target
  | tag {tag table target} (listed : tag ∈ info.metadata) (inner : file.TagFollows tag table target) :
      TraitFollows file info table target

end File

/-- The index of the class that a trait refers to. -/
def TraitInfo.classIndex? (info : TraitInfo) : Option Nat :=
  match info.data with
  | .classRef _ index => some index
  | _ => none

namespace File

open ConstantPool (NameFollows)

/-- What a trait of a script leads to: that of a class to the class and its tags, any other to what a member
    does. -/
inductive ScriptFollows (file : File) (info : TraitInfo) : TableKind → Nat → Prop
  | name {table target} (inner : NameFollows file.pool info.name table target) : ScriptFollows file
    info table target
  | classRef {index} (refers : info.classIndex? = some index) : ScriptFollows file info .instances index
  | tag {index tag table target} (refers : info.classIndex? = some index) (listed : tag ∈ info.metadata)
      (inner : file.TagFollows tag table target) : ScriptFollows file info table target
  | definition {table target} (other : info.classIndex? = none)
      (inner : file.TraitFollows info table target) : ScriptFollows file info table target

/-- What the instance side of a class leads to.  It has to have a name. -/
inductive InstanceFollows (file : File) (info : InstanceInfo) : TableKind → Nat → Prop
  | self : InstanceFollows file info .multiname info.name
  | name {table target} (inner : NameFollows file.pool info.name table target) : InstanceFollows file
    info table target
  | superName {table target} (inner : NameFollows file.pool info.superName table target) :
      InstanceFollows file info table target
  | interface {index table target} (listed : index ∈ info.interfaces)
      (inner : NameFollows file.pool index table target) : InstanceFollows file info table target
  | trait {trait table target} (listed : trait ∈ info.traits)
      (inner : file.TraitFollows trait table target) : InstanceFollows file info table target

/-- The indices that have to be followed: from scripts, from instance sides, and from the static side that
    each of these has at its place. -/
inductive Follows (file : File) : TableKind → Nat → Prop
  | script {scope info table target} (listed : scope ∈ file.scripts) (member : info ∈ scope.traits)
      (inner : file.ScriptFollows info table target) : Follows file table target
  | object {info table target} (listed : info ∈ file.instances)
      (inner : file.InstanceFollows info table target) : Follows file table target
  | static {info scope trait table target} {place : Nat} (paired : file.instances[place]? = some info)
      (found : file.classes[place]? = some scope) (member : trait ∈ scope.traits)
      (inner : file.TraitFollows trait table target) : Follows file table target

end File

end Abc

/-! ### The depth of parametrised types -/

namespace Abc.ConstantPool

variable {pool : ConstantPool}

/-- Fewer than so many names are mentioned one by the other, from the name at an index on. -/
def Within (pool : ConstantPool) : Nat → Nat → Prop
  | 0, _ => False
  | depth + 1, index => ∀ mentioned, pool.Mentions index mentioned → Within pool depth mentioned

theorem Within.exists_succ {depth index : Nat} (h : pool.Within depth index) : ∃ less, depth = less + 1 := by
  cases depth with
  | zero => exact h.elim
  | succ less => exact ⟨less, rfl⟩

/-- Names that lead to one another without a circle are all different, and so no more than there are. -/
theorem within_of_passed {depth index : Nat} {passed : List Nat} (acyclic : pool.AcyclicFrom index)
    (distinct : passed.Nodup) (inside : ∀ i ∈ passed, i ∈ List.range' 1 pool.multinames.length)
    (leads : ∀ i ∈ passed, Relation.TransGen pool.Mentions i index)
    (enough : pool.multinames.length < depth + passed.length) : pool.Within depth index := by
  induction depth generalizing index passed with
  | zero =>
    have few := (List.subperm_of_subset distinct inside).length_le
    rw [List.length_range'] at few
    omega
  | succ depth ih =>
    intro mentioned mentions
    have here : index ∈ List.range' 1 pool.multinames.length := by
      obtain ⟨base, parameters, found, -⟩ := mentions
      obtain ⟨some, held⟩ := entry_eq_ok_iff.1 found
      have least := (List.getElem?_eq_some_iff.1 held).1
      rw [List.mem_range'_1]
      omega
    refine ih (fun i later => acyclic i (.head mentions later))
      (List.nodup_cons.2 ⟨fun before => acyclic index .refl (leads index before), distinct⟩)
      (List.forall_mem_cons.2 ⟨here, inside⟩) (List.forall_mem_cons.2 ⟨.single mentions, ?_⟩) ?_
    · exact fun i member => (leads i member).tail mentions
    · rw [List.length_cons]
      omega

theorem Acyclic.within (acyclic : pool.Acyclic) (index : Nat) :
    pool.Within (pool.multinames.length + 1) index :=
  within_of_passed (fun i _ => acyclic i) List.nodup_nil (List.forall_mem_nil _)
    (List.forall_mem_nil _) (by simp)

/-- Names that mention only earlier ones, or none of the table, run in no circle. -/
theorem acyclic_of_earlier (earlier : ∀ entry ∈ pool.multinames.zipIdx 1, ∀ mentioned ∈ entry.1.mentioned,
    mentioned < entry.2 ∨ pool.multinames.length < mentioned) : pool.Acyclic := by
  have step {i j : Nat} (h : pool.Mentions i j) :
      i ≤ pool.multinames.length ∧ (j < i ∨ pool.multinames.length < j) := by
    obtain ⟨base, parameters, here, mentioned⟩ := h
    obtain ⟨some, held⟩ := entry_eq_ok_iff.1 here
    have inside := (List.getElem?_eq_some_iff.1 held).1
    refine ⟨by omega, earlier (.typeName base parameters, i) ?_ j (List.mem_cons.2 mentioned)⟩
    exact List.mem_zipIdx_iff_le_and_getElem?_sub.2 ⟨by omega, held⟩
  have path {i j : Nat} (h : Relation.TransGen pool.Mentions i j) :
      i ≤ pool.multinames.length ∧ (j < i ∨ pool.multinames.length < j) := by
    induction h with
    | single h => exact step h
    | tail _ h ih =>
      have last := step h
      omega
  intro index circle
  have back := path circle
  omega

end Abc.ConstantPool

end AbcBuild
