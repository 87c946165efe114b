/-
Module: AbcBuild.Proofs.WellFormed
Purpose: The blocks that can be written: indices, counts and lengths are below 2^30, and a part that a flag
  announces is there exactly when the flag is set.
Main exports: Small, Counted, Pooled, File.WellFormed
-/
import AbcBuild.Abc.File
import Mathlib.Tactic.MkIffOfInductiveProp

namespace AbcBuild.Abc

/-- An index or a count that can be written. -/
def Small (n : Nat) : Prop := n < 1073741824

instance (n : Nat) : Decidable (Small n) := inferInstanceAs (Decidable (n < 1073741824))

/-- A list with its count. -/
def Counted {α : Type} (valid : α → Prop) (items : List α) : Prop :=
  Small items.length ∧ ∀ a ∈ items, valid a

instance {α : Type} (valid : α → Prop) [DecidablePred valid] (items : List α) :
    Decidable (Counted valid items) :=
  inferInstanceAs (Decidable (Small items.length ∧ ∀ a ∈ items, valid a))

/-- A constant table, whose count includes the implied entry. -/
def Pooled {α : Type} (valid : α → Prop) (items : List α) : Prop :=
  items.length ≤ 1073741822 ∧ ∀ a ∈ items, valid a

instance {α : Type} (valid : α → Prop) [DecidablePred valid] (items : List α) :
    Decidable (Pooled valid items) :=
  inferInstanceAs (Decidable (items.length ≤ 1073741822 ∧ ∀ a ∈ items, valid a))

/-- A text whose count of bytes can be written. -/
def SmallText (text : String) : Prop := Small (Utf8.encodeString text).length

instance (text : String) : Decidable (SmallText text) := inferInstanceAs (Decidable (Small _))

def NamespaceInfo.WellFormed (info : NamespaceInfo) : Prop := Small info.name

instance : DecidablePred NamespaceInfo.WellFormed :=
  fun info => inferInstanceAs (Decidable (Small info.name))

def MultinameInfo.WellFormed : MultinameInfo → Prop
  | .qname _ space name => Small space ∧ Small name
  | .runtimeSpace _ name => Small name
  | .runtimeBoth _ => True
  | .multiname _ name spaceSet => Small name ∧ Small spaceSet
  | .runtimeName _ spaceSet => Small spaceSet
  | .typeName base parameters => Small base ∧ Counted Small parameters

instance : DecidablePred MultinameInfo.WellFormed
  | .qname _ space name => inferInstanceAs (Decidable (Small space ∧ Small name))
  | .runtimeSpace _ name => inferInstanceAs (Decidable (Small name))
  | .runtimeBoth _ => inferInstanceAs (Decidable True)
  | .multiname _ name spaceSet => inferInstanceAs (Decidable (Small name ∧ Small spaceSet))
  | .runtimeName _ spaceSet => inferInstanceAs (Decidable (Small spaceSet))
  | .typeName base parameters => inferInstanceAs (Decidable (Small base ∧ Counted Small parameters))

@[mk_iff]
structure ConstantPool.WellFormed (pool : ConstantPool) : Prop where
  ints : Pooled (fun _ => True) pool.ints
  uints : Pooled (fun _ => True) pool.uints
  doubles : Pooled (fun _ => True) pool.doubles
  strings : Pooled SmallText pool.strings
  spaces : Pooled NamespaceInfo.WellFormed pool.spaces
  spaceSets : Pooled (Counted Small) pool.spaceSets
  multinames : Pooled MultinameInfo.WellFormed pool.multinames

instance : DecidablePred ConstantPool.WellFormed := fun pool =>
  decidable_of_iff _ (ConstantPool.wellFormed_iff pool).symm

def OptionalValue.WellFormed (value : OptionalValue) : Prop := Small value.index

instance : DecidablePred OptionalValue.WellFormed :=
  fun value => inferInstanceAs (Decidable (Small value.index))

/-- Defaults and names of parameters stand only under their flags, and each parameter has a name or none
    has. -/
@[mk_iff]
structure MethodInfo.WellFormed (info : MethodInfo) : Prop where
  paramTypes : Counted Small info.paramTypes
  returnType : Small info.returnType
  name : Small info.name
  options : if info.flags.has MethodFlag.hasOptional then Counted OptionalValue.WellFormed info.options
    else info.options = []
  paramNames : if info.flags.has MethodFlag.hasParamNames
    then info.paramNames.length = info.paramTypes.length ∧ ∀ name ∈ info.paramNames, Small name
    else info.paramNames = []

instance : DecidablePred MethodInfo.WellFormed := fun info =>
  decidable_of_iff _ (MethodInfo.wellFormed_iff info).symm

@[mk_iff]
structure MetadataInfo.WellFormed (info : MetadataInfo) : Prop where
  name : Small info.name
  items : Counted (fun item => Small item.1 ∧ Small item.2) info.items

instance : DecidablePred MetadataInfo.WellFormed := fun info =>
  decidable_of_iff _ (MetadataInfo.wellFormed_iff info).symm

/-- The value of a slot is no entry 0, which means that there is none. -/
def TraitData.WellFormed : TraitData → Prop
  | .slot _ number typeName value =>
    Small number ∧ Small typeName ∧ ∀ constant ∈ value, constant.WellFormed ∧ constant.index ≠ 0
  | .method _ dispatch target => Small dispatch ∧ Small target
  | .classRef number index => Small number ∧ Small index
  | .function number target => Small number ∧ Small target

instance : DecidablePred TraitData.WellFormed
  | .slot _ number typeName value => inferInstanceAs (Decidable
      (Small number ∧ Small typeName ∧ ∀ constant ∈ value, constant.WellFormed ∧ constant.index ≠ 0))
  | .method _ dispatch target => inferInstanceAs (Decidable (Small dispatch ∧ Small target))
  | .classRef number index => inferInstanceAs (Decidable (Small number ∧ Small index))
  | .function number target => inferInstanceAs (Decidable (Small number ∧ Small target))

/-- Attributes fit into half a byte, and metadata stands only under its flag. -/
@[mk_iff]
structure TraitInfo.WellFormed (info : TraitInfo) : Prop where
  name : Small info.name
  attributes : info.attributes.toNat < 16
  data : info.data.WellFormed
  metadata : if info.attributes.has TraitFlag.metadata then Counted Small info.metadata
    else info.metadata = []

instance : DecidablePred TraitInfo.WellFormed := fun info =>
  decidable_of_iff _ (TraitInfo.wellFormed_iff info).symm

@[mk_iff]
structure InstanceInfo.WellFormed (info : InstanceInfo) : Prop where
  name : Small info.name
  superName : Small info.superName
  announced : info.protectedSpace.isSome = info.flags.has InstanceFlag.protectedSpace
  protectedSpace : ∀ space ∈ info.protectedSpace, Small space
  interfaces : Counted Small info.interfaces
  init : Small info.init
  traits : Counted TraitInfo.WellFormed info.traits

instance : DecidablePred InstanceInfo.WellFormed := fun info =>
  decidable_of_iff _ (InstanceInfo.wellFormed_iff info).symm

@[mk_iff]
structure ScopeInfo.WellFormed (info : ScopeInfo) : Prop where
  init : Small info.init
  traits : Counted TraitInfo.WellFormed info.traits

instance : DecidablePred ScopeInfo.WellFormed := fun info =>
  decidable_of_iff _ (ScopeInfo.wellFormed_iff info).symm

@[mk_iff]
structure ExceptionInfo.WellFormed (info : ExceptionInfo) : Prop where
  start : Small info.start
  stop : Small info.stop
  target : Small info.target
  type : Small info.type
  varName : Small info.varName

instance : DecidablePred ExceptionInfo.WellFormed := fun info =>
  decidable_of_iff _ (ExceptionInfo.wellFormed_iff info).symm

@[mk_iff]
structure BodyInfo.WellFormed (info : BodyInfo) : Prop where
  method : Small info.method
  maxStack : Small info.maxStack
  localCount : Small info.localCount
  initScopeDepth : Small info.initScopeDepth
  maxScopeDepth : Small info.maxScopeDepth
  code : Small info.code.length
  exceptions : Counted ExceptionInfo.WellFormed info.exceptions
  traits : Counted TraitInfo.WellFormed info.traits

instance : DecidablePred BodyInfo.WellFormed := fun info =>
  decidable_of_iff _ (BodyInfo.wellFormed_iff info).symm

/-- A block of a supported version, with a static side for each instance side, whose parts are
    well-formed. -/
@[mk_iff]
structure File.WellFormed (file : File) : Prop where
  major : 46 ≤ file.major.toNat
  pool : file.pool.WellFormed
  methods : Counted MethodInfo.WellFormed file.methods
  metadata : Counted MetadataInfo.WellFormed file.metadata
  instances : Counted InstanceInfo.WellFormed file.instances
  sides : file.classes.length = file.instances.length
  classes : ∀ scope ∈ file.classes, scope.WellFormed
  scripts : Counted ScopeInfo.WellFormed file.scripts
  bodies : Counted BodyInfo.WellFormed file.bodies

instance : DecidablePred File.WellFormed := fun file =>
  decidable_of_iff _ (File.wellFormed_iff file).symm

end AbcBuild.Abc
