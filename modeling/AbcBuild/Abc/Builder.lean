/-
Module: AbcBuild.Abc.Builder
Purpose: Building a block from descriptions of classes.  Strings, namespaces, namespace sets, names and
  integers are entered into their tables once; each class gets a script of its own that defines it.
Main exports: Builder, Builder.string, Builder.addClass, File.ofClasses
-/
import AbcBuild.Abc.ClassSpec

namespace AbcBuild.Abc

/-- A step that extends a block. -/
abbrev Builder := StateM File

namespace Builder

/-- The index of an item in a table, counted from 1, after entering it if it is new. -/
def enter {α : Type} [DecidableEq α] (items : List α) (item : α) : Nat × List α :=
  match items.idxOf? item with
  | some place => (place + 1, items)
  | none => (items.length + 1, items ++ [item])

/-- Change the constant pool, with a result. -/
def onPool {α : Type} (step : ConstantPool → α × ConstantPool) : Builder α := fun file =>
  let (a, pool) := step file.pool
  (a, { file with pool := pool })

/-- The index of a string; the empty one needs no entry. -/
def string (text : String) : Builder Nat :=
  if text.isEmpty then pure 0
  else onPool fun pool =>
    let (index, strings) := enter pool.strings text
    (index, { pool with strings := strings })

def space (kind : NamespaceKind) (uri : String) : Builder Nat := do
  let name ← string uri
  onPool fun pool =>
    let (index, spaces) := enter pool.spaces ⟨kind, name⟩
    (index, { pool with spaces := spaces })

def spaceSet (set : List Nat) : Builder Nat :=
  onPool fun pool =>
    let (index, spaceSets) := enter pool.spaceSets set
    (index, { pool with spaceSets := spaceSets })

def multiname (info : MultinameInfo) : Builder Nat :=
  onPool fun pool =>
    let (index, multinames) := enter pool.multinames info
    (index, { pool with multinames := multinames })

def qname (kind : NamespaceKind) (uri name : String) : Builder Nat := do
  let space ← space kind uri
  let name ← string name
  multiname (.qname false space name)

/-- A reference to a type. -/
def typeReference : Name → Builder Nat
  | .qualified q => qname .packageSpace q.space q.name
  | .multi m => do
    let set ← m.spaces.mapM (space .packageSpace)
    let spaceSet ← spaceSet set
    let name ← string m.name
    multiname (.multiname false name spaceSet)

/-- The type of a member; an absent one and `*` mean any. -/
def memberType : Option String → Builder Nat
  | none => pure 0
  | some name => if name = "*" then pure 0 else typeReference (.qualified (QName.parse name))

/-- The name of a member, in the namespace that its visibility asks for. -/
def memberName (owner : QName) (visibility : Visibility) (name : String) : Builder Nat :=
  match visibility with
  | .publicMember => qname .packageSpace "" name
  | .privateMember => qname .privateSpace owner.text name
  | .protectedMember => qname .protectedSpace owner.text name
  | .internalMember => qname .internalSpace owner.space name
  | .customSpace uri => qname .userSpace uri name

/-- An entry for the empty string.  A slot whose index is 0 has no value, so an empty text needs an entry. -/
def emptyText : Builder Nat :=
  onPool fun pool => (pool.strings.length + 1, { pool with strings := pool.strings ++ [""] })

/-- The constant of a literal.  Constants without a table take the number of their kind for an index. -/
def literal : Literal → Builder OptionalValue
  | .int value => do
    let index ← onPool fun pool =>
      let (index, ints) := enter pool.ints value
      (index, { pool with ints := ints })
    return ⟨.int, index⟩
  | .uint value => do
    let index ← onPool fun pool =>
      let (index, uints) := enter pool.uints value
      (index, { pool with uints := uints })
    return ⟨.uint, index⟩
  | .double value => do
    let index ← onPool fun pool =>
      (pool.doubles.length + 1, { pool with doubles := pool.doubles ++ [value] })
    return ⟨.double, index⟩
  | .string value => do
    let index ← if value.isEmpty then emptyText else string value
    return ⟨.string, index⟩
  | .boolean true => return ⟨.true, ConstantKind.true.code.toNat⟩
  | .boolean false => return ⟨.false, ConstantKind.false.code.toNat⟩
  | .null => return ⟨.null, ConstantKind.null.code.toNat⟩
  | .undefined => return ⟨.undefined, 1⟩

def metadataItem (entry : Option String × String) : Builder (Nat × Nat) := do
  let key ← match entry.1 with
    | none => pure 0
    | some key => string key
  let value ← string entry.2
  return (key, value)

def appendTag (info : MetadataInfo) : Builder Nat := fun file =>
  (file.metadata.length, { file with metadata := file.metadata ++ [info] })

/-- The index of a new tag; tags count from 0. -/
def metadataTag (tag : Metadata) : Builder Nat := do
  let name ← string tag.name
  let items ← tag.entries.mapM metadataItem
  appendTag ⟨name, items⟩

/-- The code of every built method: it only returns. -/
def emptyCode : List UInt8 := [0xd0, 0x30, 0x47]

/-- The names of the parameters: `arg0`, `arg1`, and so on. -/
def parameterNames (count : Nat) : List String :=
  (List.range count).map fun n => "arg" ++ toString n

/-- The body of every built method. -/
def bodyOf (method parameters : Nat) : BodyInfo :=
  { method := method
    maxStack := 1
    localCount := parameters + 1
    initScopeDepth := 0
    maxScopeDepth := 1
    code := emptyCode }

/-- A method with the names of its parameters. -/
def methodOf (types names : List Nat) (result name : Nat) : MethodInfo :=
  { paramTypes := types
    returnType := result
    name := name
    flags := if names.isEmpty then 0 else MethodFlag.hasParamNames
    paramNames := names }

def appendMethod (info : MethodInfo) (parameters : Nat) : Builder Nat := fun file =>
  (file.methods.length,
    { file with
      methods := file.methods ++ [info]
      bodies := file.bodies ++ [bodyOf file.methods.length parameters] })

/-- The index of a new method with its body; methods count from 0. -/
def methodInfo (name : String) (paramTypes : List String) (returnType : Option String) : Builder Nat := do
  let types ← paramTypes.mapM fun t => memberType (some t)
  let names ← (parameterNames paramTypes.length).mapM string
  let result ← memberType returnType
  let name ← string name
  appendMethod (methodOf types names result name) paramTypes.length

/-- The attributes that tell whether tags follow. -/
def tagFlag (tags : List Nat) : Flags := if tags.isEmpty then 0 else TraitFlag.metadata

/-- The trait of a member, and whether it is static. -/
def memberTrait (owner : QName) : MemberSpec → Builder (Bool × TraitInfo)
  | .slot name visibility typeName value isConst isStatic metadata => do
    let name ← memberName owner visibility name
    let type ← memberType typeName
    let value ← value.mapM literal
    let tags ← metadata.mapM metadataTag
    return (isStatic,
      { name := name, attributes := tagFlag tags, data := .slot isConst 0 type value, metadata := tags })
  | .method name kind paramTypes returnType isStatic => do
    let traitName ← memberName owner .publicMember name
    let method ← methodInfo name paramTypes returnType
    return (isStatic,
      { name := traitName, attributes := 0, data := .method kind 0 method, metadata := [] })

/-- The traits with the given staticness, in order. -/
def side (isStatic : Bool) (traits : List (Bool × TraitInfo)) : List TraitInfo :=
  (traits.filter fun t => t.1 = isStatic).map Prod.snd

/-- The instance side of a described class. -/
def objectOf (spec : ClassSpec) (name superName : Nat) (interfaces : List Nat) (protectedSpace init : Nat)
    (traits : List (Bool × TraitInfo)) : InstanceInfo :=
  { name := name
    superName := superName
    flags := spec.flags ||| InstanceFlag.protectedSpace
    protectedSpace := some protectedSpace
    interfaces := interfaces
    init := init
    traits := side false traits }

def appendSides (object : InstanceInfo) (scope : ScopeInfo) : Builder Unit :=
  modify fun file => { file with
    instances := file.instances ++ [object]
    classes := file.classes ++ [scope] }

/-- The script defines the class that was added last. -/
def appendScript (name init : Nat) (tags : List Nat) : Builder Unit :=
  modify fun file =>
    { file with scripts := file.scripts ++
      [⟨init, [⟨name, tagFlag tags, .classRef 1 (file.classes.length - 1), tags⟩]⟩] }

/-- Add a class and the script that defines it. -/
def addClass (spec : ClassSpec) : Builder Unit := do
  let name ← qname .packageSpace spec.name.space spec.name.name
  let superName ← spec.superName.elim (pure 0) typeReference
  let interfaces ← spec.interfaces.mapM fun q => typeReference (.qualified q)
  let protectedSpace ← space .protectedSpace spec.name.text
  let instanceInit ← methodInfo "" [] none
  let classInit ← methodInfo "" [] none
  let traits ← spec.members.mapM (memberTrait spec.name)
  appendSides (objectOf spec name superName interfaces protectedSpace instanceInit traits)
    ⟨classInit, side true traits⟩
  let tags ← spec.metadata.mapM metadataTag
  let scriptInit ← methodInfo "" [] none
  appendScript name scriptInit tags

end Builder

/-- The block of the described classes, in order. -/
def File.ofClasses (specs : List ClassSpec) : File :=
  ((specs.forM Builder.addClass).run {}).2

end AbcBuild.Abc
