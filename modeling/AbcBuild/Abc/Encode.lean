/-
Module: AbcBuild.Abc.Encode
Purpose: Writing a block.
Main exports: File.encode
-/
import AbcBuild.Abc.File
import AbcBuild.Bytes.Writer

namespace AbcBuild.Abc

namespace Encode

/-- A constant table.  Its count includes the implied entry, unless the table is empty. -/
def poolTable {α : Type} (item : α → List UInt8) (items : List α) : List UInt8 :=
  Writer.u30 (if items.isEmpty then 0 else items.length + 1) ++ items.flatMap item

def spaceInfo (info : NamespaceInfo) : List UInt8 :=
  info.kind.code :: Writer.u30 info.name

/-- What a name of a form holds, after the byte of the form. -/
def multinameForm : MultinameInfo → List UInt8
  | .qname _ space name => Writer.u30 space ++ Writer.u30 name
  | .runtimeSpace _ name => Writer.u30 name
  | .runtimeBoth _ => []
  | .multiname _ name spaceSet => Writer.u30 name ++ Writer.u30 spaceSet
  | .runtimeName _ spaceSet => Writer.u30 spaceSet
  | .typeName base parameters => Writer.u30 base ++ Writer.counted Writer.u30 parameters

def multinameInfo (info : MultinameInfo) : List UInt8 := info.code :: multinameForm info

def constantPool (pool : ConstantPool) : List UInt8 :=
  poolTable Writer.s32 pool.ints
    ++ poolTable Writer.u32 pool.uints
    ++ poolTable Writer.d64 pool.doubles
    ++ poolTable Writer.string pool.strings
    ++ poolTable spaceInfo pool.spaces
    ++ poolTable (Writer.counted Writer.u30) pool.spaceSets
    ++ poolTable multinameInfo pool.multinames

def optionalValue (value : OptionalValue) : List UInt8 :=
  Writer.u30 value.index ++ [value.kind.code]

def methodInfo (info : MethodInfo) : List UInt8 :=
  Writer.u30 info.paramTypes.length
    ++ Writer.u30 info.returnType
    ++ info.paramTypes.flatMap Writer.u30
    ++ Writer.u30 info.name
    ++ [info.flags]
    ++ (if info.flags.has MethodFlag.hasOptional then Writer.counted optionalValue info.options else [])
    ++ (if info.flags.has MethodFlag.hasParamNames then info.paramNames.flatMap Writer.u30 else [])

/-- A metadata tag: first all keys, then all values. -/
def metadataInfo (info : MetadataInfo) : List UInt8 :=
  Writer.u30 info.name
    ++ Writer.u30 info.items.length
    ++ info.items.flatMap (fun item => Writer.u30 item.1)
    ++ info.items.flatMap (fun item => Writer.u30 item.2)

def traitData : TraitData → List UInt8
  | .slot _ slot typeName value =>
    Writer.u30 slot ++ Writer.u30 typeName ++
      match value with
      | some value => optionalValue value
      | none => Writer.u30 0
  | .method _ dispatch method => Writer.u30 dispatch ++ Writer.u30 method
  | .classRef slot index => Writer.u30 slot ++ Writer.u30 index
  | .function slot method => Writer.u30 slot ++ Writer.u30 method

/-- The kind stands in the low half of a byte, the attributes in the high half. -/
def traitTag (info : TraitInfo) : UInt8 :=
  info.data.code ||| UInt8.ofNat (info.attributes.toNat * 16)

def traitInfo (info : TraitInfo) : List UInt8 :=
  Writer.u30 info.name
    ++ [traitTag info]
    ++ traitData info.data
    ++ (if info.attributes.has TraitFlag.metadata then Writer.counted Writer.u30 info.metadata else [])

def instanceInfo (info : InstanceInfo) : List UInt8 :=
  Writer.u30 info.name
    ++ Writer.u30 info.superName
    ++ [info.flags]
    ++ (match info.protectedSpace with
        | some space => Writer.u30 space
        | none => [])
    ++ Writer.counted Writer.u30 info.interfaces
    ++ Writer.u30 info.init
    ++ Writer.counted traitInfo info.traits

def scopeInfo (info : ScopeInfo) : List UInt8 :=
  Writer.u30 info.init ++ Writer.counted traitInfo info.traits

def exceptionInfo (info : ExceptionInfo) : List UInt8 :=
  Writer.u30 info.start ++ Writer.u30 info.stop ++ Writer.u30 info.target ++ Writer.u30 info.type
    ++ Writer.u30 info.varName

def bodyInfo (info : BodyInfo) : List UInt8 :=
  Writer.u30 info.method
    ++ Writer.u30 info.maxStack
    ++ Writer.u30 info.localCount
    ++ Writer.u30 info.initScopeDepth
    ++ Writer.u30 info.maxScopeDepth
    ++ Writer.u30 info.code.length
    ++ info.code
    ++ Writer.counted exceptionInfo info.exceptions
    ++ Writer.counted traitInfo info.traits

end Encode

/-- The bytes of a block.  The static sides have no count of their own. -/
def File.encode (file : File) : List UInt8 :=
  Writer.u16 file.minor
    ++ Writer.u16 file.major
    ++ Encode.constantPool file.pool
    ++ Writer.counted Encode.methodInfo file.methods
    ++ Writer.counted Encode.metadataInfo file.metadata
    ++ Writer.counted Encode.instanceInfo file.instances
    ++ file.classes.flatMap Encode.scopeInfo
    ++ Writer.counted Encode.scopeInfo file.scripts
    ++ Writer.counted Encode.bodyInfo file.bodies

end AbcBuild.Abc
