/-
Module: AbcBuild.Abc.Decode
Purpose: Reading a block.
Main exports: File.decode
-/
import AbcBuild.Abc.File

namespace AbcBuild.Abc

namespace Decode

/-- A constant table.  Its count includes the implied entry; counts 0 and 1 both mean an empty table. -/
def poolTable {α : Type} (item : Reader α) : Reader (List α) := do
  let count ← Reader.u30
  Reader.times (count - 1) item

/-- A kind told by one byte. -/
def kind {α : Type} (what : Tagged) (ofCode? : UInt8 → Option α) : Reader α := do
  let b ← Reader.u8
  match ofCode? b with
  | some k => return k
  | none => throw (.unknownKind what b)

def spaceInfo : Reader NamespaceInfo := do
  let kind ← kind .space NamespaceKind.ofCode?
  let name ← Reader.u30
  return ⟨kind, name⟩

def qname (attr : Bool) : Reader MultinameInfo := do
  let space ← Reader.u30
  let name ← Reader.u30
  return .qname attr space name

def runtimeSpace (attr : Bool) : Reader MultinameInfo := do
  let name ← Reader.u30
  return .runtimeSpace attr name

def multiname (attr : Bool) : Reader MultinameInfo := do
  let name ← Reader.u30
  let spaceSet ← Reader.u30
  return .multiname attr name spaceSet

def runtimeName (attr : Bool) : Reader MultinameInfo := do
  let spaceSet ← Reader.u30
  return .runtimeName attr spaceSet

def typeName : Reader MultinameInfo := do
  let base ← Reader.u30
  let parameters ← Reader.counted Reader.u30
  return .typeName base parameters

def multinameInfo : Reader MultinameInfo := do
  let b ← Reader.u8
  if b = 0x07 then qname false
  else if b = 0x0d then qname true
  else if b = 0x0f then runtimeSpace false
  else if b = 0x10 then runtimeSpace true
  else if b = 0x11 then return .runtimeBoth false
  else if b = 0x12 then return .runtimeBoth true
  else if b = 0x09 then multiname false
  else if b = 0x0e then multiname true
  else if b = 0x1b then runtimeName false
  else if b = 0x1c then runtimeName true
  else if b = 0x1d then typeName
  else throw (.unknownKind .multiname b)

def constantPool : Reader ConstantPool := do
  let ints ← poolTable Reader.s32
  let uints ← poolTable Reader.u32
  let doubles ← poolTable Reader.d64
  let strings ← poolTable Reader.string
  let spaces ← poolTable spaceInfo
  let spaceSets ← poolTable (Reader.counted Reader.u30)
  let multinames ← poolTable multinameInfo
  return { ints, uints, doubles, strings, spaces, spaceSets, multinames }

def optionalValue : Reader OptionalValue := do
  let index ← Reader.u30
  let kind ← kind .constant ConstantKind.ofCode?
  return ⟨kind, index⟩

def methodInfo : Reader MethodInfo := do
  let count ← Reader.u30
  let returnType ← Reader.u30
  let paramTypes ← Reader.times count Reader.u30
  let name ← Reader.u30
  let flags ← Reader.u8
  let options ← if Flags.has flags MethodFlag.hasOptional then Reader.counted optionalValue else pure []
  let paramNames ← if Flags.has flags MethodFlag.hasParamNames then
      Reader.times count Reader.u30
    else pure []
  return { paramTypes, returnType, name, flags, options, paramNames }

/-- A metadata tag: first all keys, then all values. -/
def metadataInfo : Reader MetadataInfo := do
  let name ← Reader.u30
  let count ← Reader.u30
  let keys ← Reader.times count Reader.u30
  let values ← Reader.times count Reader.u30
  return ⟨name, keys.zip values⟩

/-- The value of a slot: index 0 means none, and then no kind follows. -/
def slotValue : Reader (Option OptionalValue) := do
  let index ← Reader.u30
  if index = 0 then return none
  else
    let kind ← kind .constant ConstantKind.ofCode?
    return some ⟨kind, index⟩

def slot (isConst : Bool) : Reader TraitData := do
  let slot ← Reader.u30
  let typeName ← Reader.u30
  let value ← slotValue
  return .slot isConst slot typeName value

def method (kind : MethodKind) : Reader TraitData := do
  let dispatch ← Reader.u30
  let method ← Reader.u30
  return .method kind dispatch method

def classRef : Reader TraitData := do
  let slot ← Reader.u30
  let index ← Reader.u30
  return .classRef slot index

def function : Reader TraitData := do
  let slot ← Reader.u30
  let method ← Reader.u30
  return .function slot method

def traitData (code : UInt8) : Reader TraitData :=
  if code = 0 then slot false
  else if code = 1 then method .method
  else if code = 2 then method .getter
  else if code = 3 then method .setter
  else if code = 4 then classRef
  else if code = 5 then function
  else if code = 6 then slot true
  else throw (.unknownKind .member code)

/-- A trait.  The kind stands in the low half of a byte, the attributes in the high half. -/
def traitInfo : Reader TraitInfo := do
  let name ← Reader.u30
  let tag ← Reader.u8
  let attributes := tag >>> 4
  let data ← traitData (tag &&& 0x0f)
  let metadata ← if Flags.has attributes TraitFlag.metadata then Reader.counted Reader.u30 else pure []
  return { name, attributes, data, metadata }

def instanceInfo : Reader InstanceInfo := do
  let name ← Reader.u30
  let superName ← Reader.u30
  let flags ← Reader.u8
  let protectedSpace ←
    if Flags.has flags InstanceFlag.protectedSpace then some <$> Reader.u30 else pure none
  let interfaces ← Reader.counted Reader.u30
  let init ← Reader.u30
  let traits ← Reader.counted traitInfo
  return { name, superName, flags, protectedSpace, interfaces, init, traits }

def scopeInfo : Reader ScopeInfo := do
  let init ← Reader.u30
  let traits ← Reader.counted traitInfo
  return { init, traits }

def exceptionInfo : Reader ExceptionInfo := do
  let start ← Reader.u30
  let stop ← Reader.u30
  let target ← Reader.u30
  let type ← Reader.u30
  let varName ← Reader.u30
  return { start, stop, target, type, varName }

def bodyInfo : Reader BodyInfo := do
  let method ← Reader.u30
  let maxStack ← Reader.u30
  let localCount ← Reader.u30
  let initScopeDepth ← Reader.u30
  let maxScopeDepth ← Reader.u30
  let length ← Reader.u30
  let code ← Reader.bytes length
  let exceptions ← Reader.counted exceptionInfo
  let traits ← Reader.counted traitInfo
  return { method, maxStack, localCount, initScopeDepth, maxScopeDepth, code, exceptions, traits }

/-- The versions; a block below major version 46 is refused. -/
def version : Reader (UInt16 × UInt16) := do
  let minor ← Reader.u16
  let major ← Reader.u16
  if major.toNat < 46 then throw (.unsupportedVersion major minor)
  return (minor, major)

/-- A block, whatever follows it. -/
def file : Reader File := do
  let (minor, major) ← version
  let pool ← constantPool
  let methods ← Reader.counted methodInfo
  let metadata ← Reader.counted metadataInfo
  let count ← Reader.u30
  let instances ← Reader.times count instanceInfo
  let classes ← Reader.times count scopeInfo
  let scripts ← Reader.counted scopeInfo
  let bodies ← Reader.counted bodyInfo
  return { minor, major, pool, methods, metadata, instances, classes, scripts, bodies }

end Decode

/-- Read a block that takes up all bytes. -/
def File.decode (bytes : List UInt8) : Except DecodeError File :=
  match Decode.file (Reader.start bytes) with
  | .ok file after => if after.rest.isEmpty then .ok file else .error (.trailingBytes after.rest.length)
  | .error e _ => .error e

end AbcBuild.Abc
