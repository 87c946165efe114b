/-
Module: AbcBuild.Program.Resolve
Purpose: Resolving the names of a block.  It fails exactly where an index that has to be followed is out of
  range.
Main exports: Resolve.name, Resolve.memberName, Resolve.traitDef, Program.ofFile, Program.decode
-/
import AbcBuild.Abc.Decode
import AbcBuild.Program.Basic
import AbcBuild.Table

namespace AbcBuild

open Abc

/-- The key under which the members of a namespace are looked up: the URI for public and declared namespaces,
    a word for the others. -/
def Abc.NamespaceKind.lookupKey (kind : NamespaceKind) (uri : String) : String :=
  match kind with
  | .packageSpace => uri
  | .protectedSpace => "protected"
  | .staticProtectedSpace => "protected"
  | .internalSpace => "internal"
  | .privateSpace => "private"
  | .userSpace => uri
  | .explicitSpace => uri

namespace Resolve

/-- The URI of a namespace. -/
def spaceUri (pool : ConstantPool) (index : Nat) : Except DecodeError String := do
  let space ← pool.space index
  pool.string space.name

/-- A name with several namespaces; with just one it is qualified. -/
def ofSpaces : List String → String → Name
  | [space], name => .qualified ⟨space, name⟩
  | spaces, name => .multi ⟨spaces, name⟩

/-- The text of a type argument; one without a static name is any type. -/
def argumentText : Option Name → String
  | some n => n.text
  | none => "*"

/-- A parametrised type is qualified, and its arguments stand in its local name. -/
def parametrised (base : QName) (arguments : List String) : Name :=
  .qualified ⟨base.space, base.name ++ ".<" ++ Text.joinWith "," arguments ++ ">"⟩

/-- The name at an index, with parametrised types nested at most `depth` deep. -/
def nameWithin (pool : ConstantPool) : Nat → Nat → Except DecodeError (Option Name)
  | 0, _ => .ok none
  | depth + 1, index =>
    if index = 0 then .ok none
    else do
      match ← pool.multiname index with
      | .qname _ space name =>
        let uri ← spaceUri pool space
        let name ← pool.string name
        return some (.qualified ⟨uri, name⟩)
      | .multiname _ name spaceSet =>
        let set ← pool.spaceSet spaceSet
        let spaces ← set.mapM (spaceUri pool)
        let name ← pool.string name
        return some (ofSpaces spaces name)
      | .typeName base parameters =>
        match ← nameWithin pool depth base with
        | none => return none
        | some base =>
          let arguments ← parameters.mapM (nameWithin pool depth)
          return some (parametrised base.first (arguments.map argumentText))
      | .runtimeSpace .. => return none
      | .runtimeBoth .. => return none
      | .runtimeName .. => return none

/-- The name at an index.  Index 0 and names given at run time have no static name.  No chain of parametrised
    types that does not run in a circle is longer than the table of names. -/
def name (pool : ConstantPool) (index : Nat) : Except DecodeError (Option Name) :=
  nameWithin pool (pool.multinames.length + 1) index

/-- The qualified name of a definition; a name that cannot be told is empty. -/
def definitionName (pool : ConstantPool) (index : Nat) : Except DecodeError QName := do
  match ← name pool index with
  | some n => return n.first
  | none => return QName.unnamed ""

/-- The name of a member. -/
structure MemberName where
  space : String
  uri : String
  name : String
deriving Repr, DecidableEq, Inhabited

/-- The name of a member with its lookup key; of several namespaces the first counts. -/
def memberName (pool : ConstantPool) (index : Nat) : Except DecodeError MemberName := do
  match ← pool.multiname index with
  | .qname _ space name =>
    let space ← pool.space space
    let uri ← pool.string space.name
    let name ← pool.string name
    return ⟨space.kind.lookupKey uri, uri, name⟩
  | .multiname _ name spaceSet =>
    let set ← pool.spaceSet spaceSet
    let (key, uri) ← match set.head? with
      | some first => do
        let space ← pool.space first
        let uri ← pool.string space.name
        pure (space.kind.lookupKey uri, uri)
      | none => pure ("", "")
    let name ← pool.string name
    return ⟨key, uri, name⟩
  | _ => return ⟨"", "", ""⟩

/-- An entry of a table whose indices count from 0. -/
def entry {α : Type} (table : TableKind) (items : List α) (index : Nat) : Except DecodeError α :=
  match items[index]? with
  | some item => .ok item
  | none => .error (.indexOutOfRange table index items.length)

/-- A key and a value of a metadata tag; key 0 means none. -/
def metadataItem (pool : ConstantPool) (item : Nat × Nat) : Except DecodeError (Option String × String) := do
  let key ← if item.1 = 0 then pure none else some <$> pool.string item.1
  let value ← pool.string item.2
  return (key, value)

def metadataTag (file : File) (index : Nat) : Except DecodeError Metadata := do
  let info ← entry .metadata file.metadata index
  let name ← file.pool.string info.name
  let entries ← info.items.mapM (metadataItem file.pool)
  return ⟨name, entries⟩

/-- The parameter at a place of a signature.  The optional ones are the last. -/
def paramDef (file : File) (info : MethodInfo) (place typeIndex : Nat) : Except DecodeError ParamDef := do
  let name ← match info.paramNames[place]? with
    | some index => if index = 0 then pure none else some <$> file.pool.string index
    | none => pure none
  let typeName ← Resolve.name file.pool typeIndex
  return ⟨name, typeName, info.paramTypes.length - info.options.length ≤ place⟩

/-- The parameters from a place on. -/
def paramDefs (file : File) (info : MethodInfo) : Nat → List Nat → Except DecodeError (List ParamDef)
  | _, [] => .ok []
  | place, typeIndex :: rest => do
    let first ← paramDef file info place typeIndex
    let more ← paramDefs file info (place + 1) rest
    return first :: more

/-- The parameters and the return type of a method. -/
def signature (file : File) (method : Nat) : Except DecodeError (List ParamDef × Option Name) := do
  let info ← entry .method file.methods method
  let params ← paramDefs file info 0 info.paramTypes
  let returnType ← name file.pool info.returnType
  return (params, returnType)

def traitBody (file : File) : TraitData → Except DecodeError TraitBody
  | .slot isConst _ typeName value => do
    let typeName ← name file.pool typeName
    return .slot typeName value isConst
  | .method kind _ method => do
    let (params, returnType) ← signature file method
    return .method kind params returnType
  | .classRef _ index => return .classRef index
  | .function _ method => do
    let (params, returnType) ← signature file method
    return .function params returnType

def traitDef (file : File) (info : TraitInfo) : Except DecodeError TraitDef := do
  let member ← memberName file.pool info.name
  let body ← traitBody file info.data
  let metadata ← info.metadata.mapM (metadataTag file)
  return {
    name := member.name
    space := member.space
    uri := member.uri
    body := body
    isFinal := info.attributes.has TraitFlag.final
    isOverride := info.attributes.has TraitFlag.override
    metadata := metadata }

/-- What the scripts of a block define: the names of all traits, the traits that are no classes, and the
    metadata of classes by their index, the last first. -/
structure Scripts where
  topLevel : List QName := []
  definitions : List (QName × TraitDef) := []
  classTags : List (Nat × List Metadata) := []
deriving Repr, DecidableEq, Inhabited

/-- Add what one trait of a script defines. -/
def scriptTrait (file : File) (found : Scripts) (info : TraitInfo) : Except DecodeError Scripts := do
  let name ← definitionName file.pool info.name
  let found := { found with topLevel := found.topLevel ++ [name] }
  match info.data with
  | .classRef _ index =>
    let _ ← entry .instances file.instances index
    let tags ← info.metadata.mapM (metadataTag file)
    return { found with classTags := (index, tags) :: found.classTags }
  | _ =>
    let definition ← traitDef file info
    return { found with definitions := found.definitions ++ [(name, definition)] }

/-- What all scripts define. -/
def scripts (file : File) : Except DecodeError Scripts :=
  (file.scripts.flatMap ScopeInfo.traits).foldlM (scriptTrait file) {}

/-- A class is public unless its name is qualified by a namespace that is no package. -/
def isPublic (pool : ConstantPool) (index : Nat) : Except DecodeError Bool := do
  match ← pool.multiname index with
  | .qname _ space _ =>
    let space ← pool.space space
    return space.kind = .packageSpace
  | _ => return true

/-- The class of the instance at a place. -/
def classDef (file : File) (tags : List (Nat × List Metadata)) (place : Nat) (info : InstanceInfo) :
    Except DecodeError ClassDef := do
  let className ← definitionName file.pool info.name
  let visible ← isPublic file.pool info.name
  let superName ← name file.pool info.superName
  let interfaces ← info.interfaces.mapM (name file.pool)
  let instanceTraits ← info.traits.mapM (traitDef file)
  let staticTraits ← match file.classes[place]? with
    | some scope => scope.traits.mapM (traitDef file)
    | none => pure []
  return {
    name := className
    isPublic := visible
    superName := superName
    interfaces := interfaces.filterMap id
    flags := info.flags
    metadata := (Table.lookup place tags).getD []
    instanceTraits := instanceTraits
    staticTraits := staticTraits }

/-- The classes of the instances from a place on. -/
def classDefs (file : File) (tags : List (Nat × List Metadata)) :
    Nat → List InstanceInfo → Except DecodeError (List ClassDef)
  | _, [] => .ok []
  | place, info :: rest => do
    let first ← classDef file tags place info
    let more ← classDefs file tags (place + 1) rest
    return first :: more

end Resolve

namespace Program

/-- Resolve the names of a block. -/
def ofFile (file : File) : Except DecodeError Program := do
  let found ← Resolve.scripts file
  let classes ← Resolve.classDefs file found.classTags 0 file.instances
  return {
    file := file
    classes := classes
    definitions := found.definitions
    topLevel := found.topLevel }

/-- Read a block and resolve its names. -/
def decode (bytes : List UInt8) : Except DecodeError Program := do
  let file ← File.decode bytes
  ofFile file

end Program

end AbcBuild
