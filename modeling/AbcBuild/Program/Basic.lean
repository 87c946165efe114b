/-
Module: AbcBuild.Program.Basic
Purpose: A block with its names resolved.  Values of slots stay references into the constant pool.
Main exports: TraitDef, ClassDef, Program
-/
import AbcBuild.Abc.File
import AbcBuild.Name.Basic

namespace AbcBuild

/-- How far the analysis of a program got. -/
inductive ProgramState where
  /-- Nothing is analyzed. -/
  | fresh
  /-- The frame of the program is built. -/
  | framed
deriving Repr, DecidableEq, Inhabited

structure ParamDef where
  name : Option String
  typeName : Option Name
  optional : Bool
deriving Repr, DecidableEq, Inhabited

/-- What a member defines. -/
inductive TraitBody where
  | slot (typeName : Option Name) (value : Option Abc.OptionalValue) (isConst : Bool)
  | method (kind : MethodKind) (params : List ParamDef) (returnType : Option Name)
  | classRef (index : Nat)
  | function (params : List ParamDef) (returnType : Option Name)
deriving Repr, DecidableEq, Inhabited

/-- A member. -/
structure TraitDef where
  name : String
  /-- The key under which members are looked up. -/
  space : String
  /-- The URI of the namespace as declared. -/
  uri : String
  body : TraitBody
  isFinal : Bool
  isOverride : Bool
  metadata : List Metadata
deriving Repr, DecidableEq, Inhabited

/-- A class. -/
structure ClassDef where
  name : QName
  isPublic : Bool
  superName : Option Name
  interfaces : List Name
  flags : Abc.Flags
  metadata : List Metadata
  instanceTraits : List TraitDef
  staticTraits : List TraitDef
deriving Repr, DecidableEq, Inhabited

namespace ClassDef

def isInterface (c : ClassDef) : Bool := c.flags.has Abc.InstanceFlag.interface

/-- The members of one side. -/
def side (c : ClassDef) (isStatic : Bool) : List TraitDef :=
  if isStatic then c.staticTraits else c.instanceTraits

/-- All members, those of instances first. -/
def traits (c : ClassDef) : List TraitDef := c.instanceTraits ++ c.staticTraits

end ClassDef

/-- A block with its names resolved. -/
structure Program where
  state : ProgramState := .fresh
  file : Abc.File
  classes : List ClassDef
  /-- What scripts define besides classes. -/
  definitions : List (QName × TraitDef)
  /-- The names of all that scripts define. -/
  topLevel : List QName
deriving Repr, DecidableEq, Inhabited

namespace Program

def pool (p : Program) : Abc.ConstantPool := p.file.pool

/-- The first class of a name. -/
def classNamed? (p : Program) (name : QName) : Option ClassDef := p.classes.find? fun c => c.name = name

end Program

end AbcBuild
