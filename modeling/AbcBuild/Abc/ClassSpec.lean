/-
Module: AbcBuild.Abc.ClassSpec
Purpose: Descriptions of classes from which blocks are built.
Main exports: Visibility, Literal, MemberSpec, ClassSpec and the steps that add to a description
-/
import AbcBuild.Abc.File
import AbcBuild.Name.Basic

namespace AbcBuild.Abc

/-- Who sees a member. -/
inductive Visibility where
  | publicMember
  | privateMember
  | protectedMember
  | internalMember
  /-- Members of a namespace that a program declares. -/
  | customSpace (uri : String)
deriving Repr, DecidableEq, Inhabited

/-- The value that a slot starts with. -/
inductive Literal where
  | int (value : Int32)
  | uint (value : UInt32)
  | double (value : Double)
  | string (value : String)
  | boolean (value : Bool)
  | null
  | undefined
deriving Repr, DecidableEq, Inhabited

/-- The value as a constant. -/
def Literal.constant : Literal → ConstantValue
  | .int value => .int value
  | .uint value => .uint value
  | .double value => .number value
  | .string value => .string value
  | .boolean value => .boolean value
  | .null => .null
  | .undefined => .undefined

/-- A member of a described class.  The parameters of a method are named by their place. -/
inductive MemberSpec where
  | slot (name : String) (visibility : Visibility) (typeName : Option String) (value : Option Literal)
      (isConst isStatic : Bool) (metadata : List Metadata)
  | method (name : String) (kind : MethodKind) (paramTypes : List String) (returnType : Option String)
      (isStatic : Bool)
deriving Repr, DecidableEq, Inhabited

/-- A described class. -/
structure ClassSpec where
  name : QName
  superName : Option Name := none
  interfaces : List QName := []
  flags : Flags := InstanceFlag.sealed
  members : List MemberSpec := []
  metadata : List Metadata := []
deriving Repr, DecidableEq, Inhabited

namespace ClassSpec

/-- A public sealed class; the name is in colon or dotted form. -/
def named (name : String) : ClassSpec := { name := QName.parse name }

def extending (spec : ClassSpec) (name : String) : ClassSpec :=
  { spec with superName := some (.qualified (QName.parse name)) }

/-- A supertype that is referred to through several namespaces. -/
def extendingMulti (spec : ClassSpec) (name : MultiName) : ClassSpec :=
  { spec with superName := some (.multi name) }

def implementing (spec : ClassSpec) (name : String) : ClassSpec :=
  { spec with interfaces := spec.interfaces ++ [QName.parse name] }

def asInterface (spec : ClassSpec) : ClassSpec :=
  { spec with flags := spec.flags ||| InstanceFlag.interface }

def asFinal (spec : ClassSpec) : ClassSpec :=
  { spec with flags := spec.flags ||| InstanceFlag.final }

/-- A dynamic class is not sealed. -/
def asDynamic (spec : ClassSpec) : ClassSpec :=
  { spec with flags := spec.flags &&& ~~~InstanceFlag.sealed }

def tagged (spec : ClassSpec) (tag : Metadata) : ClassSpec :=
  { spec with metadata := spec.metadata ++ [tag] }

def addMember (spec : ClassSpec) (member : MemberSpec) : ClassSpec :=
  { spec with members := spec.members ++ [member] }

/-- A public variable. -/
def var (spec : ClassSpec) (name typeName : String) : ClassSpec :=
  spec.addMember (.slot name .publicMember (some typeName) none false false [])

/-- A public constant. -/
def constant (spec : ClassSpec) (name typeName : String) (value : Literal) (isStatic : Bool) : ClassSpec :=
  spec.addMember (.slot name .publicMember (some typeName) (some value) true isStatic [])

/-- Add a tag to the first slot of a list. -/
def tagFirstSlot (tag : Metadata) : List MemberSpec → List MemberSpec
  | [] => []
  | .slot name visibility typeName value isConst isStatic metadata :: rest =>
    .slot name visibility typeName value isConst isStatic (metadata ++ [tag]) :: rest
  | member :: rest => member :: tagFirstSlot tag rest

/-- Add a tag to the slot added last. -/
def tagLastSlot (spec : ClassSpec) (tag : Metadata) : ClassSpec :=
  { spec with members := (tagFirstSlot tag spec.members.reverse).reverse }

def method (spec : ClassSpec) (name : String) (paramTypes : List String) (returnType : Option String)
    (isStatic : Bool) : ClassSpec :=
  spec.addMember (.method name .method paramTypes returnType isStatic)

def getter (spec : ClassSpec) (name typeName : String) : ClassSpec :=
  spec.addMember (.method name .getter [] (some typeName) false)

def setter (spec : ClassSpec) (name typeName : String) : ClassSpec :=
  spec.addMember (.method name .setter [typeName] (some "void") false)

end ClassSpec

end AbcBuild.Abc
