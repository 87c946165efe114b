/-
Module: AbcBuild.Abc.File
Purpose: The parts of an ABC block as they stand in it.  Parts refer to each other by index.  Entry 0 of each
  constant table is implied: an index counts from 1, and 0 means "none" or "any".
Main exports: MultinameInfo, ConstantPool, TraitInfo, File
-/
import AbcBuild.Bytes.Reader
import AbcBuild.Class.Member

namespace AbcBuild.Abc

/-- The kinds of namespaces. -/
inductive NamespaceKind where
  | userSpace
  | packageSpace
  | internalSpace
  | protectedSpace
  | explicitSpace
  | staticProtectedSpace
  | privateSpace
deriving Repr, DecidableEq, Inhabited

namespace NamespaceKind

def all : List NamespaceKind :=
  [.userSpace, .packageSpace, .internalSpace, .protectedSpace, .explicitSpace, .staticProtectedSpace,
    .privateSpace]

/-- The byte that stands for a kind. -/
def code : NamespaceKind → UInt8
  | .userSpace => 0x08
  | .packageSpace => 0x16
  | .internalSpace => 0x17
  | .protectedSpace => 0x18
  | .explicitSpace => 0x19
  | .staticProtectedSpace => 0x1a
  | .privateSpace => 0x05

def ofCode? (b : UInt8) : Option NamespaceKind := all.find? fun k => k.code = b

end NamespaceKind

/-- The kinds of constants that a slot or an optional parameter can start with. -/
inductive ConstantKind where
  | undefined
  | string
  | int
  | uint
  | double
  | false
  | true
  | null
  | space (kind : NamespaceKind)
deriving Repr, DecidableEq, Inhabited

namespace ConstantKind

def all : List ConstantKind :=
  [.undefined, .string, .int, .uint, .double, .false, .true, .null] ++ NamespaceKind.all.map .space

/-- The byte that stands for a kind; a namespace has the byte of its own kind. -/
def code : ConstantKind → UInt8
  | .undefined => 0x00
  | .string => 0x01
  | .int => 0x03
  | .uint => 0x04
  | .double => 0x06
  | .false => 0x0a
  | .true => 0x0b
  | .null => 0x0c
  | .space kind => kind.code

def ofCode? (b : UInt8) : Option ConstantKind := all.find? fun k => k.code = b

end ConstantKind

/-- A namespace: its kind and the string that names it. -/
structure NamespaceInfo where
  kind : NamespaceKind
  name : Nat
deriving Repr, DecidableEq, Inhabited

/-- A name in the pool.  `attr` marks the form that names an attribute.  What a form does not hold is given
    at run time. -/
inductive MultinameInfo where
  | qname (attr : Bool) (space name : Nat)
  | runtimeSpace (attr : Bool) (name : Nat)
  | runtimeBoth (attr : Bool)
  | multiname (attr : Bool) (name spaceSet : Nat)
  | runtimeName (attr : Bool) (spaceSet : Nat)
  /-- A parametrised type. -/
  | typeName (base : Nat) (parameters : List Nat)
deriving Repr, DecidableEq, Inhabited

/-- The byte that stands for the form of a name. -/
def MultinameInfo.code : MultinameInfo → UInt8
  | .qname attr .. => if attr then 0x0d else 0x07
  | .runtimeSpace attr _ => if attr then 0x10 else 0x0f
  | .runtimeBoth attr => if attr then 0x12 else 0x11
  | .multiname attr .. => if attr then 0x0e else 0x09
  | .runtimeName attr _ => if attr then 0x1c else 0x1b
  | .typeName .. => 0x1d

/-- The constant tables of a block. -/
structure ConstantPool where
  ints : List Int32 := []
  uints : List UInt32 := []
  doubles : List Double := []
  strings : List String := []
  spaces : List NamespaceInfo := []
  spaceSets : List (List Nat) := []
  multinames : List MultinameInfo := []
deriving Repr, DecidableEq, Inhabited

namespace ConstantPool

/-- The entry at an index that counts from 1. -/
def entry {α : Type} (table : TableKind) (items : List α) : Nat → Except DecodeError α
  | 0 => .error (.indexOutOfRange table 0 (items.length + 1))
  | index + 1 =>
    match items[index]? with
    | some item => .ok item
    | none => .error (.indexOutOfRange table (index + 1) (items.length + 1))

def int (pool : ConstantPool) (index : Nat) : Except DecodeError Int32 := entry .int pool.ints index

def uint (pool : ConstantPool) (index : Nat) : Except DecodeError UInt32 := entry .uint pool.uints index

def double (pool : ConstantPool) (index : Nat) : Except DecodeError Double :=
  entry .double pool.doubles index

/-- A string; index 0 is the empty one. -/
def string (pool : ConstantPool) (index : Nat) : Except DecodeError String :=
  if index = 0 then .ok "" else entry .string pool.strings index

def space (pool : ConstantPool) (index : Nat) : Except DecodeError NamespaceInfo :=
  entry .space pool.spaces index

def spaceSet (pool : ConstantPool) (index : Nat) : Except DecodeError (List Nat) :=
  entry .spaceSet pool.spaceSets index

def multiname (pool : ConstantPool) (index : Nat) : Except DecodeError MultinameInfo :=
  entry .multiname pool.multinames index

end ConstantPool

/-- A constant: its kind and its index in the table of that kind. -/
structure OptionalValue where
  kind : ConstantKind
  index : Nat
deriving Repr, DecidableEq, Inhabited

/-- A set of flags as one byte; unknown bits are kept. -/
abbrev Flags := UInt8

/-- The flag is set. -/
def Flags.has (flags flag : Flags) : Bool := flags &&& flag ≠ 0

namespace MethodFlag

def hasOptional : Flags := 0x08

def hasParamNames : Flags := 0x80

end MethodFlag

namespace InstanceFlag

def sealed : Flags := 0x01

def final : Flags := 0x02

def interface : Flags := 0x04

def protectedSpace : Flags := 0x08

end InstanceFlag

namespace TraitFlag

def final : Flags := 0x1

def override : Flags := 0x2

def metadata : Flags := 0x4

end TraitFlag

/-- The signature of a method. -/
structure MethodInfo where
  paramTypes : List Nat := []
  returnType : Nat := 0
  name : Nat := 0
  flags : Flags := 0
  options : List OptionalValue := []
  paramNames : List Nat := []
deriving Repr, DecidableEq, Inhabited

/-- A metadata tag: its name, and keys with values, all of them strings; key 0 means none. -/
structure MetadataInfo where
  name : Nat
  items : List (Nat × Nat)
deriving Repr, DecidableEq, Inhabited

/-- What a trait defines. -/
inductive TraitData where
  | slot (isConst : Bool) (slot typeName : Nat) (value : Option OptionalValue)
  | method (kind : MethodKind) (dispatch method : Nat)
  | classRef (slot index : Nat)
  | function (slot method : Nat)
deriving Repr, DecidableEq, Inhabited

/-- The number that stands for the kind of a trait. -/
def TraitData.code : TraitData → UInt8
  | .slot isConst .. => if isConst then 6 else 0
  | .method .method .. => 1
  | .method .getter .. => 2
  | .method .setter .. => 3
  | .classRef .. => 4
  | .function .. => 5

/-- A member of a class, an instance or a script. -/
structure TraitInfo where
  name : Nat
  attributes : Flags
  data : TraitData
  metadata : List Nat
deriving Repr, DecidableEq, Inhabited

/-- The instance side of a class. -/
structure InstanceInfo where
  name : Nat
  superName : Nat
  flags : Flags
  protectedSpace : Option Nat
  interfaces : List Nat
  init : Nat
  traits : List TraitInfo
deriving Repr, DecidableEq, Inhabited

/-- The static side of a class, or a script. -/
structure ScopeInfo where
  init : Nat
  traits : List TraitInfo
deriving Repr, DecidableEq, Inhabited

/-- A range of code with its handler. -/
structure ExceptionInfo where
  start : Nat
  stop : Nat
  target : Nat
  type : Nat
  varName : Nat
deriving Repr, DecidableEq, Inhabited

/-- The code of a method, which is not looked into. -/
structure BodyInfo where
  method : Nat
  maxStack : Nat
  localCount : Nat
  initScopeDepth : Nat
  maxScopeDepth : Nat
  code : List UInt8
  exceptions : List ExceptionInfo := []
  traits : List TraitInfo := []
deriving Repr, DecidableEq, Inhabited

/-- An ABC block. -/
structure File where
  minor : UInt16 := 16
  major : UInt16 := 46
  pool : ConstantPool := {}
  methods : List MethodInfo := []
  metadata : List MetadataInfo := []
  instances : List InstanceInfo := []
  /-- The static sides, in the order of the instances. -/
  classes : List ScopeInfo := []
  scripts : List ScopeInfo := []
  bodies : List BodyInfo := []
deriving Repr, DecidableEq, Inhabited

end AbcBuild.Abc
