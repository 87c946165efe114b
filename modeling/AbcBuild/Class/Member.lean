/-
Module: AbcBuild.Class.Member
Purpose: The members of a class as others see them: variables with constant values, methods and accessors.
Main exports: ConstantValue, Variable, Parameter, Method
-/
import AbcBuild.Class.Metadata
import AbcBuild.Number.Shortest
import AbcBuild.Text.Quoted

namespace AbcBuild

/-- The value of a constant initializer. -/
inductive ConstantValue where
  | int (value : Int32)
  | uint (value : UInt32)
  | number (value : Double)
  | string (value : String)
  | boolean (value : Bool)
  | null
  | undefined
  | space (uri : String)
deriving Repr, DecidableEq, Inhabited

namespace ConstantValue

/-- The type that a value has by itself. -/
def typeName : ConstantValue → String
  | .int _ => "int"
  | .uint _ => "uint"
  | .number _ => "Number"
  | .string _ => "String"
  | .boolean _ => "Boolean"
  | .null => "null"
  | .undefined => "void"
  | .space _ => "Namespace"

def text : ConstantValue → String
  | .int value => toString value.toInt
  | .uint value => toString value.toNat
  | .number value => value.text
  | .string value => Text.quote value
  | .boolean value => Text.truth value
  | .null => "null"
  | .undefined => "undefined"
  | .space uri => "namespace " ++ Text.quote uri

end ConstantValue

/-- A variable or constant of a class. -/
structure Variable where
  name : String
  space : String
  typeName : Option String
  isConst : Bool
  isStatic : Bool
  value : Option ConstantValue
  metadata : List Metadata
  declaringClass : String
deriving Repr, DecidableEq, Inhabited

inductive MethodKind where
  | method
  | getter
  | setter
deriving Repr, DecidableEq, Inhabited

def MethodKind.text : MethodKind → String
  | .method => "method"
  | .getter => "getter"
  | .setter => "setter"

structure Parameter where
  name : Option String
  typeName : Option String
  optional : Bool
deriving Repr, DecidableEq, Inhabited

/-- A method or accessor of a class. -/
structure Method where
  name : String
  space : String
  kind : MethodKind
  returnType : Option String
  parameters : List Parameter
  isStatic : Bool
  isFinal : Bool
  isOverride : Bool
  metadata : List Metadata
  declaringClass : String
deriving Repr, DecidableEq, Inhabited

/-- The type of the property that an accessor gives access to: what a getter returns, what a setter takes
    first. -/
def Method.propertyType (m : Method) : Option String :=
  match m.kind with
  | .getter => m.returnType
  | .setter => m.parameters.head?.bind Parameter.typeName
  | .method => none

end AbcBuild
