/-
Module: AbcBuild.Class.Descriptor
Purpose: What other units know of one class.  Supertype and interfaces are names, looked up where they are
  needed, so descriptors never refer to each other.
Main exports: ClassDescriptor, ClassDescriptor.addVariable, ClassDescriptor.addMethod,
  ClassDescriptor.untyped
-/
import AbcBuild.Class.Member

namespace AbcBuild

/-- The published view of a class. -/
structure ClassDescriptor where
  name : String
  superName : Option String := none
  interfaces : List String := []
  /-- Element type of a vector class. -/
  elementType : Option String := none
  isInterface : Bool := false
  isDynamic : Bool := false
  isFinal : Bool := false
  isPublic : Bool := true
  vars : List Variable := []
  methods : List Method := []
  getters : List Method := []
  setters : List Method := []
  metadata : List Metadata := []
  /-- Name of the source that defines the class. -/
  source : Option String := none
deriving Repr, DecidableEq, Inhabited

namespace ClassDescriptor

/-- Name of the class of values without a type. -/
def untypedName : String := "*"

/-- The class of values without a type. -/
def untyped : ClassDescriptor := { name := untypedName, isDynamic := true }

def addVariable (d : ClassDescriptor) (v : Variable) : ClassDescriptor :=
  { d with vars := d.vars ++ [v] }

/-- Add a method or accessor to the list of its kind. -/
def addMethod (d : ClassDescriptor) (m : Method) : ClassDescriptor :=
  match m.kind with
  | .method => { d with methods := d.methods ++ [m] }
  | .getter => { d with getters := d.getters ++ [m] }
  | .setter => { d with setters := d.setters ++ [m] }

/-- The variable of that name in one of the namespaces. -/
def variableNamed? (d : ClassDescriptor) (spaces : List String) (name : String) : Option Variable :=
  d.vars.find? fun v => v.name = name && spaces.contains v.space

/-- The first of the methods with that name in one of the namespaces. -/
def findMethod (methods : List Method) (spaces : List String) (name : String) : Option Method :=
  methods.find? fun m => m.name = name && spaces.contains m.space

/-- The methods or accessors of one kind. -/
def ofKind (d : ClassDescriptor) : MethodKind → List Method
  | .method => d.methods
  | .getter => d.getters
  | .setter => d.setters

def methodNamed? (d : ClassDescriptor) (kind : MethodKind) (spaces : List String) (name : String) :
    Option Method :=
  findMethod (d.ofKind kind) spaces name

/-- The metadata tags of that name. -/
def tags (d : ClassDescriptor) (name : String) : List Metadata :=
  d.metadata.filter fun tag => tag.name = name

end ClassDescriptor

end AbcBuild
