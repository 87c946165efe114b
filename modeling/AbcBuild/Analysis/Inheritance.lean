/-
Module: AbcBuild.Analysis.Inheritance
Purpose: The frame of a program, and binding the supertypes and interfaces of its classes.
Main exports: Program.frame, Program.classNames, Frame.resolveInheritance
-/
import AbcBuild.Frame
import AbcBuild.Program.Basic

namespace AbcBuild

namespace Program

/-- The slot of a member; nested classes and functions have none. -/
def memberSlot? (ref : TraitRef) (definition : TraitDef) : Option MemberSlot :=
  let slot (kind : SlotKind) (declared : Option Name) : MemberSlot :=
    { name := definition.name
      space := definition.space
      isStatic := ref.isStatic
      kind := kind
      declaredType := declared
      traitRef := some ref }
  match definition.body with
  | .slot typeName _ isConst => some (slot (if isConst then .const else .var) typeName)
  | .method kind _ returnType => some (slot (.method kind) returnType)
  | .classRef _ => none
  | .function .. => none

/-- Members with their places, counted from `index`. -/
def placed (classIndex : Nat) (isStatic : Bool) (definitions : List TraitDef) : List (TraitRef × TraitDef) :=
  definitions.zipIdx.map fun (definition, index) => (⟨classIndex, isStatic, index⟩, definition)

/-- All members of a class with their places, those of instances first. -/
def members (classIndex : Nat) (c : ClassDef) : List (TraitRef × TraitDef) :=
  placed classIndex false c.instanceTraits ++ placed classIndex true c.staticTraits

/-- Classes with their places, counted from `index`. -/
def indexed (classes : List ClassDef) : List (Nat × ClassDef) := classes.zipIdx.map Prod.swap

/-- The slot of a class, with its names as written. -/
def classSlot (classIndex : Nat) (c : ClassDef) : ClassSlot :=
  { name := c.name
    isInterface := c.isInterface
    superName := c.superName
    interfaces := c.interfaces
    members := (members classIndex c).filterMap fun (ref, definition) => memberSlot? ref definition
    classIndex := some classIndex }

/-- The names of the classes, in order. -/
def classNames (p : Program) : List QName := p.classes.map ClassDef.name

/-- The frame of a program: a slot for each class, and the names of the other definitions. -/
def frame (p : Program) : Frame :=
  let slots := (indexed p.classes).map fun (index, c) => classSlot index c
  let withClasses := slots.foldl Frame.insertClass {}
  (p.definitions.map Prod.fst).foldl Frame.insertDefinition withClasses

end Program

namespace Frame

/-- The supertype and the interfaces that a slot is bound to, and the names that are not bound. -/
structure Binding where
  name : QName
  superName : Option QName
  interfaces : List QName
  unresolved : List Name
deriving Repr, DecidableEq, Inhabited

/-- Bind the names of one class. -/
def bindClass (f : Frame) (name : QName) : Option Binding :=
  (f.lookup? name).map fun slot =>
    { name := name
      superName := slot.superName.bind f.bind
      interfaces := slot.interfaces.filterMap f.bind
      unresolved := (slot.superName.toList ++ slot.interfaces).filter fun n => (f.bind n).isNone }

/-- Enter a binding into the class's own slot. -/
def applyBinding (f : Frame) (b : Binding) : Frame :=
  { f with own := f.own.modify b.name fun slot =>
      { slot with resolvedSuper := b.superName, resolvedInterfaces := b.interfaces } }

/-- Bind the supertypes and interfaces of the named classes, and collect the names that are not bound. -/
def resolveInheritance (f : Frame) (names : List QName) : Frame × List Name :=
  let bindings := names.filterMap f.bindClass
  (bindings.foldl applyBinding f, bindings.flatMap Binding.unresolved)

end Frame

end AbcBuild
