/-
Module: AbcBuild.Frame
Purpose: The type information of a unit: slots of the classes it defines, slots taken over from the units it
  depends on, and the names of its other definitions.  Once the unit is generated only its own slots stay.
Main exports: MemberSlot, ClassSlot, Frame, Frame.resolve
-/
import AbcBuild.Class.Member
import AbcBuild.Name.Builtin
import AbcBuild.Table

namespace AbcBuild

/-- The place of a member in its program. -/
structure TraitRef where
  classIndex : Nat
  isStatic : Bool
  index : Nat
deriving Repr, DecidableEq, Inhabited

inductive SlotKind where
  | var
  | const
  | method (kind : MethodKind)
deriving Repr, DecidableEq, Inhabited

def SlotKind.text : SlotKind → String
  | .var => "var"
  | .const => "const"
  | .method kind => kind.text

/-- A data slot, as opposed to a method. -/
def SlotKind.isData : SlotKind → Bool
  | .method _ => false
  | _ => true

/-- What is known of a member. -/
structure MemberSlot where
  name : String
  space : String
  isStatic : Bool
  kind : SlotKind
  declaredType : Option Name
  resolvedType : Option QName := none
  traitRef : Option TraitRef := none
deriving Repr, DecidableEq, Inhabited

/-- What is known of a class. -/
structure ClassSlot where
  name : QName
  isInterface : Bool := false
  superName : Option Name := none
  interfaces : List Name := []
  resolvedSuper : Option QName := none
  resolvedInterfaces : List QName := []
  members : List MemberSlot := []
  /-- The place of the class in its program. -/
  classIndex : Option Nat := none
deriving Repr, DecidableEq, Inhabited

namespace ClassSlot

def member? (c : ClassSlot) (name : String) (isStatic : Bool) : Option MemberSlot :=
  c.members.find? fun m => m.name = name && m.isStatic = isStatic

/-- Without the places in the program. -/
def detach (c : ClassSlot) : ClassSlot :=
  { c with classIndex := none, members := c.members.map fun m => { m with traitRef := none } }

/-- No place in a program is left. -/
def isDetached (c : ClassSlot) : Bool :=
  c.classIndex.isNone && c.members.all fun m => m.traitRef.isNone

end ClassSlot

/-- The type information of a unit. -/
structure Frame where
  own : Table QName ClassSlot := .empty
  imported : Table QName ClassSlot := .empty
  definitions : List QName := []
deriving Repr, DecidableEq, Inhabited

namespace Frame

def insertClass (f : Frame) (slot : ClassSlot) : Frame := { f with own := f.own.insert slot.name slot }

/-- Note a definition that is no class. -/
def insertDefinition (f : Frame) (name : QName) : Frame :=
  if f.definitions.contains name then f else { f with definitions := f.definitions ++ [name] }

/-- The slots of the classes that the unit defines. -/
def classes (f : Frame) : List ClassSlot := f.own.values

/-- The slot of a class, the unit's own first. -/
def lookup? (f : Frame) (name : QName) : Option ClassSlot := (f.own.get? name).or (f.imported.get? name)

def hasClass (f : Frame) (name : QName) : Bool := f.own.contains name || f.imported.contains name

def contains (f : Frame) (name : QName) : Bool := f.hasClass name || f.definitions.contains name

/-- The first candidate that the frame knows. -/
def resolve (f : Frame) (name : Name) : Option QName := name.candidates.find? f.contains

/-- The first candidate that the frame knows, else the first builtin one. -/
def bind (f : Frame) (name : Name) : Option QName := (f.resolve name).or name.builtin?

/-- Take over the slot of a class that is not known yet. -/
def importSlot (f : Frame) (slot : ClassSlot) : Frame × Nat :=
  if f.hasClass slot.name then (f, 0)
  else ({ f with imported := f.imported.insert slot.name slot.detach }, 1)

/-- Take over slots one after the other, and count those that were new. -/
def importSlots : Frame → List ClassSlot → Frame × Nat
  | f, [] => (f, 0)
  | f, slot :: rest =>
    let (f, one) := f.importSlot slot
    let (f, more) := importSlots f rest
    (f, one + more)

/-- Take over the names of definitions that are not known yet. -/
def importDefinitions : Frame → List QName → Frame
  | f, [] => f
  | f, name :: rest =>
    importDefinitions (if f.contains name then f else { f with definitions := f.definitions ++ [name] }) rest

/-- Take over all that another frame knows, and count the classes that were new. -/
def inheritFrom (f other : Frame) : Frame × Nat :=
  let (merged, added) := f.importSlots (other.own.values ++ other.imported.values)
  (merged.importDefinitions other.definitions, added)

/-- Drop what was taken over, and the places in the program. -/
def clean (f : Frame) : Frame :=
  { f with imported := .empty, own := ⟨f.own.entries.map fun (name, slot) => (name, slot.detach)⟩ }

def isClean (f : Frame) : Bool := f.imported.isEmpty && f.classes.all ClassSlot.isDetached

/-- The same slots under the same names, in whatever order, and the same definitions. -/
def same (f g : Frame) : Bool :=
  f.own.sameEntries g.own && f.imported.sameEntries g.imported && f.definitions = g.definitions

end Frame

end AbcBuild
