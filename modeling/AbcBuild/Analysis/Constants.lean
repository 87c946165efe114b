/-
Module: AbcBuild.Analysis.Constants
Purpose: The types of data slots, and the values of their initializers.  A value is taken over into the
  declared type where the type is a number; a value that does not fit is reported.
Main exports: SlotTypes, Frame.resolveTypes, Constant.ofPool, Constant.coerce, Program.constants
-/
import AbcBuild.Analysis.Inheritance
import AbcBuild.Diagnostic

namespace AbcBuild

/-- The types of data slots by their places. -/
abbrev SlotTypes := Table TraitRef QName

namespace Frame

/-- A data slot of a class, with the type it is declared to have. -/
structure TypedSlot where
  owner : QName
  member : MemberSlot
  declared : Name
deriving Repr, DecidableEq, Inhabited

/-- The unit's own data slots that declare a type, in class and member order. -/
def typedSlots (f : Frame) : List TypedSlot :=
  f.classes.flatMap fun c =>
    c.members.filterMap fun m =>
      if m.kind.isData then m.declaredType.map fun declared => ⟨c.name, m, declared⟩ else none

/-- The member is the one meant: the one at its place in the program, or, for a member without a place, one
    without a place and of the same name. -/
def sameSlot (wanted m : MemberSlot) : Bool :=
  match wanted.traitRef with
  | some ref => m.traitRef = some ref
  | none =>
    m.traitRef.isNone && m.name = wanted.name && m.space = wanted.space && m.isStatic = wanted.isStatic

/-- Give the first member that is meant its type. -/
def setType (wanted : MemberSlot) (type : QName) : List MemberSlot → List MemberSlot
  | [] => []
  | m :: rest =>
    if sameSlot wanted m then { m with resolvedType := some type } :: rest
    else m :: setType wanted type rest

/-- Enter the type of a slot into the frame. -/
def applyType (f : Frame) (slot : TypedSlot) (type : QName) : Frame :=
  { f with own := f.own.modify slot.owner fun c =>
      { c with members := setType slot.member type c.members } }

/-- The slots whose type is bound, each with its type. -/
def boundSlots (f : Frame) : List (TypedSlot × QName) :=
  f.typedSlots.filterMap fun slot => (f.bind slot.declared).map fun type => (slot, type)

/-- Bind the declared types of the unit's data slots.  The names that are not bound are collected. -/
def resolveTypes (f : Frame) : Frame × SlotTypes × List Name :=
  let bound := f.boundSlots
  let types := bound.foldl
    (fun (types : SlotTypes) (slot, type) =>
      match slot.member.traitRef with
      | some ref => types.insert ref type
      | none => types) .empty
  let unresolved := (f.typedSlots.map TypedSlot.declared).filter fun declared => (f.bind declared).isNone
  (bound.foldl (fun f (slot, type) => f.applyType slot type) f, types, unresolved)

end Frame

namespace Constant

/-- The constant that a reference into the pool stands for. -/
def ofPool (pool : Abc.ConstantPool) (value : Abc.OptionalValue) : Except DecodeError ConstantValue :=
  match value.kind with
  | .int => (pool.int value.index).map .int
  | .uint => (pool.uint value.index).map .uint
  | .double => (pool.double value.index).map .number
  | .string => (pool.string value.index).map .string
  | .true => .ok (.boolean true)
  | .false => .ok (.boolean false)
  | .null => .ok .null
  | .undefined => .ok .undefined
  | .space _ => do
    let space ← pool.space value.index
    let uri ← pool.string space.name
    return .space uri

/-- The value fits the declared type of the unnamed package. -/
def fits (declared : String) (value : ConstantValue) : Bool :=
  if declared = "int" then
    match value with
    | .int _ => true
    | .undefined => true
    | _ => false
  else if declared = "uint" then
    match value with
    | .uint _ => true
    | .undefined => true
    | _ => false
  else if declared = "Number" then
    match value with
    | .number _ => true
    | .int _ => true
    | .uint _ => true
    | .undefined => true
    | _ => false
  else if declared = "Boolean" then
    match value with
    | .boolean _ => true
    | .undefined => true
    | _ => false
  else if declared = "String" then
    match value with
    | .string _ => true
    | .null => true
    | .undefined => true
    | _ => false
  else if declared = "Namespace" then
    match value with
    | .space _ => true
    | .null => true
    | .undefined => true
    | _ => false
  else true

/-- A number taken over into another number type, bit for bit between the two integer types. -/
def convert? (declared : String) (value : ConstantValue) : Option ConstantValue :=
  match value with
  | .int v =>
    if declared = "uint" then some (.uint v.toUInt32)
    else if declared = "Number" then some (.number (Double.ofInt v.toInt))
    else none
  | .uint v =>
    if declared = "int" then some (.int v.toInt32)
    else if declared = "Number" then some (.number (Double.ofNat v.toNat))
    else none
  | _ => none

/-- A negative integer that becomes a large positive one. -/
def negative? (declared : String) : ConstantValue → Option Int
  | .int v => if declared = "uint" && v.toInt < 0 then some v.toInt else none
  | _ => none

/-- The value of a slot in its declared type, and the warning that this gives.  Types of other packages are
    not looked at. -/
def coerce (slot : String) (declared : QName) (value : ConstantValue) (strict : Bool) :
    ConstantValue × Option Message :=
  if !declared.isUnnamed then (value, none)
  else
    match convert? declared.name value with
    | some converted =>
      (converted, (negative? declared.name value).map fun v => .negativeUint slot v)
    | none =>
      if strict && !fits declared.name value then
        (value, some (.constantMismatch slot declared.text value.typeName))
      else (value, none)

end Constant

namespace Program

/-- A slot with an initializer. -/
structure Initializer where
  ref : TraitRef
  name : String
  value : Abc.OptionalValue
deriving Repr, DecidableEq, Inhabited

/-- The initializers of a program, class by class, those of instances first. -/
def initializers (p : Program) : List Initializer :=
  (indexed p.classes).flatMap fun (classIndex, c) =>
    (members classIndex c).filterMap fun (ref, definition) =>
      match definition.body with
      | .slot _ (some value) _ => some ⟨ref, definition.name, value⟩
      | _ => none

/-- The value of an initializer, and the warning that it gives.  One that the pool does not hold has no
    value. -/
def evaluate (p : Program) (types : SlotTypes) (strict : Bool) (i : Initializer) :
    Option (ConstantValue × Option Message) :=
  match Constant.ofPool p.pool i.value with
  | .error _ => none
  | .ok value =>
    match types.get? i.ref with
    | some declared => some (Constant.coerce i.name declared value strict)
    | none => some (value, none)

/-- Report a warning against a source. -/
def warn (log : Log) (source : String) : Option Message → Log
  | none => log
  | some message => log.report .warning (some source) message

/-- The values of the initializers by their places; warnings go to the log. -/
def constants (p : Program) (types : SlotTypes) (strict : Bool) (source : String) (log : Log) :
    Table TraitRef ConstantValue × Log :=
  p.initializers.foldl
    (fun (values, log) i =>
      match p.evaluate types strict i with
      | none => (values, log)
      | some (value, warning) => (values.insert i.ref value, warn log source warning))
    (.empty, log)

end Program

end AbcBuild
