/-
Module: AbcBuild.Analysis.Publication
Purpose: The descriptors of the classes of a program.  Types are written as texts: bound through the frame
  where that knows them, through the registry otherwise.
Main exports: Publication.typeText, Publication.descriptor, Publication.descriptors
-/
import AbcBuild.Analysis.Constants
import AbcBuild.Registry

namespace AbcBuild.Publication

/-- A step that may resolve multinames in the registry. -/
abbrev Resolving := StateM Registry

/-- The text of a type that no frame knows. -/
def registryText : Name → Resolving String
  | .qualified q => return q.text
  | .multi m => do
    let found ← (·.resolveMultiname m)
    match found.or m.candidates.head? with
    | some q => return q.text
    | none => return m.name

/-- The text of a type. -/
def typeText (frame : Frame) (name : Name) : Resolving String :=
  match frame.resolve name with
  | some q => return q.text
  | none => registryText name

/-- The text of a type that may be absent. -/
def typeText? (frame : Frame) (name : Option Name) : Resolving (Option String) :=
  name.mapM (typeText frame)

def parameter (frame : Frame) (p : ParamDef) : Resolving Parameter := do
  let typeName ← typeText? frame p.typeName
  return ⟨p.name, typeName, p.optional⟩

/-- The element type of a vector class. -/
def elementType? (name : QName) : Option String := do
  let rest ← "Vector.<".toList.isPrefixOf? name.name.toList
  if rest.getLast? = some '>' then some (String.ofList rest.dropLast) else none

/-- The type that the frame bound a member to. -/
def boundType? (slot : Option ClassSlot) (ref : TraitRef) : Option String :=
  (slot.bind fun c => c.members.find? fun m => m.traitRef = some ref).bind fun m =>
    m.resolvedType.map QName.text

/-- Add a member to the descriptor of its class. -/
def addMember (frame : Frame) (slot : Option ClassSlot) (values : Table TraitRef ConstantValue)
    (d : ClassDescriptor) (member : TraitRef × TraitDef) : Resolving ClassDescriptor := do
  let (ref, definition) := member
  match definition.body with
  | .slot typeName _ isConst =>
    let typeName ← match boundType? slot ref with
      | some type => pure (some type)
      | none => typeText? frame typeName
    return d.addVariable
      { name := definition.name
        space := definition.space
        typeName := typeName
        isConst := isConst
        isStatic := ref.isStatic
        value := values.get? ref
        metadata := definition.metadata
        declaringClass := d.name }
  | .method kind params returnType =>
    let returnType ← typeText? frame returnType
    let parameters ← params.mapM (parameter frame)
    return d.addMethod
      { name := definition.name
        space := definition.space
        kind := kind
        returnType := returnType
        parameters := parameters
        isStatic := ref.isStatic
        isFinal := definition.isFinal
        isOverride := definition.isOverride
        metadata := definition.metadata
        declaringClass := d.name }
  | .classRef _ => return d
  | .function .. => return d

/-- The descriptor of the class at a place of the program. -/
def descriptor (frame : Frame) (values : Table TraitRef ConstantValue) (source : String) (classIndex : Nat)
    (c : ClassDef) : Resolving ClassDescriptor := do
  let slot := frame.lookup? c.name
  let superName ← match slot.bind ClassSlot.resolvedSuper with
    | some q => pure (some q.text)
    | none => typeText? frame c.superName
  let interfaces ← c.interfaces.mapM (typeText frame)
  let header : ClassDescriptor :=
    { name := c.name.text
      superName := superName
      interfaces := interfaces
      elementType := elementType? c.name
      isInterface := c.isInterface
      isDynamic := !c.flags.has Abc.InstanceFlag.sealed
      isFinal := c.flags.has Abc.InstanceFlag.final
      isPublic := c.isPublic
      metadata := c.metadata
      source := some source }
  (Program.members classIndex c).foldlM (addMember frame slot values) header

/-- The descriptors of all classes of a program, in order. -/
def descriptors (p : Program) (frame : Frame) (values : Table TraitRef ConstantValue) (source : String) :
    Resolving (List ClassDescriptor) :=
  (Program.indexed p.classes).mapM fun (index, c) => descriptor frame values source index c

end AbcBuild.Publication
