/-
Module: AbcBuild.Frontend.Abc
Purpose: The phases of a unit whose source is an ABC block: decode it, build its frame, bind its names,
  publish its classes.  A unit taken over from an earlier build only publishes.
Main exports: AbcFrontend.parse, AbcFrontend.step
-/
import AbcBuild.Analysis.Merge
import AbcBuild.Analysis.Publication
import AbcBuild.Extension
import AbcBuild.Program.Resolve
import AbcBuild.Publish

namespace AbcBuild.AbcFrontend

/-- The first player with vector types. -/
def vectorPlayer : Nat := 10

/-- The content of a source that has some; else the message that tells why there is none. -/
def bytecode (source : Source) : Except Message (List UInt8) :=
  match source.read with
  | .error reason => .error (.unreadable reason)
  | .ok bytes => if bytes.isEmpty then .error .noBytecode else .ok bytes

/-- Fill the bytes of a unit from its source. -/
def copyBytes (source : Source) (u : BuildUnit) (cx : Context) : BuildUnit × Context :=
  match bytecode source with
  | .ok bytes => ({ u with bytes := bytes }, cx)
  | .error message => (u, cx.report .error (some source.name) message)

/-- The program of a source with its bytes.  A block that cannot be decoded is reported unless the build
    already has errors. -/
def readProgram (source : Source) (cx : Context) : Option (Program × List UInt8) × Context :=
  match bytecode source with
  | .error message => (none, cx.report .error (some source.name) message)
  | .ok bytes =>
    match Program.decode bytes with
    | .ok program => (some (program, bytes), cx)
    | .error e =>
      (none, if cx.hasErrors then cx else cx.report .error (some source.name) (.decodingFailed e.text))

/-- Enter into a unit what its program defines, depends on and declares.  Conflicts between styles are left
    for the phase that publishes them. -/
def collect (program : Program) (u : BuildUnit) : BuildUnit :=
  { u with
    topLevel := program.topLevel
    dependencies := u.dependencies.extend program.dependencies
    styles := (StyleTable.addList u.styles program.styles).1 }

/-- Make or take over the unit of a source.  The first result tells whether there is one to go on with. -/
def parse (extensions : List Extension) (source : Source) (slot : Option BuildUnit) (cx : Context) :
    Bool × Option BuildUnit × Context :=
  let known := slot.filter fun u => u.hasTypeInfo || u.tree.isSome
  match known with
  | some u =>
    if u.hasTypeInfo && u.bytes.isEmpty then
      let (u, cx) := copyBytes source u cx
      (true, some u, cx)
    else (true, some u, cx)
  | none =>
    let (decoded, cx) := readProgram source cx
    if cx.hasErrors then (false, slot, cx)
    else
      match decoded with
      | none => (false, slot, cx)
      | some (program, bytes) =>
        let u := slot.getD (BuildUnit.ofSource source)
        let u := collect program { u with tree := some (.abc program), bytes := bytes }
        let (ok, u, cx) := Extension.runAll extensions .parse1 u cx
        (ok, some u, cx)

/-- Build the frame of a fresh program. -/
def frame (extensions : List Extension) (u : BuildUnit) (cx : Context) : BuildUnit × Context :=
  match u.program? with
  | none => (u, cx)
  | some program =>
    if program.state = .fresh then
      let u := { u with
        tree := some (.abc { program with state := .framed })
        typeInfo := some program.frame
        scratch := { u.scratch with flow := some program.classNames } }
      Extension.finish extensions .analyze1 u cx
    else (u, cx)

/-- Bind the inheritance of the unit's classes. -/
def bindInheritance (u : BuildUnit) : BuildUnit :=
  match u.scratch.flow, u.typeInfo with
  | some names, some frame =>
    let (frame, unresolved) := frame.resolveInheritance names
    { u with
      typeInfo := some frame
      scratch := { u.scratch with unresolved := u.scratch.unresolved ++ unresolved } }
  | _, _ => u

/-- Take over the frames of inherited classes, and bind the inheritance. -/
def inheritance (extensions : List Extension) (u : BuildUnit) (cx : Context) : BuildUnit × Context :=
  if u.program?.map Program.state = some .framed then
    let u := { u with scratch := { u.scratch with processed := some [] } }
    let (u, cx, _) := mergeDependencies .inheritance u cx
    let (u, cx, _) := mergeDependencies .spaces u cx
    let u := bindInheritance u
    if cx.hasErrors then (u, cx) else Extension.finish extensions .analyze2 u cx
  else (u, cx)

/-- Bind the types of the unit's data slots. -/
def bindTypes (u : BuildUnit) : BuildUnit :=
  match u.typeInfo with
  | none => u
  | some frame =>
    let (frame, types, unresolved) := frame.resolveTypes
    { u with
      typeInfo := some frame
      scratch := { u.scratch with
        constants := some types
        unresolved := u.scratch.unresolved ++ unresolved } }

/-- Take over the frames of the types in use, and bind the types. -/
def types (extensions : List Extension) (u : BuildUnit) (cx : Context) : BuildUnit × Context :=
  if u.program?.isNone then (u, cx)
  else
    let (u, cx, _) := mergeDependencies .types u cx
    let (u, cx, _) := mergeDependencies .spaces u cx
    let u := bindTypes u
    if cx.hasErrors then (u, cx) else Extension.finish extensions .analyze3 u cx

/-- Report the vector types of a program that the target player lacks. -/
def reportVectors (program : Program) (source : String) (cx : Context) : Context :=
  if cx.config.targetPlayer < vectorPlayer then
    program.vectorTypes.foldl
      (fun cx name =>
        cx.report .warning (some source)
        (.unsupportedByPlayer name.text vectorPlayer cx.config.targetPlayer)) cx
  else cx

/-- The registry can account for a name. -/
def isKnown (name : Name) (cx : Context) : Bool × Context :=
  let isClass (q : QName) : Bool := cx.registry.hasClass q.text
  match name with
  | .qualified q => (q.isBuiltin || isClass q || (cx.registry.definedIn? q).isSome, cx)
  | .multi m =>
    if name.isBuiltin then (true, cx)
    else
      let (found, cx) := cx.resolveName (.multi m)
      (found.isSome || m.candidates.any isClass, cx)

/-- Report the names that nothing accounts for, each once. -/
def reportUnresolved (source : String) : List Name → List Name → Context → Context
  | _, [], cx => cx
  | seen, name :: rest, cx =>
    if seen.contains name then reportUnresolved source seen rest cx
    else
      let (known, cx) := isKnown name cx
      let cx := if known then cx else cx.report .warning (some source) (.unresolvedType name.text)
      reportUnresolved source (name :: seen) rest cx

/-- Publish the classes and styles of a program. -/
def publishProgram (extensions : List Extension) (program : Program) (table : TypeTable) (u : BuildUnit)
    (cx : Context) : BuildUnit × Context :=
  let slotTypes := u.scratch.constants.getD .empty
  let u := { u with scratch := { u.scratch with constants := none } }
  let (values, log) := program.constants slotTypes cx.config.strict u.source.name cx.log
  let cx := { cx with log := log }
  if cx.hasErrors then (u, cx)
  else
    let (classes, registry) :=
      (Publication.descriptors program (u.typeInfo.getD {}) values u.source.name).run cx.registry
    let (u, cx) := publishNew table classes u { cx with registry := registry }
    let cx := publishStyles u cx
    let (u, cx) := findLoaderBase u cx
    let cx := reportVectors program u.source.name cx
    let cx := reportUnresolved u.source.name [] u.scratch.unresolved cx
    let u := { u with scratch := { u.scratch with unresolved := [] } }
    if cx.hasErrors then (u, cx) else Extension.finish extensions .analyze4 u cx

/-- Publish what a unit defines. -/
def publish (extensions : List Extension) (u : BuildUnit) (cx : Context) : BuildUnit × Context :=
  let (table, cx) := cx.typeTable
  if u.hasTypeInfo then
    let (u, cx) := publishTable table u cx
    findLoaderBase u (publishStyles u cx)
  else
    match u.program? with
    | some program => publishProgram extensions program table u cx
    | none => ({ u with scratch := { u.scratch with constants := none } }, cx)

/-- Drop what only the analysis needed; the bytecode is the block itself. -/
def generate (extensions : List Extension) (u : BuildUnit) (cx : Context) : BuildUnit × Context :=
  let (ok, u, cx) := Extension.runAll extensions .generate u cx
  if ok then
    (({ u with scratch := {}, typeInfo := u.typeInfo.map Frame.clean } : BuildUnit).setBytecode u.bytes, cx)
  else (u, cx)

/-- Run a phase after the first on a unit.  Nothing happens once the build has errors, and a unit that is
    taken over only publishes. -/
def step (extensions : List Extension) (phase : Phase) (u : BuildUnit) (cx : Context) :
    BuildUnit × Context :=
  if cx.hasErrors then (u, cx)
  else if u.hasTypeInfo && phase ≠ .analyze4 then (u, cx)
  else
    match phase with
    | .parse1 => (u, cx)
    | .parse2 => Extension.finish extensions .parse2 u cx
    | .analyze1 => frame extensions u cx
    | .analyze2 => inheritance extensions u cx
    | .analyze3 => types extensions u cx
    | .analyze4 => publish extensions u cx
    | .generate => generate extensions u cx
    | .postprocess => (u, cx)

end AbcBuild.AbcFrontend
