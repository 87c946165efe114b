/-
Module: AbcBuild.Registry
Purpose: The symbols of one build: classes by name, the sources of definitions and bundles, multinames
  already resolved, and the styles of the application.
Main exports: Registry, Registry.define, Registry.resolveMultiname, RegistryError
-/
import AbcBuild.Class.Store
import AbcBuild.Style

namespace AbcBuild

/-- Why a registration was refused. -/
inductive RegistryError where
  | duplicateDefinition (name : QName) (existing source : String)
  | duplicateBundle (bundle existing : String)
deriving Repr, DecidableEq, Inhabited

namespace RegistryError

def text : RegistryError → String
  | .duplicateDefinition name existing source =>
    "'" ++ name.text ++ "' is defined in both '" ++ existing ++ "' and '" ++ source ++ "'"
  | .duplicateBundle bundle existing =>
    "resource bundle '" ++ bundle ++ "' is already defined by '" ++ existing ++ "'"

/-- The message that reports a refused registration. -/
def message : RegistryError → Message
  | .duplicateDefinition name existing _ => .duplicateDefinition name.text existing
  | .duplicateBundle bundle existing => .duplicateBundle bundle existing

end RegistryError

/-- The symbols of one build.  Sources are known by name. -/
structure Registry where
  classes : Table String ClassId := .empty
  /-- The class of values without a type, present in every registry. -/
  untyped : ClassId
  definitions : Table QName String := .empty
  multinames : Table MultiName QName := .empty
  bundleSources : Table String String := .empty
  bundleNames : Table String (List QName) := .empty
  styles : StyleTable := .empty
  generation : Generation
  typeTable : Option TypeTable := none
deriving Repr, DecidableEq, Inhabited

/-- A registry without symbols, in a generation of its own. -/
def ClassStore.newRegistry (store : ClassStore) : Registry × ClassStore :=
  let (untyped, store) := store.add ClassDescriptor.untyped
  let store := store.freeze untyped
  let (generation, store) := store.tick
  ({ untyped := untyped, generation := generation }, store)

namespace Registry

/-- The class of a name; `*` is the class of values without a type. -/
def class? (r : Registry) (name : String) : Option ClassId :=
  if name = ClassDescriptor.untypedName then some r.untyped else r.classes.get? name

def hasClass (r : Registry) (name : String) : Bool := (r.class? name).isSome

/-- Register a class under a name.  The last one stays.  A displaced class is returned if it is another one,
    from another source. -/
def registerClass (r : Registry) (store : ClassStore) (name : String) (id : ClassId) :
    Registry × Option ClassId :=
  let displaced := (r.classes.get? name).filter fun previous =>
    previous ≠ id && (store.descriptor? previous).bind ClassDescriptor.source
      ≠ (store.descriptor? id).bind ClassDescriptor.source
  ({ r with classes := r.classes.insert name id }, displaced)

/-- Note which source defines a name.  The same source may say so again; another one is refused. -/
def define (r : Registry) (name : QName) (source : String) : Except RegistryError Registry :=
  match r.definitions.get? name with
  | some existing =>
    if existing = source then .ok r else .error (.duplicateDefinition name existing source)
  | none => .ok { r with definitions := r.definitions.insert name source }

/-- Note every name, and collect the refusals. -/
def defineAll (r : Registry) (source : String) : List QName → Registry × List RegistryError
  | [] => (r, [])
  | name :: rest =>
    match r.define name source with
    | .ok r => defineAll r source rest
    | .error e =>
      let (r, errors) := defineAll r source rest
      (r, e :: errors)

/-- Note names up to the first refusal. -/
def defineUntil (r : Registry) (source : String) : List QName → Registry × Option RegistryError
  | [] => (r, none)
  | name :: rest =>
    match r.define name source with
    | .ok r => defineUntil r source rest
    | .error e => (r, some e)

/-- The name of the source that defines a name. -/
def definedIn? (r : Registry) (name : QName) : Option String := r.definitions.get? name

def registerMultiname (r : Registry) (m : MultiName) (q : QName) : Registry :=
  { r with multinames := r.multinames.insert m q }

/-- The first candidate that some source defines.  The answer is kept for later questions. -/
def resolveMultiname (r : Registry) (m : MultiName) : Option QName × Registry :=
  match r.multinames.get? m with
  | some q => (some q, r)
  | none =>
    match m.candidates.find? r.definitions.contains with
    | some q => (some q, r.registerMultiname m q)
    | none => (none, r)

/-- The qualified name that a reference stands for in this build. -/
def resolveName (r : Registry) : Name → Option QName × Registry
  | .qualified q => (some q, r)
  | .multi m => r.resolveMultiname m

/-- Merge the styles of a unit, and tell of the first conflict. -/
def registerStyles (r : Registry) (styles : StyleTable) : Registry × Option StyleConflict :=
  let (merged, conflict) := StyleTable.addAll r.styles styles
  ({ r with styles := merged }, conflict)

/-- Register a bundle with the names it defines.  A bundle of another source is refused; so is a name of
    another source, and then the names before it stay noted. -/
def registerBundle (r : Registry) (bundle : String) (names : List QName) (source : String) :
    Registry × Option RegistryError :=
  let owner := r.bundleSources.get? bundle
  if owner.any (· ≠ source) then (r, owner.map (.duplicateBundle bundle ·))
  else
    match r.defineUntil source names with
    | (r, some e) => (r, some e)
    | (r, none) =>
      ({ r with
          bundleSources := r.bundleSources.insert bundle source
          bundleNames := r.bundleNames.insert bundle names }, none)

/-- The type table of the generation, made at its first use. -/
def currentTable (r : Registry) : TypeTable × Registry :=
  match r.typeTable with
  | some table => (table, r)
  | none => (⟨r.generation⟩, { r with typeTable := some ⟨r.generation⟩ })

end Registry

/-- Unbind every registered class and start a new generation, so that the classes can serve another build. -/
def ClassStore.startGeneration (store : ClassStore) (r : Registry) : Registry × ClassStore :=
  let store := r.classes.values.foldl ClassStore.unbind store
  let (generation, store) := store.tick
  ({ r with typeTable := none, generation := generation }, store)

end AbcBuild
