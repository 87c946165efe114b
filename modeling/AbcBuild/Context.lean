/-
Module: AbcBuild.Context
Purpose: What the phases of one build share: the registry, the sources with their units, the log and the
  settings.  A class is held as long as the registry, a unit or someone outside the build refers to it.
Main exports: Event, SourceSlot, Context, Context.report
-/
import AbcBuild.BuildUnit
import AbcBuild.Class.Hierarchy
import AbcBuild.Config

namespace AbcBuild

/-- What the hooks of extensions leave on record. -/
inductive Event where
  /-- A hook ran at the end of a phase of a unit; `typed` tells whether all classes of the unit were bound to
      the type table that the hook was given. -/
  | visit (extension : String) (phase : Phase) (source : String) (typed : Bool)
  /-- A hook ran over the finished units. -/
  | link (units sources : List String) (strict : Bool) (logged : Nat)
deriving Repr, DecidableEq, Inhabited

/-- A source and the unit made of it, which is absent while a phase works on it. -/
structure SourceSlot where
  source : Source
  unit : Option BuildUnit := none
deriving Inhabited

/-- What the phases of a build share. -/
structure Context where
  registry : Registry
  sources : List SourceSlot := []
  log : Log := {}
  config : Config := {}
  catalogue : Catalogue := Catalogue.ofLocale defaultLocale
  store : ClassStore
  /-- Classes that someone outside the build holds. -/
  retained : List ClassId := []
  events : List Event := []
deriving Inhabited

namespace Context

/-- A build without sources, with a new registry. -/
def start (config : Config) (store : ClassStore) : Context :=
  let (registry, store) := store.newRegistry
  { registry := registry
    log := { showWarnings := config.showWarnings }
    config := config
    catalogue := Catalogue.ofLocale config.locale
    store := store }

def hasErrors (cx : Context) : Bool := cx.log.hasErrors

def report (cx : Context) (severity : Severity) (source : Option String) (message : Message) : Context :=
  { cx with log := cx.log.report severity source message }

/-- The classes that the registry and the units refer to. -/
def classIds (cx : Context) : List ClassId :=
  cx.registry.untyped :: cx.registry.classes.values
    ++ cx.sources.flatMap fun slot => slot.unit.elim [] fun u => u.classTable.values

/-- Someone holds the class. -/
def holds (cx : Context) (id : ClassId) : Bool := cx.classIds.contains id || cx.retained.contains id

/-- How the build looks at its classes. -/
def view (cx : Context) : Hierarchy.View := { registry := cx.registry, held := cx.holds }

/-- The same while a phase works on a unit. -/
def viewWith (cx : Context) (u : BuildUnit) : Hierarchy.View :=
  { registry := cx.registry, held := fun id => u.holds id || cx.holds id }

/-- The place of the first source with a name. -/
def indexOf? (cx : Context) (name : String) : Option Nat :=
  cx.sources.findIdx? fun slot => slot.source.name = name

def addSource (cx : Context) (source : Source) (unit : Option BuildUnit) : Context :=
  { cx with sources := cx.sources ++ [{ source := source, unit := unit }] }

def unit? (cx : Context) (index : Nat) : Option BuildUnit := cx.sources[index]?.bind SourceSlot.unit

/-- The unit of the first source with a name. -/
def unitNamed? (cx : Context) (name : String) : Option BuildUnit := (cx.indexOf? name).bind cx.unit?

/-- The frame of the first source with a name. -/
def frameOf? (cx : Context) (name : String) : Option Frame := (cx.unitNamed? name).bind fun u => u.typeInfo

/-- Put a unit into its slot, or empty the slot. -/
def putUnit (cx : Context) (index : Nat) (unit : Option BuildUnit) : Context :=
  { cx with sources := cx.sources.modify index fun slot => { slot with unit := unit } }

/-- All units, in the order of the sources. -/
def units (cx : Context) : List BuildUnit := cx.sources.filterMap SourceSlot.unit

/-- The qualified name that a reference stands for. -/
def resolveName (cx : Context) (name : Name) : Option QName × Context :=
  let (found, registry) := cx.registry.resolveName name
  (found, { cx with registry := registry })

/-- The type table of the generation. -/
def typeTable (cx : Context) : TypeTable × Context :=
  let (table, registry) := cx.registry.currentTable
  (table, { cx with registry := registry })

/-- Start a new generation. -/
def startGeneration (cx : Context) : Context :=
  let (registry, store) := cx.store.startGeneration cx.registry
  { cx with registry := registry, store := store }

/-- A build without sources that follows this one.  What this one holds stays held. -/
def successor (cx : Context) (config : Config) : Context :=
  { Context.start config cx.store with retained := cx.classIds ++ cx.retained, events := cx.events }

end Context

end AbcBuild
