/-
Module: AbcBuild.Compilation
Purpose: Repeated builds over a changing set of sources.  Every build has a registry of its own.  A unit
  whose content is the same as in the last successful build is taken over from it.
Main exports: Compilation, Compilation.addSource, Compilation.build, BuildReport
-/
import AbcBuild.Schedule

namespace AbcBuild

/-- Why a build has no result. -/
inductive BuildError where
  | noSources
  | failed (errors : Nat) (diagnostics : List Diagnostic)
deriving Repr, DecidableEq, Inhabited

namespace BuildError

def text : BuildError → String
  | .noSources => "no sources to compile"
  | .failed errors _ => "build failed with " ++ toString errors ++ " error(s)"

def diagnostics : BuildError → List Diagnostic
  | .noSources => []
  | .failed _ diagnostics => diagnostics

end BuildError

/-- The result of a build without errors. -/
structure BuildReport where
  /-- All registered classes by name. -/
  classes : Table String ClassId
  diagnostics : List Diagnostic
  /-- The bytecode of each source. -/
  bytecode : Table String (List UInt8)
  /-- How many units were taken over. -/
  reused : Nat
deriving Repr, DecidableEq, Inhabited

/-- How many warnings the build reported. -/
def BuildReport.warnings (r : BuildReport) : Nat :=
  (r.diagnostics.filter fun d => d.severity = .warning).length

/-- What is kept of a unit for the next build. -/
structure CacheEntry where
  content : List UInt8
  info : UnitInfo
  bytecode : List UInt8
deriving Repr, DecidableEq, Inhabited

/-- The sources to build, and what is kept of the last successful build. -/
structure Compilation where
  config : Config := {}
  scheduler : Scheduler := Scheduler.standard
  sources : Table String Source := .empty
  cache : Table String CacheEntry := .empty
  store : ClassStore := {}
  /-- What the hooks of extensions left on record in all builds. -/
  events : List Event := []

namespace Compilation

/-- Add a source, or replace the one of the same name. -/
def addSource (c : Compilation) (source : Source) : Compilation :=
  { c with sources := c.sources.insert source.name source }

/-- Remove a source and forget its unit. -/
def removeSource (c : Compilation) (name : String) : Option Source × Compilation :=
  (c.sources.get? name, { c with sources := c.sources.erase name, cache := c.cache.erase name })

/-- Forget the unit of a source, so that the next build works on it again. -/
def invalidate (c : Compilation) (name : String) : Bool × Compilation :=
  (c.cache.contains name, { c with cache := c.cache.erase name })

/-- What is kept of a source whose content did not change. -/
def cached? (c : Compilation) (source : Source) : Option CacheEntry :=
  match source.read with
  | .error _ => none
  | .ok bytes => (c.cache.get? source.name).filter fun entry => entry.content = bytes

/-- The unit that a source starts a build with. -/
def restored? (c : Compilation) (source : Source) : Option BuildUnit :=
  (c.cached? source).map fun entry =>
    let u := BuildUnit.ofInfo source entry.info
    if entry.bytecode.isEmpty then u else u.setBytecode entry.bytecode

/-- The start of a build over the current sources. -/
def context (c : Compilation) : Context :=
  let kept := c.cache.values.flatMap fun entry => entry.info.classTable.values
  c.sources.values.foldl (fun cx source => cx.addSource source (c.restored? source))
    { Context.start c.config c.store with retained := kept }

/-- How many units the next build takes over. -/
def reusable (c : Compilation) : Nat := (c.sources.values.filter fun s => (c.cached? s).isSome).length

/-- What to keep of a unit: a finished unit whose source can be read. -/
def cacheEntry? (slot : SourceSlot) : Option (String × CacheEntry) :=
  match slot.unit, slot.source.read with
  | some u, .ok bytes =>
    if u.done then
      some (slot.source.name, { content := bytes, info := u.toUnitInfo, bytecode := u.bytes })
    else none
  | _, _ => none

/-- What to keep of all units. -/
def cacheOf (slots : List SourceSlot) : Table String CacheEntry := Table.ofList (slots.filterMap cacheEntry?)

/-- The bytecode of all units. -/
def bytecodeOf (slots : List SourceSlot) : Table String (List UInt8) :=
  Table.ofList (slots.filterMap fun slot => slot.unit.map fun u => (slot.source.name, u.bytes))

/-- Build all sources.  Success replaces what is kept of units; failure leaves it as it was. -/
def build (c : Compilation) : Except BuildError BuildReport × Compilation :=
  if c.sources.isEmpty then (.error .noSources, c)
  else
    let (outcome, cx) := c.scheduler.run c.context
    let c' := { c with store := cx.store, events := c.events ++ cx.events }
    if !outcome.completed || cx.hasErrors then (.error (.failed cx.log.errors cx.log.entries), c')
    else
      let report : BuildReport :=
        { classes := cx.registry.classes
          diagnostics := cx.log.entries
          bytecode := bytecodeOf cx.sources
          reused := c.reusable }
      (.ok report, { c' with store := cx.startGeneration.store, cache := cacheOf cx.sources })

end Compilation

end AbcBuild
