/-
Module: AbcBuild.Publish
Purpose: Making the classes and styles of a unit known to the build.
Main exports: publishClass, publishTable, publishStyles, findLoaderBase
-/
import AbcBuild.Context

namespace AbcBuild

/-- Freeze a class, bind it to the type table and register it.  Replacing a class of another source is
    reported. -/
def publishClass (table : TypeTable) (id : ClassId) (u : BuildUnit) (cx : Context) : BuildUnit × Context :=
  let store := (cx.store.freeze id).bind id table
  match store.descriptor? id with
  | none => (u, cx)
  | some d =>
    let (registry, displaced) := cx.registry.registerClass store d.name id
    let cx := { cx with store := store, registry := registry }
    let cx := match displaced with
      | none => cx
      | some previous =>
        let origin := ((store.descriptor? previous).bind ClassDescriptor.source).getD ""
        cx.report .warning (some u.source.name) (.classRedefined d.name u.source.name origin)
    ({ u with classTable := u.classTable.insert d.name id }, cx)

/-- Publish classes one after the other. -/
def publishAll (table : TypeTable) : List ClassId → BuildUnit → Context → BuildUnit × Context
  | [], u, cx => (u, cx)
  | id :: rest, u, cx =>
    let (u, cx) := publishClass table id u cx
    publishAll table rest u cx

/-- Publish new descriptors one after the other. -/
def publishNew (table : TypeTable) : List ClassDescriptor → BuildUnit → Context → BuildUnit × Context
  | [], u, cx => (u, cx)
  | d :: rest, u, cx =>
    let (id, store) := cx.store.add d
    let (u, cx) := publishClass table id u { cx with store := store }
    publishNew table rest u cx

/-- Publish the classes that a unit took over from an earlier build. -/
def publishTable (table : TypeTable) (u : BuildUnit) (cx : Context) : BuildUnit × Context :=
  publishAll table u.classTable.values u cx

/-- Merge the styles of a unit into those of the application.  The first conflict is reported as gravely as
    the settings ask. -/
def publishStyles (u : BuildUnit) (cx : Context) : Context :=
  let (registry, conflict) := cx.registry.registerStyles u.styles
  let cx := { cx with registry := registry }
  match conflict with
  | none => cx
  | some conflict => cx.report cx.config.styleSeverity (some u.source.name) conflict.message

/-- The loader that the tags of a class and its ancestors name first. -/
def factoryOf (tags : List Metadata) : Option String := tags.findSome? fun tag => tag.value? "factoryClass"

/-- The loader that the supertype of a class, or an ancestor of that, names. -/
def inheritedFactory (view : Hierarchy.View) (store : ClassStore) (id : ClassId) :
    Option String × ClassStore :=
  match Hierarchy.superType view store id with
  | (none, store) => (none, store)
  | (some base, store) =>
    let (tags, store) := Hierarchy.inheritedTags view store base "Frame" true
    (factoryOf tags, store)

/-- The first loader that one of the classes inherits. -/
def firstFactory (view : Hierarchy.View) : List ClassId → ClassStore → Option String × ClassStore
  | [], store => (none, store)
  | id :: rest, store =>
    match inheritedFactory view store id with
    | (some factory, store) => (some factory, store)
    | (none, store) => firstFactory view rest store

/-- Note the loader that the unit's classes inherit. -/
def findLoaderBase (u : BuildUnit) (cx : Context) : BuildUnit × Context :=
  let (factory, store) := firstFactory (cx.viewWith u) u.classTable.values cx.store
  let cx := { cx with store := store }
  match factory with
  | none => (u, cx)
  | some factory => ({ u with loaderBase := some (QName.parse factory).text }, cx)

end AbcBuild
