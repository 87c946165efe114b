/-
Module: AbcBuild.Class.Hierarchy
Purpose: Questions about supertypes, interfaces and inherited members.  A frozen class remembers the
  supertype it found, for the generation of the registry that was asked and as long as someone still holds
  that class; so every question may change the store.
Main exports: ancestors, isSubclassOf, implementsInterface, inheritedTags
-/
import AbcBuild.Registry

namespace AbcBuild.Hierarchy

/-- What the questions look at: the registry, and which classes someone still holds. -/
structure View where
  registry : Registry
  held : ClassId → Bool

/-- The remembered supertype of a frozen class, if it may still be used. -/
def remembered? (view : View) (record : ClassRecord) : Option ClassId :=
  if record.frozen then
    match record.superLink with
    | some (generation, id) =>
      if generation = view.registry.generation && view.held id then some id else none
    | none => none
  else none

/-- The supertype of a class, remembered or looked up by name. -/
def superType (view : View) (store : ClassStore) (id : ClassId) : Option ClassId × ClassStore :=
  match store.get? id with
  | none => (none, store)
  | some record =>
    match record.descriptor.superName with
    | none => (none, store)
    | some name =>
      match remembered? view record with
      | some found => (some found, store)
      | none =>
        match view.registry.class? name with
        | none => (none, store)
        | some found =>
          if record.frozen then
            (some found,
              store.modify id fun r => { r with superLink := some (view.registry.generation, found) })
          else (some found, store)

/-- The chain that starts at `next`, up to the first class whose name was seen before; `steps` bounds its
    length. -/
def chainWithin (view : View) :
    Nat → List String → Option ClassId → ClassStore → List ClassId × ClassStore
  | 0, _, _, store => ([], store)
  | _ + 1, _, none, store => ([], store)
  | steps + 1, seen, some id, store =>
    match store.descriptor? id with
    | none => ([], store)
    | some d =>
      if seen.contains d.name then ([], store)
      else
        let (next, store) := superType view store id
        let (rest, store) := chainWithin view steps (d.name :: seen) next store
        (id :: rest, store)

/-- The supertypes of a class, nearest first, up to the first name that cannot be found or comes again.  No
    class comes twice, so the chain is no longer than the store. -/
def ancestors (view : View) (store : ClassStore) (id : ClassId) : List ClassId × ClassStore :=
  match store.descriptor? id with
  | none => ([], store)
  | some d =>
    let (next, store) := superType view store id
    chainWithin view (store.records.length + 1) [d.name] next store

/-- The descriptors of a class and its ancestors, nearest first. -/
def lineage (view : View) (store : ClassStore) (id : ClassId) : List ClassDescriptor × ClassStore :=
  let (chain, after) := ancestors view store id
  ((id :: chain).filterMap after.descriptor?, after)

/-- The interfaces that a class lists, without those that cannot be found. -/
def interfaceClasses (view : View) (store : ClassStore) (id : ClassId) : List ClassId :=
  match store.descriptor? id with
  | none => []
  | some d => d.interfaces.filterMap view.registry.class?

/-- The class has the name, or one of its ancestors has. -/
def isSubclassOf (view : View) (store : ClassStore) (id : ClassId) (base : String) : Bool × ClassStore :=
  match store.descriptor? id with
  | none => (false, store)
  | some d =>
    if d.name = base then (true, store)
    else
      let (chain, after) := ancestors view store id
      (chain.any fun a => (after.descriptor? a).any fun d => d.name = base, after)

/-- The interfaces listed by the class that is registered under a name. -/
def listedBy (view : View) (store : ClassStore) (name : String) : List String :=
  ((view.registry.class? name).bind store.descriptor?).elim [] ClassDescriptor.interfaces

/-- `wanted` is among the pending names or listed, at any depth, by the interfaces they name.  The pending
    names are a stack; `steps` bounds the names taken from it. -/
def reachesWithin (view : View) (store : ClassStore) (wanted : String) :
    Nat → List String → List String → Bool
  | 0, _, _ => false
  | _ + 1, _, [] => false
  | steps + 1, seen, name :: pending =>
    if name = wanted then true
    else if seen.contains name then reachesWithin view store wanted steps seen pending
    else
      reachesWithin view store wanted steps (name :: seen)
        ((listedBy view store name).reverse ++ pending)

/-- How many names a search can take from the stack: those it starts with, and once for each registered class
    the interfaces that class lists. -/
def searchBound (view : View) (store : ClassStore) (start : List String) : Nat :=
  start.length + view.registry.classes.keys.foldr (fun name n => (listedBy view store name).length + n) 0
    + (listedBy view store ClassDescriptor.untypedName).length + 1

/-- The class, an ancestor, or an interface of one of them lists the interface. -/
def implementsInterface (view : View) (store : ClassStore) (id : ClassId) (wanted : String) :
    Bool × ClassStore :=
  let (family, after) := lineage view store id
  let start := (family.flatMap ClassDescriptor.interfaces).reverse
  (reachesWithin view after wanted (searchBound view after start) [] start, after)

/-- The first answer that the class gives, else, if `inherited`, the first that an ancestor gives. -/
def pick {α : Type} (view : View) (store : ClassStore) (id : ClassId) (inherited : Bool)
    (ask : ClassDescriptor → Option α) : Option α × ClassStore :=
  match (store.descriptor? id).bind ask with
  | some found => (some found, store)
  | none =>
    if inherited then
      let (chain, after) := ancestors view store id
      (chain.findSome? fun a => (after.descriptor? a).bind ask, after)
    else (none, store)

/-- The variable of that name in one of the namespaces. -/
def inheritedVariable? (view : View) (store : ClassStore) (id : ClassId) (spaces : List String)
    (name : String) (inherited : Bool) : Option Variable × ClassStore :=
  pick view store id inherited fun d => d.variableNamed? spaces name

/-- The method or accessor of that kind and name in one of the namespaces. -/
def inheritedMethod? (view : View) (store : ClassStore) (id : ClassId) (kind : MethodKind)
    (spaces : List String) (name : String) (inherited : Bool) : Option Method × ClassStore :=
  pick view store id inherited fun d => d.methodNamed? kind spaces name

/-- The tags of that name; those of ancestors follow, if `inherited`. -/
def inheritedTags (view : View) (store : ClassStore) (id : ClassId) (name : String) (inherited : Bool) :
    List Metadata × ClassStore :=
  if inherited then
    let (family, after) := lineage view store id
    (family.flatMap (·.tags name), after)
  else ((store.descriptor? id).elim [] (·.tags name), store)

end AbcBuild.Hierarchy
