/-
Module: AbcBuild.Class.Store
Purpose: The descriptors that all builds of a process share.  A descriptor is known by its place in the
  store, so two descriptors with the same content stay apart.  Its content never changes; what changes is
  whether it is frozen, which type table it is bound to, and which supertype was last found for it.  The
  store also numbers the generations, so no two registries ever share one.
Main exports: TypeTable, ClassRecord, ClassStore, ClassStore.bind
-/
import AbcBuild.Class.Descriptor
import AbcBuild.Table

namespace AbcBuild

/-- The place of a descriptor in the store. -/
abbrev ClassId := Nat

/-- The number of a build generation; the first is 1. -/
abbrev Generation := Nat

/-- The type table of one generation. -/
structure TypeTable where
  generation : Generation
deriving Repr, DecidableEq, Inhabited

namespace TypeTable

/-- Generation 0 means unbound and has no table. -/
def ofGeneration? (generation : Generation) : Option TypeTable :=
  if generation = 0 then none else some ⟨generation⟩

def text (t : TypeTable) : String := "typetable_" ++ toString t.generation

end TypeTable

/-- A descriptor with what changes about it. -/
structure ClassRecord where
  descriptor : ClassDescriptor
  /-- Published for good; from now on a found supertype is remembered. -/
  frozen : Bool := false
  binding : Option TypeTable := none
  /-- The supertype found last, and the generation it was found in. -/
  superLink : Option (Generation × ClassId) := none
deriving Repr, DecidableEq, Inhabited

/-- The descriptor on one line. -/
def ClassRecord.describe (r : ClassRecord) : String :=
  Text.record "AbcClass"
    [("name", Text.quote r.descriptor.name),
     ("super_type_name", Text.optional (r.descriptor.superName.map Text.quote)),
     ("interface_names", Text.listed (r.descriptor.interfaces.map Text.quote)),
     ("variables", toString r.descriptor.vars.length),
     ("methods", toString r.descriptor.methods.length),
     ("frozen", Text.truth r.frozen)]

/-- All descriptors made so far, and the next generation to give out. -/
structure ClassStore where
  records : List ClassRecord := []
  nextGeneration : Generation := 1
deriving Repr, DecidableEq, Inhabited

namespace ClassStore

def get? (s : ClassStore) (id : ClassId) : Option ClassRecord := s.records[id]?

def descriptor? (s : ClassStore) (id : ClassId) : Option ClassDescriptor :=
  (s.get? id).map ClassRecord.descriptor

/-- Put a new descriptor into the store. -/
def add (s : ClassStore) (d : ClassDescriptor) : ClassId × ClassStore :=
  (s.records.length, { s with records := s.records ++ [{ descriptor := d }] })

/-- Add descriptors, and name each place by its descriptor; of two with the same name the later is named. -/
def addAll (s : ClassStore) (descriptors : List ClassDescriptor) : Table String ClassId × ClassStore :=
  descriptors.foldl (fun (named, s) d => (named.insert d.name (s.add d).1, (s.add d).2)) (.empty, s)

/-- Change the record at one place. -/
def modify (s : ClassStore) (id : ClassId) (change : ClassRecord → ClassRecord) : ClassStore :=
  { s with records := s.records.modify id change }

def freeze (s : ClassStore) (id : ClassId) : ClassStore :=
  s.modify id fun r => { r with frozen := true }

/-- Bind to a type table; an earlier binding is replaced. -/
def bind (s : ClassStore) (id : ClassId) (table : TypeTable) : ClassStore :=
  s.modify id fun r => { r with binding := some table }

def unbind (s : ClassStore) (id : ClassId) : ClassStore :=
  s.modify id fun r => { r with binding := none }

/-- The table that a descriptor is bound to. -/
def bound? (s : ClassStore) (id : ClassId) : Option TypeTable :=
  (s.get? id).bind ClassRecord.binding

/-- The descriptor is bound to this very table. -/
def isBoundTo (s : ClassStore) (id : ClassId) (table : TypeTable) : Bool :=
  s.bound? id = some table

/-- Give out the next generation. -/
def tick (s : ClassStore) : Generation × ClassStore :=
  (s.nextGeneration, { s with nextGeneration := s.nextGeneration + 1 })

end ClassStore

end AbcBuild
